import Mathlib.Data.List.Count
import SnowballLtp.Dma.PauseLoop

/-!
# Which test engines are freed

`tc_run_parallel`, `tc_pause_and_unpause_parallel` and `tc_run_while_read_reg` have one frame: they
initialise the entries of an array up to the first failure, lower the variable that bounds the
following loops to the number of entries initialised, run and await these entries, and free them.
When the first entry fails they jump to the label `out` before the bound has been lowered. There
two of them only release the array, and the third one frees the entries.

Here a run of one of them is the list of the calls it makes on the entries. It has no result when
the run does not come to its end: a wait is not signalled, or the pausing loop does not end.

## Main definitions

* `ChanEnv`, `TcCall`, `initLoop`, `waitLoop`.
* `tcRunParallel`, `tcPauseAndUnpauseParallel`, `tcRunWhileReadReg`, `Routine`.
* `succeeded`, `FreesEach`, `Routine.GetsThrough`.

## Main results

* `freesEach_append_iff`: what a loop of `tc_test_free` frees.
* `freesEach_iff`: when each entry that has been initialised is freed once, and no other one.
-/

namespace SnowballLtp.Dma.ParallelFree

/-- What the kernel and the engine answer. -/
structure ChanEnv where
  /-- What `tc_test_init` returns for entry `i`. -/
  tcTestInit : ℕ → ℤ
  /-- Whether the completion of entry `i`, or a signal to the waiting process, is there when it is
  looked at for the `j`-th time. -/
  signalled : ℕ → ℕ → Bool
  /-- The residues that `device_tx_status` reports one after the other. -/
  residue : ℕ → ℕ

/-- The calls on the entries of the array. -/
inductive TcCall where
  | tcTestInit (i : ℕ) (err : ℤ)
  | tcTestRun (i : ℕ)
  | tcTestWait (i : ℕ)
  /-- The call that finds the entry done. -/
  | tcTestIsDone (i : ℕ)
  | tcTestFree (i : ℕ)
  deriving DecidableEq, Repr

/-- The loop that initialises the entries, with the given number of passes to go, from entry `i`
on: its calls, and its index when it is left. -/
def initLoop (env : ChanEnv) : ℕ → ℕ → List TcCall × ℕ
  | 0, i => ([], i)
  | n + 1, i =>
    let err := env.tcTestInit i
    if err ≠ 0 then ([.tcTestInit i err], i)
    else
      let (calls, i') := initLoop env n (i + 1)
      (.tcTestInit i err :: calls, i')

/-- The loop `for (i = start; i < stop; i++)` around a call. -/
def forLoop (call : ℕ → TcCall) (start stop : ℕ) : List TcCall :=
  (List.range' start (stop - start)).map call

/-- One look at a completion. -/
def awaitPass (signalled : ℕ → Bool) (j : ℕ) : ℕ ⊕ Unit :=
  if signalled j then .inr () else .inl (j + 1)

/-- Look again and again until the completion is there. -/
def awaitOne (signalled : ℕ → Bool) (fuel : ℕ) : Option Unit :=
  iterate (awaitPass signalled) fuel 0

/-- A loop that waits for the given entries in turn. -/
def waitLoop (env : ChanEnv) (call : ℕ → TcCall) (fuel : ℕ) : List ℕ → Option (List TcCall)
  | [] => some []
  | i :: is => do
    awaitOne (env.signalled i) fuel
    let calls ← waitLoop env call fuel is
    pure (call i :: calls)

/-- `tc_run_parallel`. -/
def tcRunParallel (env : ChanEnv) (maxChannels chanStartIndex fuel : ℕ) : Option (List TcCall) :=
  let (inits, i) := initLoop env maxChannels 0
  if i = 0 then some inits
  else do
    let maxChannels := i
    let runs := forLoop .tcTestRun chanStartIndex maxChannels
    let waits ← waitLoop env .tcTestWait fuel
      (List.range' chanStartIndex (maxChannels - chanStartIndex))
    pure (inits ++ runs ++ waits ++ forLoop .tcTestFree 0 maxChannels)

/-- `tc_pause_and_unpause_parallel`. The label `out` is in front of the loop that frees. -/
def tcPauseAndUnpauseParallel (env : ChanEnv) (maxChannels fuel : ℕ) : Option (List TcCall) :=
  let (inits, i) := initLoop env maxChannels 0
  if i = 0 then some (inits ++ forLoop .tcTestFree 0 maxChannels)
  else do
    let maxChannels := i
    let runs := forLoop .tcTestRun 0 maxChannels
    let exit ← pauseTransfer env.residue fuel
    let waits ← match exit with
      | .out _ => pure []
      | .wait => waitLoop env .tcTestWait fuel (List.range' 0 maxChannels)
    pure (inits ++ runs ++ waits ++ forLoop .tcTestFree 0 maxChannels)

/-- `tc_run_while_read_reg`, which reads the registers until each entry is done. -/
def tcRunWhileReadReg (env : ChanEnv) (maxChannels fuel : ℕ) : Option (List TcCall) :=
  let (inits, i) := initLoop env maxChannels 0
  if i = 0 then some inits
  else do
    let maxChannels := i
    let runs := forLoop .tcTestRun 0 maxChannels
    let waits ← waitLoop env .tcTestIsDone fuel (List.range' 0 maxChannels)
    pure (inits ++ runs ++ waits ++ forLoop .tcTestFree 0 maxChannels)

/-- The three functions. -/
inductive Routine where
  | tcRunParallel (chanStartIndex : ℕ)
  | tcPauseAndUnpauseParallel
  | tcRunWhileReadReg
  deriving DecidableEq, Repr

/-- The calls of a run, at most `fuel` passes in each of its waits and in the pausing loop. -/
def Routine.run (routine : Routine) (env : ChanEnv) (maxChannels fuel : ℕ) :
    Option (List TcCall) :=
  match routine with
  | .tcRunParallel chanStartIndex =>
    ParallelFree.tcRunParallel env maxChannels chanStartIndex fuel
  | .tcPauseAndUnpauseParallel => ParallelFree.tcPauseAndUnpauseParallel env maxChannels fuel
  | .tcRunWhileReadReg => ParallelFree.tcRunWhileReadReg env maxChannels fuel

/-- The number of entries for which `tc_test_init` succeeds before its first failure. -/
def succeeded (env : ChanEnv) (maxChannels : ℕ) : ℕ :=
  ((List.range maxChannels).takeWhile fun i => env.tcTestInit i == 0).length

/-- `tc_test_free` is called exactly once on each of the first `k` entries, and on no other
entry. -/
def FreesEach (calls : List TcCall) (k : ℕ) : Prop :=
  ∀ i, calls.count (.tcTestFree i) = if i < k then 1 else 0

/-! ### The loops -/

variable {env : ChanEnv}

theorem initLoop_snd (n i : ℕ) :
    (initLoop env n i).2 =
      i + ((List.range' i n).takeWhile fun i => env.tcTestInit i == 0).length := by
  induction n generalizing i with
  | zero => rfl
  | succ n ih =>
    rw [initLoop, List.range'_succ]
    by_cases herr : env.tcTestInit i = 0
    · simp only [herr, ne_eq, not_true_eq_false, ↓reduceIte, ih, List.takeWhile_cons,
        beq_self_eq_true, List.length_cons]
      omega
    · simp [herr]

theorem initLoop_snd_eq_succeeded (maxChannels : ℕ) :
    (initLoop env maxChannels 0).2 = succeeded env maxChannels := by
  rw [initLoop_snd, Nat.zero_add, succeeded, List.range_eq_range']

theorem tcTestFree_notMem_initLoop (n i j : ℕ) : .tcTestFree j ∉ (initLoop env n i).1 := by
  induction n generalizing i with
  | zero => simp [initLoop]
  | succ n ih =>
    rw [initLoop]
    by_cases herr : env.tcTestInit i = 0
    · simp [herr, ih]
    · simp [herr]

/-- **What a loop of `tc_test_free` frees**: its entries, once each. -/
theorem freesEach_append_iff {calls : List TcCall} (hcalls : ∀ j, .tcTestFree j ∉ calls)
    {n k : ℕ} : FreesEach (calls ++ forLoop .tcTestFree 0 n) k ↔ n = k := by
  have hcount : ∀ i, (calls ++ forLoop .tcTestFree 0 n).count (.tcTestFree i) =
      if i < n then 1 else 0 := by
    intro i
    rw [List.count_append, List.count_eq_zero_of_not_mem (hcalls i), Nat.zero_add, forLoop,
      List.count_map_of_injective _ _ fun _ _ h => TcCall.tcTestFree.inj h, List.count_range_1']
    simp
  simp only [FreesEach, hcount]
  constructor
  · intro h
    have hn := h n
    have hk := h k
    split_ifs at hn hk <;> omega
  · rintro rfl i
    rfl

/-! ### The waits -/

/-- The completion of the entry, or a signal, is there at some time. -/
def ChanEnv.Signalled (env : ChanEnv) (i : ℕ) : Prop := ∃ j, env.signalled i j = true

theorem awaitOne_of_le {signalled : ℕ → Bool} {fuel fuel' : ℕ}
    (h : awaitOne signalled fuel = some ()) (hle : fuel ≤ fuel') :
    awaitOne signalled fuel' = some () :=
  iterate_of_le h hle

theorem exists_awaitOne_iff {signalled : ℕ → Bool} :
    (∃ fuel, awaitOne signalled fuel = some ()) ↔ ∃ j, signalled j = true := by
  constructor
  · rintro ⟨fuel, h⟩
    obtain ⟨j, hj⟩ := exists_inr_of_iterate h
    cases hs : signalled j with
    | true => exact ⟨j, hs⟩
    | false => simp [awaitPass, hs] at hj
  · rintro ⟨j, hj⟩
    -- Every look lowers the number of looks to go until the `j`-th one.
    have hpass : ∀ i, i ≤ j →
        (∃ i', awaitPass signalled i = .inl i' ∧ i' ≤ j ∧ j - i' < j - i) ∨
          ∃ r, awaitPass signalled i = .inr r ∧ True := by
      intro i hi
      cases hs : signalled i with
      | true => exact Or.inr ⟨(), by simp [awaitPass, hs], trivial⟩
      | false =>
        have hne : i ≠ j := by
          rintro rfl
          simp [hs] at hj
        exact Or.inl ⟨i + 1, by simp [awaitPass, hs], by omega, by omega⟩
    obtain ⟨_, hr, -⟩ := iterate_of_measure (fun i => i ≤ j) (fun i => j - i) (fun _ => True) hpass
      (Nat.zero_le j) (Nat.lt_succ_self _)
    exact ⟨_, hr⟩

theorem waitLoop_eq_some_iff {call : ℕ → TcCall} {fuel : ℕ} {is : List ℕ} {calls : List TcCall} :
    waitLoop env call fuel is = some calls ↔
      (∀ i ∈ is, awaitOne (env.signalled i) fuel = some ()) ∧ calls = is.map call := by
  induction is generalizing calls with
  | nil => simp [waitLoop, eq_comm]
  | cons i is ih =>
    simp only [waitLoop, Option.bind_eq_bind, Option.bind_eq_some_iff, ih, Option.pure_def,
      Option.some.injEq, List.forall_mem_cons, List.map_cons]
    constructor
    · rintro ⟨⟨⟩, hi, -, ⟨his, rfl⟩, rfl⟩
      exact ⟨⟨hi, his⟩, rfl⟩
    · rintro ⟨⟨hi, his⟩, rfl⟩
      exact ⟨(), hi, _, ⟨his, rfl⟩, rfl⟩

/-- **The waits come to their end** if and only if every entry is signalled. -/
theorem exists_awaitOne_forall_iff {is : List ℕ} :
    (∃ fuel, ∀ i ∈ is, awaitOne (env.signalled i) fuel = some ()) ↔ ∀ i ∈ is, env.Signalled i := by
  constructor
  · rintro ⟨fuel, h⟩ i hi
    exact exists_awaitOne_iff.mp ⟨fuel, h i hi⟩
  · intro h
    induction is with
    | nil => exact ⟨0, by simp⟩
    | cons i is ih =>
      obtain ⟨hi, his⟩ := List.forall_mem_cons.mp h
      obtain ⟨fuel, hfuel⟩ := exists_awaitOne_iff.mpr hi
      obtain ⟨fuel', hfuel'⟩ := ih his
      refine ⟨max fuel fuel', List.forall_mem_cons.mpr ⟨?_, fun j hj => ?_⟩⟩
      · exact awaitOne_of_le hfuel (Nat.le_max_left _ _)
      · exact awaitOne_of_le (hfuel' j hj) (Nat.le_max_right _ _)

/-! ### The functions -/

/-- Once the first `k` entries are initialised, the function comes to its end: the entries it waits
for are signalled, and its pausing loop ends. -/
def Routine.GetsThrough (env : ChanEnv) (k : ℕ) : Routine → Prop
  | .tcRunParallel chanStartIndex => ∀ i, chanStartIndex ≤ i → i < k → env.Signalled i
  | .tcPauseAndUnpauseParallel => PauseEnds env.residue ∧ ∀ i < k, env.Signalled i
  | .tcRunWhileReadReg => ∀ i < k, env.Signalled i

/-- What a function calls once entries are initialised: nothing in front of its last loop frees an
entry. -/
private theorem tcTestFree_notMem {n start k : ℕ} {is : List ℕ} {wait : ℕ → TcCall}
    (hwait : ∀ i j, wait i ≠ .tcTestFree j) (j : ℕ) :
    .tcTestFree j ∉ (initLoop env n 0).1 ++ forLoop .tcTestRun start k ++ is.map wait := by
  simp [tcTestFree_notMem_initLoop, forLoop, hwait]

private theorem forall_mem_range' {P : ℕ → Prop} {start k : ℕ} :
    (∀ i ∈ List.range' start (k - start), P i) ↔ ∀ i, start ≤ i → i < k → P i := by
  refine forall_congr' fun i => ?_
  rw [List.mem_range'_1, and_imp]
  exact imp_congr_right fun hi => by rw [show i < start + (k - start) ↔ i < k by omega]

section

variable {maxChannels fuel : ℕ} {calls : List TcCall}

/-- `tc_run_parallel` with `k` entries initialised. -/
theorem tcRunParallel_eq_some_iff {chanStartIndex k : ℕ} (hk : succeeded env maxChannels = k)
    (hpos : k ≠ 0) :
    tcRunParallel env maxChannels chanStartIndex fuel = some calls ↔
      (∀ i ∈ List.range' chanStartIndex (k - chanStartIndex),
        awaitOne (env.signalled i) fuel = some ()) ∧
      calls = (initLoop env maxChannels 0).1 ++ forLoop .tcTestRun chanStartIndex k ++
        (List.range' chanStartIndex (k - chanStartIndex)).map .tcTestWait ++
        forLoop .tcTestFree 0 k := by
  simp only [tcRunParallel, initLoop_snd_eq_succeeded, hk, hpos, ↓reduceIte, Option.bind_eq_bind,
    Option.bind_eq_some_iff, waitLoop_eq_some_iff, Option.pure_def, Option.some.injEq]
  constructor
  · rintro ⟨waits, ⟨hwaits, rfl⟩, rfl⟩
    exact ⟨hwaits, rfl⟩
  · rintro ⟨hwaits, rfl⟩
    exact ⟨_, ⟨hwaits, rfl⟩, rfl⟩

/-- `tc_run_while_read_reg` with `k` entries initialised. -/
theorem tcRunWhileReadReg_eq_some_iff {k : ℕ} (hk : succeeded env maxChannels = k)
    (hpos : k ≠ 0) :
    tcRunWhileReadReg env maxChannels fuel = some calls ↔
      (∀ i ∈ List.range' 0 k, awaitOne (env.signalled i) fuel = some ()) ∧
      calls = (initLoop env maxChannels 0).1 ++ forLoop .tcTestRun 0 k ++
        (List.range' 0 k).map .tcTestIsDone ++ forLoop .tcTestFree 0 k := by
  simp only [tcRunWhileReadReg, initLoop_snd_eq_succeeded, hk, hpos, ↓reduceIte,
    Option.bind_eq_bind, Option.bind_eq_some_iff, waitLoop_eq_some_iff, Option.pure_def,
    Option.some.injEq]
  constructor
  · rintro ⟨waits, ⟨hwaits, rfl⟩, rfl⟩
    exact ⟨hwaits, rfl⟩
  · rintro ⟨hwaits, rfl⟩
    exact ⟨_, ⟨hwaits, rfl⟩, rfl⟩

/-- `tc_pause_and_unpause_parallel` with `k` entries initialised: it never takes the jump behind
the pausing loop. -/
theorem tcPauseAndUnpauseParallel_eq_some_iff {k : ℕ} (hk : succeeded env maxChannels = k)
    (hpos : k ≠ 0) :
    tcPauseAndUnpauseParallel env maxChannels fuel = some calls ↔
      (pauseTransfer env.residue fuel = some .wait ∧
        ∀ i ∈ List.range' 0 k, awaitOne (env.signalled i) fuel = some ()) ∧
      calls = (initLoop env maxChannels 0).1 ++ forLoop .tcTestRun 0 k ++
        (List.range' 0 k).map .tcTestWait ++ forLoop .tcTestFree 0 k := by
  simp only [tcPauseAndUnpauseParallel, initLoop_snd_eq_succeeded, hk, hpos, ↓reduceIte,
    Option.bind_eq_bind, Option.bind_eq_some_iff, Option.pure_def]
  constructor
  · rintro ⟨exit, hexit, h⟩
    obtain rfl := pauseTransfer_eq_wait hexit
    obtain ⟨waits, hwaits, h⟩ := Option.bind_eq_some_iff.mp h
    obtain ⟨hall, rfl⟩ := waitLoop_eq_some_iff.mp hwaits
    exact ⟨⟨hexit, hall⟩, (Option.some.inj h).symm⟩
  · rintro ⟨⟨hexit, hwaits⟩, rfl⟩
    refine ⟨.wait, hexit, Option.bind_eq_some_iff.mpr ⟨_, ?_, rfl⟩⟩
    exact waitLoop_eq_some_iff.mpr ⟨hwaits, rfl⟩

end

/-- A function whose calls do not depend on how long it waits. -/
private theorem exists_calls_iff {run : ℕ → Option (List TcCall)} {P : ℕ → Prop}
    {calls : List TcCall} {k : ℕ} (hrun : ∀ fuel cs, run fuel = some cs ↔ P fuel ∧ cs = calls)
    (hfree : FreesEach calls k) :
    (∃ fuel cs, run fuel = some cs ∧ FreesEach cs k) ↔ ∃ fuel, P fuel := by
  simp only [hrun]
  constructor
  · rintro ⟨fuel, -, ⟨hP, rfl⟩, -⟩
    exact ⟨fuel, hP⟩
  · rintro ⟨fuel, hP⟩
    exact ⟨fuel, calls, ⟨hP, rfl⟩, hfree⟩

/-- One number of passes is enough for the pausing loop and for all waits. -/
private theorem exists_pause_and_await_iff {k : ℕ} :
    (∃ fuel, pauseTransfer env.residue fuel = some .wait ∧
      ∀ i ∈ List.range' 0 k, awaitOne (env.signalled i) fuel = some ()) ↔
      PauseEnds env.residue ∧ ∀ i < k, env.Signalled i := by
  have hsignalled : (∃ fuel, ∀ i ∈ List.range' 0 k, awaitOne (env.signalled i) fuel = some ()) ↔
      ∀ i ∈ List.range' 0 k, env.Signalled i := exists_awaitOne_forall_iff
  simp only [List.mem_range'_1, Nat.zero_le, Nat.zero_add, true_and] at hsignalled ⊢
  rw [← exists_pauseTransfer_iff, ← hsignalled]
  constructor
  · rintro ⟨fuel, hexit, hall⟩
    exact ⟨⟨fuel, .wait, hexit⟩, fuel, hall⟩
  · rintro ⟨⟨fuel, exit, hexit⟩, fuel', hall⟩
    obtain rfl := pauseTransfer_eq_wait hexit
    exact ⟨max fuel fuel', pauseTransfer_of_le hexit (Nat.le_max_left _ _),
      fun i hi => awaitOne_of_le (hall i hi) (Nat.le_max_right _ _)⟩

/-- The functions on an array whose first `k` entries are initialised. -/
private theorem freesEach_iff_getsThrough {maxChannels k : ℕ} (routine : Routine)
    (hk : succeeded env maxChannels = k) (hpos : k ≠ 0) :
    (∃ fuel calls, routine.run env maxChannels fuel = some calls ∧ FreesEach calls k) ↔
      routine.GetsThrough env k := by
  have hfree {start : ℕ} {is : List ℕ} {wait : ℕ → TcCall}
      (hwait : ∀ i j, wait i ≠ .tcTestFree j) :
      FreesEach ((initLoop env maxChannels 0).1 ++ forLoop .tcTestRun start k ++ is.map wait ++
        forLoop .tcTestFree 0 k) k :=
    (freesEach_append_iff (tcTestFree_notMem hwait)).mpr rfl
  cases routine with
  | tcRunParallel chanStartIndex =>
    refine (exists_calls_iff (fun _ _ => tcRunParallel_eq_some_iff hk hpos)
      (hfree fun _ _ => TcCall.noConfusion)).trans ?_
    rw [exists_awaitOne_forall_iff, forall_mem_range']
    rfl
  | tcPauseAndUnpauseParallel =>
    refine (exists_calls_iff (fun _ _ => tcPauseAndUnpauseParallel_eq_some_iff hk hpos)
      (hfree fun _ _ => TcCall.noConfusion)).trans ?_
    exact exists_pause_and_await_iff
  | tcRunWhileReadReg =>
    refine (exists_calls_iff (fun _ _ => tcRunWhileReadReg_eq_some_iff hk hpos)
      (hfree fun _ _ => TcCall.noConfusion)).trans ?_
    rw [exists_awaitOne_forall_iff]
    simp [Routine.GetsThrough]

/-- **Each entry that has been initialised is freed exactly once, and no other one**, if and only
if the function comes to its end and, in case no entry has been initialised, is not
`tc_pause_and_unpause_parallel`. -/
theorem freesEach_iff (routine : Routine) (env : ChanEnv) (maxChannels : ℕ)
    (hmax : 1 ≤ maxChannels) :
    (∃ fuel calls, routine.run env maxChannels fuel = some calls ∧
      FreesEach calls (succeeded env maxChannels)) ↔
      if succeeded env maxChannels = 0 then routine ≠ .tcPauseAndUnpauseParallel
      else routine.GetsThrough env (succeeded env maxChannels) := by
  split_ifs with hzero
  · have hnone : FreesEach (initLoop env maxChannels 0).1 0 := fun i =>
      (List.count_eq_zero_of_not_mem (tcTestFree_notMem_initLoop maxChannels 0 i)).trans rfl
    cases routine with
    | tcRunParallel chanStartIndex =>
      refine iff_of_true ⟨0, _, ?_, by rwa [hzero]⟩ Routine.noConfusion
      simp only [Routine.run, tcRunParallel, initLoop_snd_eq_succeeded, hzero, ↓reduceIte]
    | tcPauseAndUnpauseParallel =>
      refine iff_of_false ?_ (not_not.mpr rfl)
      rintro ⟨fuel, calls, hrun, hfree⟩
      simp only [Routine.run, tcPauseAndUnpauseParallel, initLoop_snd_eq_succeeded, hzero,
        ↓reduceIte, Option.some.injEq] at hrun hfree
      rw [← hrun, freesEach_append_iff (tcTestFree_notMem_initLoop maxChannels 0)] at hfree
      omega
    | tcRunWhileReadReg =>
      refine iff_of_true ⟨0, _, ?_, by rwa [hzero]⟩ Routine.noConfusion
      simp only [Routine.run, tcRunWhileReadReg, initLoop_snd_eq_succeeded, hzero, ↓reduceIte]
  · exact freesEach_iff_getsThrough routine rfl hzero

/-- The first two channels are granted, and the transfers are over at once. -/
def twoChannels : ChanEnv where
  tcTestInit i := if i < 2 then 0 else -einval
  signalled _ _ := true
  residue _ := 0

/-- With two of three channels the two entries are freed. -/
theorem freesEach_twoChannels :
    ∃ fuel calls, Routine.run .tcPauseAndUnpauseParallel twoChannels 3 fuel = some calls ∧
      FreesEach calls (succeeded twoChannels 3) :=
  (freesEach_iff .tcPauseAndUnpauseParallel twoChannels 3 (by decide)).mpr
    ⟨fun _ hi => absurd (residue_pos_of_pauseUntilBusy hi) (lt_irrefl 0), fun _ _ => ⟨0, rfl⟩⟩

/-- No channel is granted. -/
def noChannel : ChanEnv where
  tcTestInit _ := -einval
  signalled _ _ := true
  residue _ := 0

/-- Without any channel `tc_pause_and_unpause_parallel` frees the entry that failed. -/
theorem not_freesEach_noChannel :
    succeeded noChannel 1 = 0 ∧
    Routine.run .tcPauseAndUnpauseParallel noChannel 1 0 =
      some [.tcTestInit 0 (-einval), .tcTestFree 0] ∧
    ¬ ∃ fuel calls, Routine.run .tcPauseAndUnpauseParallel noChannel 1 fuel = some calls ∧
      FreesEach calls (succeeded noChannel 1) := by
  refine ⟨rfl, rfl, ?_⟩
  rintro ⟨fuel, calls, hrun, hfree⟩
  obtain rfl : [.tcTestInit 0 (-einval), .tcTestFree 0] = calls := Option.some.inj hrun
  exact absurd (hfree 0) (by decide)

end SnowballLtp.Dma.ParallelFree
