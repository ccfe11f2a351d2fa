import Mathlib.Data.List.Count
import Mathlib.Tactic.IntervalCases
import SnowballLtp.Machine.Decimal
import SnowballLtp.Machine.Ledger
import SnowballLtp.Sensors.Properties

/-!
# Closing the streams

The routines that read attributes open one file after the other with the same variable. Some close
the last stream in front of the label where it is closed again, and `get_val` of the pressure
sensor passes its streams to the system call `close`. A stream is a key of a ledger that `fopen`
acquires and `fclose` releases; a routine is followed with the streams that are open.

## Main definitions

* `AccPaths`, `checkAccDevid`.
* `ClosedOnce`: every stream is closed once and not used afterwards.
* `Reader`: the routines.

## Main results

* `readProperties_holds`: which streams a counting routine leaves open, or closes twice.
* `closedOnce_iff`.
-/

namespace SnowballLtp.Sensors

/-! ### The device -/

/-- The paths of the accelerometer. -/
structure AccPaths where
  accFilepath : String
  accFilepathActivate : String
  accFilepathRange : String
  accFilepathRate : String
  accFilepathSleepwake : String
  accFilepathId : String
  deriving DecidableEq, Repr

/-- The paths that are taken when the file at `acc_filepath` does not open. -/
def AccPaths.alternative : AccPaths where
  accFilepath := "/sys/devices/platform/nmk-i2c.2/i2c-2/2-0019/data"
  accFilepathActivate := "/sys/devices/platform/nmk-i2c.2/i2c-2/2-0019/mode"
  accFilepathRange := "/sys/devices/platform/nmk-i2c.2/i2c-2/2-0019/range"
  accFilepathRate := "/sys/devices/platform/nmk-i2c.2/i2c-2/2-0019/rate"
  accFilepathSleepwake := "/sys/devices/platform/nmk-i2c.2/i2c-2/2-0019/sleep_wake"
  accFilepathId := "/sys/devices/platform/nmk-i2c.2/i2c-2/2-0019/id"

/-- What `check_acc_devid` returns, and the globals behind it. -/
structure Devid where
  ret : ℤ
  paths : AccPaths
  id : ℤ
  deriving DecidableEq, Repr

section

variable (world : World)

/-- The second part of `check_acc_devid`. -/
def readId (paths : AccPaths) (id : ℤ) : Run Devid := do
  match ← fopen world paths.accFilepathId .r with
  | none => pure ⟨-1, paths, id⟩
  | some f => do
    let assigned ← fscanf f formatD
    fclose f
    pure (if assigned ≠ 1 then ⟨-1, paths, id⟩ else ⟨0, paths, atoi f.text⟩)

/-- `check_acc_devid`. -/
def checkAccDevid (paths : AccPaths) (id : ℤ) : Run Devid := do
  match ← fopen world paths.accFilepath .r with
  | none =>
    match ← fopen world AccPaths.alternative.accFilepath .r with
    | none => pure ⟨-1, paths, id⟩
    | some f => do
      fclose f
      readId world .alternative id
  | some f => do
    fclose f
    readId world paths id

/-- The routines that read, with the globals and the uninitialised variable that they read. -/
inductive Reader where
  | gyrGetProperties
  | accGetProperties (acc : AccGlobals)
  | magGetProperties
  | checkAccDevid (paths : AccPaths) (id : ℤ)
  | getVal (ret : ℤ)
  deriving DecidableEq, Repr

def Reader.run : Reader → Run ℤ
  | gyrGetProperties => Sensors.gyrGetProperties world
  | accGetProperties acc => Sensors.accGetProperties world acc
  | magGetProperties => Sensors.magGetProperties world
  | checkAccDevid paths id => do return (← Sensors.checkAccDevid world paths id).ret
  | getVal ret => Sensors.getVal world ret

/-- The calls that a routine makes until it returns. -/
def Reader.log (reader : Reader) : List Event :=
  match (reader.run world).run Session.initial with
  | .ok _ s => s.log
  | .error _ s => s.log

end

/-- The stream that a call is given. -/
def Event.stream : Event → Option ℕ
  | .fopen .. => none
  | .fputc n .. => some n
  | .fputs n .. => some n
  | .fscanf n .. => some n
  | .fflush n => some n
  | .fclose n => some n
  | .close n => some n

/-- Every stream that `fopen` returned is passed to `fclose` once, and to nothing afterwards. -/
structure ClosedOnce (log : List Event) : Prop where
  once : ∀ path mode n, .fopen path mode (some n) ∈ log → log.count (.fclose n) = 1
  unused : ∀ before n after, log = before ++ .fclose n :: after → ∀ e ∈ after, e.stream ≠ some n

/-- The file of the next call of `fopen` opens, and all conversions are assigned; so do the files
that follow. -/
def AllRead (world : World) : (fopens : ℕ) → List Reading → Prop
  | _, [] => True
  | fopens, file :: rest =>
    (∃ text, world.fopen fopens = some text ∧ scan file.format 0 text = file.format.conversions) ∧
      AllRead world (fopens + 1) rest

/-- The gyroscope's routine does not get to its end, and the first file of `get_val` does not
open. -/
def Reader.Stops (world : World) : Reader → Prop
  | gyrGetProperties => ¬ ∀ n < 4, ∃ text, world.fopen n = some text ∧ scan formatD 0 text = 1
  | getVal _ => world.fopen 0 = none
  | _ => True

/-! ### The open streams -/

/-- What a call does to the streams. -/
def Event.op : Event → Option (LedgerOp ℕ)
  | .fopen _ _ stream => stream.map .acquire
  | .fclose n => some (.release n)
  | e => e.stream.map .use

/-- The calls made so far are in order, and the streams in `own` are open. -/
structure Holds (own : Finset ℕ) (s : Session) : Prop where
  ledger : Ledger.run ∅ (s.log.filterMap Event.op) = some own
  lt_fopens : ∀ n, .acquire n ∈ s.log.filterMap Event.op → n < s.fopens
  acquired_once : ∀ n, (s.log.filterMap Event.op).count (.acquire n) ≤ 1

variable {world : World} {own own' : Finset ℕ} {s s' : Session} {f : Stream} {path : String}
  {mode : FileMode} {ret skipped : ℤ}

theorem holds_initial : Holds ∅ Session.initial := ⟨rfl, by simp [Session.initial], by
  simp [Session.initial]⟩

theorem Holds.lt_of_mem (h : Holds own s) {n : ℕ} (hn : n ∈ own) : n < s.fopens := by
  have hcount := Ledger.count_acquire_of_run n h.ledger
  rw [if_pos hn, if_neg (Finset.notMem_empty n)] at hcount
  exact h.lt_fopens n (List.count_pos_iff.mp (by omega))

/-- A call on an open stream. -/
theorem Holds.call {e : Event} {op : LedgerOp ℕ} (h : Holds own s) (hop : e.op = some op)
    (hacquire : ∀ n, op ≠ .acquire n) (hstep : Ledger.step own op = some own')
    (hfopens : s'.fopens = s.fopens) (hlog : s'.log = s.log ++ [e]) : Holds own' s' := by
  have hops : s'.log.filterMap Event.op = s.log.filterMap Event.op ++ [op] := by
    rw [hlog, List.filterMap_append, List.filterMap_cons_some hop, List.filterMap_nil]
  refine ⟨?_, fun n hn => ?_, fun n => ?_⟩
  · rw [hops, Ledger.run_append_of_eq h.ledger, Ledger.run_cons, hstep]
    rfl
  · rw [hops, List.mem_append, List.mem_singleton] at hn
    rw [hfopens]
    exact h.lt_fopens n (hn.resolve_right (hacquire n).symm)
  · rw [hops, List.count_append, List.count_singleton, if_neg (by simpa using hacquire n)]
    exact h.acquired_once n

/-- A file that does not open. -/
theorem Holds.fopen_none (h : Holds own s) (hfopens : s'.fopens = s.fopens + 1)
    (hlog : s'.log = s.log ++ [.fopen path mode none]) : Holds own s' := by
  have hops : s'.log.filterMap Event.op = s.log.filterMap Event.op := by
    simp [hlog, Event.op]
  refine ⟨by rw [hops, h.ledger], fun n hn => ?_, fun n => ?_⟩
  · rw [hops] at hn
    rw [hfopens]
    exact (h.lt_fopens n hn).trans (Nat.lt_succ_self _)
  · rw [hops]
    exact h.acquired_once n

/-- A file that opens: its stream is none of the streams so far. -/
theorem Holds.fopen_some (h : Holds own s) (hfopens : s'.fopens = s.fopens + 1)
    (hlog : s'.log = s.log ++ [.fopen path mode (some s.fopens)]) :
    Holds (insert s.fopens own) s' := by
  have hops : s'.log.filterMap Event.op = s.log.filterMap Event.op ++ [.acquire s.fopens] := by
    simp [hlog, Event.op]
  have hnew : s.fopens ∉ own := fun hmem => (h.lt_of_mem hmem).false
  refine ⟨?_, fun n hn => ?_, fun n => ?_⟩
  · rw [hops, Ledger.run_append_of_eq h.ledger, Ledger.run_cons,
      Ledger.step_acquire_of_notMem hnew]
    rfl
  · rw [hops, List.mem_append, List.mem_singleton, LedgerOp.acquire.injEq] at hn
    rw [hfopens]
    rcases hn with hn | rfl
    · exact (h.lt_fopens n hn).trans (Nat.lt_succ_self _)
    · exact Nat.lt_succ_self _
  · rw [hops, List.count_append, List.count_singleton]
    by_cases hn : n = s.fopens
    · have hcount : (s.log.filterMap Event.op).count (.acquire n) = 0 :=
        List.count_eq_zero.mpr fun hmem => (h.lt_fopens n hmem).ne hn
      rw [hcount, Nat.zero_add]
      split_ifs <;> decide
    · rw [if_neg (by simpa using Ne.symm hn)]
      exact h.acquired_once n

theorem op_of_stream {e : Event} {n : ℕ} (h : e.stream = some n) :
    e.op = some (.release n) ∨ e.op = some (.use n) := by
  cases e <;> simp_all [Event.op, Event.stream]

theorem op_eq_release_iff {e : Event} {n : ℕ} : e.op = some (.release n) ↔ e = .fclose n := by
  cases e <;> simp [Event.op, Event.stream]

/-- **No stream is open:** all of them have been closed once. -/
theorem Holds.closedOnce (h : Holds ∅ s) : ClosedOnce s.log where
  once path mode n hn := by
    have hacquire : .acquire n ∈ s.log.filterMap Event.op :=
      List.mem_filterMap.mpr ⟨_, hn, rfl⟩
    have hpos := List.count_pos_iff.mpr hacquire
    have hcount := Ledger.count_acquire_of_run n h.ledger
    have hrelease : (s.log.filterMap Event.op).count (.release n) = s.log.count (.fclose n) := by
      rw [List.count_filterMap, List.count]
      congr 1
      funext e
      simpa [beq_iff_eq] using op_eq_release_iff
    have honce := h.acquired_once n
    simp only [Finset.notMem_empty, ↓reduceIte, Nat.add_zero] at hcount
    omega
  unused before n after hlog := by
    have hops : s.log.filterMap Event.op =
        before.filterMap Event.op ++ .release n :: after.filterMap Event.op := by
      simp [hlog, Event.op]
    have hledger := h.ledger
    have honce := h.acquired_once n
    rw [hops, Ledger.run_append] at hledger
    rw [hops, List.count_append, List.count_cons_of_ne (by simp)] at honce
    obtain ⟨held, hbefore, hrun⟩ := Option.bind_eq_some_iff.mp hledger
    obtain ⟨rest, hstep, hafter⟩ := Option.bind_eq_some_iff.mp hrun
    obtain ⟨hn, hstep⟩ := Option.ite_none_right_eq_some.mp hstep
    obtain rfl := Option.some.inj hstep
    have hacquired := Ledger.count_acquire_of_run n hbefore
    rw [if_pos hn, if_neg (Finset.notMem_empty n)] at hacquired
    -- the stream was opened before it was closed, so it is not opened again
    have hnew : .acquire n ∉ after.filterMap Event.op := fun hmem => by
      have hpos := List.count_pos_iff.mpr hmem
      omega
    obtain ⟨hrelease, huse⟩ := Ledger.notMem_of_run (Finset.notMem_erase n held) hnew hafter
    intro e he hstream
    rcases op_of_stream hstream with hop | hop
    · exact hrelease (List.mem_filterMap.mpr ⟨e, he, hop⟩)
    · exact huse (List.mem_filterMap.mpr ⟨e, he, hop⟩)

/-! ### Calls on one stream -/

theorem fopen_log (world : World) (path : String) (mode : FileMode) (s : Session) :
    ∃ s', (fopen world path mode).run s =
        .ok ((world.fopen s.fopens).map (Stream.mk s.fopens)) s' ∧
      s'.fopens = s.fopens + 1 ∧
      s'.log = s.log ++ [.fopen path mode ((world.fopen s.fopens).map fun _ => s.fopens)] := by
  refine ⟨_, by rw [fopen, run_bind_of_ok (EStateM.run_get s),
    run_bind_of_ok (EStateM.run_set _ s), EStateM.run_pure], rfl, ?_⟩
  simp [Option.map_map, Function.comp_def]

/-- `fopen`, when no stream is open. -/
theorem fopen_holds (world : World) (path : String) (mode : FileMode) (h : Holds ∅ s) :
    ∃ s', (fopen world path mode).run s =
        .ok ((world.fopen s.fopens).map (Stream.mk s.fopens)) s' ∧
      s'.fopens = s.fopens + 1 ∧
      (world.fopen s.fopens = none → Holds ∅ s') ∧
      ∀ text, world.fopen s.fopens = some text → Holds {s.fopens} s' := by
  obtain ⟨s', hrun, hfopens, hlog⟩ := fopen_log world path mode s
  refine ⟨s', hrun, hfopens, fun hnone => ?_, fun text hsome => ?_⟩
  · rw [hnone] at hlog
    exact h.fopen_none hfopens hlog
  · rw [hsome] at hlog
    exact h.fopen_some hfopens hlog

theorem fopenOrReturn_holds (world : World) (path : String) (mode : FileMode) (h : Holds ∅ s) :
    Outcome (fopenOrReturn world path mode) s
      (fun f s' => world.fopen s.fopens = some f.text ∧ f.number = s.fopens ∧
        s'.fopens = s.fopens + 1 ∧ Holds {f.number} s')
      (fun _ s' => world.fopen s.fopens = none ∧ Holds ∅ s') := by
  obtain ⟨s', hrun, hfopens, hnone, hsome⟩ := fopen_holds world path mode h
  refine Outcome.bind_of_ok hrun ?_
  cases hanswer : world.fopen s.fopens with
  | none => exact Outcome.of_error rfl ⟨rfl, hnone hanswer⟩
  | some text => exact Outcome.of_ok rfl ⟨rfl, rfl, hfopens, hsome text hanswer⟩

theorem note_log (event : Event) (s : Session) :
    ∃ s', (note event).run s = .ok () s' ∧ s'.fopens = s.fopens ∧ s'.log = s.log ++ [event] :=
  ⟨_, EStateM.run_modify _ s, rfl, rfl⟩

theorem fscanf_holds (f : Stream) (format : Format) (h : Holds {f.number} s) :
    ∃ s', (fscanf f format).run s = .ok (scan format 0 f.text) s' ∧ s'.fopens = s.fopens ∧
      Holds {f.number} s' := by
  obtain ⟨s', hrun, hfopens, hlog⟩ :=
    note_log (.fscanf f.number format (scan format 0 f.text)) s
  refine ⟨s', by rw [fscanf, run_bind_of_ok hrun, EStateM.run_pure], hfopens,
    h.call rfl (by simp) ?_ hfopens hlog⟩
  exact Ledger.step_use_of_mem (Finset.mem_singleton_self _)

theorem fclose_holds (f : Stream) (h : Holds {f.number} s) :
    ∃ s', (fclose f).run s = .ok () s' ∧ s'.fopens = s.fopens ∧
      s'.log = s.log ++ [.fclose f.number] ∧ Holds ∅ s' := by
  obtain ⟨s', hrun, hfopens, hlog⟩ := note_log (.fclose f.number) s
  refine ⟨s', hrun, hfopens, hlog, h.call rfl (by simp) ?_ hfopens hlog⟩
  rw [Ledger.step_release_of_mem (Finset.mem_singleton_self _), Finset.erase_singleton]

/-! ### The routines that count -/

/-- The next file opens, and all its conversions are assigned. -/
def ReadsAt (world : World) (fopens : ℕ) (file : Reading) : Prop :=
  ∃ text, world.fopen fopens = some text ∧ scan file.format 0 text = file.format.conversions

/-- How a file is left whose conversions are assigned: its stream has just been closed, or is
open. -/
def Left (file : Reading) (n : ℕ) (s : Session) : Prop :=
  if file.closed = true then Holds ∅ s ∧ ∃ before, s.log = before ++ [.fclose n] else Holds {n} s

theorem readOne_holds {post : Session → Prop} {next : Stream → ℤ → Run ℤ} (file : Reading)
    (h : Holds ∅ s) (hunread : ¬ ReadsAt world s.fopens file → ∀ s', Holds ∅ s' → post s')
    (hnext : ReadsAt world s.fopens file → ∀ f s', f.number = s.fopens →
      s'.fopens = s.fopens + 1 → Left file s.fopens s' →
      Outcome (next f (ret - 1)) s' (fun _ => post) fun _ => post) :
    Outcome (readOne world ret file next) s (fun _ => post) fun _ => post := by
  refine Outcome.bind ((fopenOrReturn_holds world file.path .r h).mono (fun _ _ => id)
    fun _ s' h' => ?_) fun f s₁ ⟨hanswer, hnumber, hfopens₁, h₁⟩ => ?_
  · exact hunread (fun ⟨text, hsome, _⟩ => by simp [h'.1] at hsome) s' h'.2
  obtain ⟨s₂, hrun₂, hfopens₂, h₂⟩ := fscanf_holds f file.format h₁
  obtain ⟨s₃, hrun₃, hfopens₃, hlog₃, h₃⟩ := fclose_holds f h₂
  refine Outcome.bind_of_ok hrun₂ ?_
  by_cases hall : scan file.format 0 f.text = file.format.conversions
  · rw [if_neg (not_not_intro hall)]
    have hreads : ReadsAt world s.fopens file := ⟨f.text, hanswer, hall⟩
    have hfopens : s₂.fopens = s.fopens + 1 := hfopens₂.trans hfopens₁
    have hleft : Outcome (onlyIf (file.closed = true) (fclose f)) s₂
        (fun _ s' => s'.fopens = s.fopens + 1 ∧ Left file s.fopens s') fun _ => post := by
      refine Outcome.onlyIf (fun hclosed => Outcome.of_ok hrun₃ ⟨hfopens₃.trans hfopens, ?_⟩)
        fun hclosed => ⟨hfopens, ?_⟩
      · rw [Left, if_pos hclosed]
        exact ⟨h₃, s₂.log, by rw [hlog₃, hnumber]⟩
      · rw [Left, if_neg hclosed, ← hnumber]
        exact h₂
    exact hleft.bind fun _ s₄ h₄ => hnext hreads f s₄ hnumber h₄.1 h₄.2
  · rw [if_pos hall]
    have hunread' : ¬ ReadsAt world s.fopens file := fun ⟨text, hsome, hscan⟩ => by
      obtain rfl := Option.some.inj (hanswer.symm.trans hsome)
      exact hall hscan
    exact Outcome.bind_of_ok hrun₃
      (Outcome.of_ok (EStateM.run_pure ret s₃) (hunread hunread' s₃ h₃))

/-- The last stream has just been closed twice. -/
def ClosedTwice (s : Session) : Prop := ∃ before n, s.log = before ++ [.fclose n, .fclose n]

/-- What a counting routine leaves when the next call of `fopen` is for the first of its files. -/
structure Leaves (world : World) (fopens : ℕ) (file : Reading) (rest : List Reading)
    (s : Session) : Prop where
  closedTwice : AllRead world fopens (file :: rest) →
    ((file :: rest).getLast (List.cons_ne_nil _ _)).closed = true → ClosedTwice s
  holds : ¬ (AllRead world fopens (file :: rest) ∧
    ((file :: rest).getLast (List.cons_ne_nil _ _)).closed = true) → Holds ∅ s

/-- **Counting.** When all files are read and the last one is closed in front of the label, its
stream is closed twice; otherwise no stream is left open. -/
theorem readProperties_holds (skipped ret : ℤ) (file : Reading) (rest : List Reading) (s : Session)
    (h : Holds ∅ s) (hclosed : ∀ other ∈ (file :: rest).dropLast, other.closed = true) :
    Outcome (readProperties world skipped ret file rest) s
      (fun _ => Leaves world s.fopens file rest) fun _ => Leaves world s.fopens file rest := by
  induction rest generalizing ret file s with
  | nil =>
    refine readOne_holds file h
      (fun hunread s' h' => ⟨fun hall => absurd hall.1 hunread, fun _ => h'⟩)
      fun hread f s₁ hnumber hfopens₁ hleft => ?_
    obtain ⟨s₂, hrun₂, hfopens₂, hlog₂⟩ := note_log (.fclose f.number) s₁
    refine Outcome.bind_of_ok hrun₂ (Outcome.of_ok (EStateM.run_pure _ s₂) ⟨fun _ hlast => ?_,
      fun hnot => ?_⟩)
    · rw [List.getLast_singleton] at hlast
      rw [Left, if_pos hlast] at hleft
      obtain ⟨before, hbefore⟩ := hleft.2
      exact ⟨before, f.number, by rw [hlog₂, hbefore, hnumber, List.append_assoc]; rfl⟩
    · have hlast : file.closed ≠ true := fun hlast => hnot ⟨⟨hread, trivial⟩, hlast⟩
      rw [Left, if_neg hlast, ← hnumber] at hleft
      refine hleft.call rfl (by simp) ?_ hfopens₂ hlog₂
      rw [Ledger.step_release_of_mem (Finset.mem_singleton_self _), Finset.erase_singleton]
  | cons other rest ih =>
    refine readOne_holds file h
      (fun hunread s' h' => ⟨fun hall => absurd hall.1 hunread, fun _ => h'⟩)
      fun hread f s₁ _ hfopens₁ hleft => ?_
    rw [Left, if_pos (hclosed file List.mem_cons_self)] at hleft
    have hrest := ih (ret - 1) other s₁ hleft.1 fun x hx => hclosed x (List.mem_cons_of_mem _ hx)
    rw [hfopens₁] at hrest
    have hleaves : ∀ s', Leaves world (s.fopens + 1) other rest s' →
        Leaves world s.fopens file (other :: rest) s' := fun s' hs' =>
      ⟨fun hall hlast => hs'.closedTwice hall.2 hlast,
        fun hnot => hs'.holds fun hrest => hnot ⟨⟨hread, hrest.1⟩, hrest.2⟩⟩
    exact hrest.mono (fun _ => hleaves) fun _ => hleaves

/-! ### Streams that are not closed -/

/-- The call `e` has been made, and no stream has been closed. -/
structure Unclosed (e : Event) (s : Session) : Prop where
  made : e ∈ s.log
  unclosed : ∀ n, .fclose n ∉ s.log

variable {e : Event}

theorem Unclosed.call {e' : Event} (h : Unclosed e s) (he' : ∀ n, e' ≠ .fclose n)
    (hlog : s'.log = s.log ++ [e']) : Unclosed e s' := by
  refine ⟨by rw [hlog]; exact List.mem_append_left _ h.made, fun n hn => ?_⟩
  rw [hlog, List.mem_append, List.mem_singleton] at hn
  exact hn.elim (h.unclosed n) fun heq => he' n heq.symm

theorem put_log (world : World) (event : Bool → Event) (s : Session) :
    ∃ s', (put world event).run s = .ok (world.put s.puts) s' ∧
      s'.log = s.log ++ [event (world.put s.puts)] :=
  ⟨_, by rw [put, run_bind_of_ok (EStateM.run_get s), run_bind_of_ok (EStateM.run_set _ s),
    EStateM.run_pure], rfl⟩

variable (world) in
theorem perform_unclosed (f : Stream) (access : Access) (h : Unclosed e s) :
    ∃ r s', (access.perform world f).run s = .ok r s' ∧ Unclosed e s' := by
  cases access with
  | fputc c =>
    obtain ⟨s', hrun, hlog⟩ := put_log world (.fputc f.number c) s
    exact ⟨_, s', run_bind_of_ok hrun, h.call (by simp) hlog⟩
  | fputs t =>
    obtain ⟨s', hrun, hlog⟩ := put_log world (.fputs f.number t) s
    exact ⟨_, s', run_bind_of_ok hrun, h.call (by simp) hlog⟩
  | fscanf format =>
    obtain ⟨s', hrun, -, hlog⟩ := note_log (.fscanf f.number format (scan format 0 f.text)) s
    exact ⟨_, s', run_bind_of_ok (run_bind_of_ok hrun), h.call (by simp) hlog⟩
  | fflush =>
    obtain ⟨s', hrun, -, hlog⟩ := note_log (.fflush f.number) s
    exact ⟨_, s', run_bind_of_ok hrun, h.call (by simp) hlog⟩

variable (world) in
theorem accessStream_unclosed (policy : Policy) (f : Stream) (val : ℤ) (accesses : List Access)
    (h : Unclosed e s) :
    ∃ r s', (accessStream world policy f val accesses).run s = .ok r s' ∧ Unclosed e s' := by
  induction accesses generalizing val s with
  | nil => exact ⟨val, s, EStateM.run_pure _ _, h⟩
  | cons access rest ih =>
    obtain ⟨result, s₁, hrun₁, h₁⟩ := perform_unclosed world f access h
    obtain ⟨r, s₂, hrun₂, h₂⟩ := ih (result.elim val (policy.update val)) h₁
    exact ⟨r, s₂, by rw [accessStream, run_bind_of_ok hrun₁, hrun₂], h₂⟩

/-- A stream that is passed to `close`, when it has been opened. -/
theorem accessOne_unclosed {next : ℤ → Run ℤ} (policy : Policy) (f : Stream) (val : ℤ)
    (file : FileUse) (hfile : file.finish = .close) (h : Unclosed e s)
    (hnext : ∀ r s', Unclosed e s' →
      Outcome (next r) s' (fun _ => Unclosed e) fun _ => Unclosed e) :
    Outcome (do
        let val ← accessStream world policy f val file.accesses
        file.finish.perform f
        next val) s (fun _ => Unclosed e) fun _ => Unclosed e := by
  obtain ⟨r, s₁, hrun₁, h₁⟩ := accessStream_unclosed world policy f val file.accesses h
  obtain ⟨s₂, hrun₂, -, hlog₂⟩ := note_log (.close f.number) s₁
  have hfinish : (file.finish.perform f).run s₁ = .ok () s₂ := by
    rw [hfile]
    exact hrun₂
  exact Outcome.bind_of_ok hrun₁
    (Outcome.bind_of_ok hfinish (hnext r s₂ (h₁.call (by simp) hlog₂)))

/-- Files that are passed to `close` are not closed. -/
theorem accessFiles_unclosed (policy : Policy) (val : ℤ) (files : List FileUse)
    (hfiles : ∀ file ∈ files, file.finish = .close) (h : Unclosed e s) :
    Outcome (accessFiles world policy val files) s (fun _ => Unclosed e) fun _ => Unclosed e := by
  induction files generalizing val s with
  | nil => exact Outcome.of_ok (EStateM.run_pure val s) h
  | cons file rest ih =>
    obtain ⟨hfile, hrest⟩ := List.forall_mem_cons.mp hfiles
    obtain ⟨s₁, hrun₁, -, hlog₁⟩ := fopen_log world file.path file.mode s
    have h₁ : Unclosed e s₁ := h.call (by simp) hlog₁
    have hopen : Outcome (fopenOrReturn world file.path file.mode) s (fun _ => Unclosed e)
        fun _ => Unclosed e := by
      refine Outcome.bind_of_ok hrun₁ ?_
      cases world.fopen s.fopens with
      | none => exact Outcome.of_error rfl h₁
      | some text => exact Outcome.of_ok rfl h₁
    exact hopen.bind fun f s₂ h₂ =>
      accessOne_unclosed policy f val file hfile h₂ fun r s' => ih r hrest

/-! ### The routines -/

variable (world) in
theorem readId_holds (paths : AccPaths) (id : ℤ) (h : Holds ∅ s) :
    ∃ r s', (readId world paths id).run s = .ok r s' ∧ Holds ∅ s' := by
  obtain ⟨s₁, hrun₁, -, hnone, hsome⟩ := fopen_holds world paths.accFilepathId .r h
  rw [readId, run_bind_of_ok hrun₁]
  cases hanswer : world.fopen s.fopens with
  | none => exact ⟨_, s₁, rfl, hnone hanswer⟩
  | some text =>
    have h₁ : Holds {(Stream.mk s.fopens text).number} s₁ := hsome text hanswer
    obtain ⟨s₂, hrun₂, -, h₂⟩ := fscanf_holds _ formatD h₁
    obtain ⟨s₃, hrun₃, -, -, h₃⟩ := fclose_holds _ h₂
    exact ⟨_, s₃, by rw [Option.map_some, run_bind_of_ok hrun₂, run_bind_of_ok hrun₃]; rfl, h₃⟩

variable (world) in
theorem checkAccDevid_holds (paths : AccPaths) (id : ℤ) (h : Holds ∅ s) :
    ∃ r s', (checkAccDevid world paths id).run s = .ok r s' ∧ Holds ∅ s' := by
  have hread : ∀ text (n : ℕ) s₁ paths', Holds {n} s₁ → ∃ r s', (do
      fclose ⟨n, text⟩
      readId world paths' id : Run Devid).run s₁ = .ok r s' ∧ Holds ∅ s' := by
    intro text n s₁ paths' h₁
    obtain ⟨s₂, hrun₂, -, -, h₂⟩ := fclose_holds ⟨n, text⟩ h₁
    obtain ⟨r, s₃, hrun₃, h₃⟩ := readId_holds world paths' id h₂
    exact ⟨r, s₃, by rw [run_bind_of_ok hrun₂, hrun₃], h₃⟩
  obtain ⟨s₁, hrun₁, -, hnone₁, hsome₁⟩ := fopen_holds world paths.accFilepath .r h
  rw [checkAccDevid, run_bind_of_ok hrun₁]
  cases hanswer₁ : world.fopen s.fopens with
  | some text => exact hread text s.fopens s₁ paths (hsome₁ text hanswer₁)
  | none =>
    obtain ⟨s₂, hrun₂, -, hnone₂, hsome₂⟩ :=
      fopen_holds world AccPaths.alternative.accFilepath .r (hnone₁ hanswer₁)
    rw [Option.map_none]
    simp only [run_bind_of_ok hrun₂]
    cases hanswer₂ : world.fopen s₁.fopens with
    | some text => exact hread text s₁.fopens s₂ .alternative (hsome₂ text hanswer₂)
    | none => exact ⟨_, s₂, rfl, hnone₂ hanswer₂⟩

variable {reader : Reader}

theorem Reader.log_of_outcome (post : List Event → Prop)
    (h : Outcome (reader.run world) Session.initial (fun _ s' => post s'.log)
      fun _ s' => post s'.log) : post (reader.log world) := by
  rw [Outcome] at h
  rw [Reader.log]
  cases hrun : (reader.run world).run Session.initial with
  | ok value s' => simpa only [hrun] using h
  | error value s' => simpa only [hrun] using h

theorem ClosedTwice.not_closedOnce (h : ClosedTwice s) : ¬ ClosedOnce s.log := by
  rintro ⟨-, hunused⟩
  obtain ⟨before, n, hlog⟩ := h
  exact hunused before n [.fclose n] hlog _ (List.mem_singleton_self _) rfl

theorem Unclosed.not_closedOnce {n : ℕ} (h : Unclosed (.fopen path mode (some n)) s) :
    ¬ ClosedOnce s.log := by
  intro hclosed
  have hcount := hclosed.once path mode n h.made
  rw [List.count_eq_zero.mpr (h.unclosed n)] at hcount
  exact absurd hcount (by decide)

/-- A counting routine whose last stream is closed at the label only. -/
theorem closedOnce_of_count {file : Reading} {rest : List Reading}
    (hrun : reader.run world = readProperties world skipped ret file rest)
    (hclosed : ∀ other ∈ (file :: rest).dropLast, other.closed = true)
    (hlast : ((file :: rest).getLast (List.cons_ne_nil _ _)).closed = false) :
    ClosedOnce (reader.log world) := by
  refine Reader.log_of_outcome ClosedOnce ?_
  rw [hrun]
  have hholds : ∀ s', Leaves world 0 file rest s' → ClosedOnce s'.log := fun s' h =>
    (h.holds fun hall => by simp [hlast] at hall).closedOnce
  exact (readProperties_holds skipped ret file rest _ holds_initial hclosed).mono (fun _ => hholds)
    fun _ => hholds

theorem allRead_gyr : AllRead world 0 [⟨gyrFilepathActivate, formatD, true⟩,
    ⟨gyrFilepathRange, formatD, true⟩, ⟨gyrFilepathRate, formatD, true⟩,
    ⟨gyrFilepathTemp, formatD, true⟩] ↔
      ∀ n < 4, ∃ text, world.fopen n = some text ∧ scan formatD 0 text = 1 := by
  constructor
  · rintro ⟨h₀, h₁, h₂, h₃, -⟩ n hn
    interval_cases n
    exacts [h₀, h₁, h₂, h₃]
  · intro h
    exact ⟨h 0 (by decide), h 1 (by decide), h 2 (by decide), h 3 (by decide), trivial⟩

/-- **Closing.** Every stream is closed once and not used afterwards, unless the gyroscope's
routine gets to its end, where it closes the last one twice, or a file of `get_val` opens. -/
theorem closedOnce_iff (world : World) (reader : Reader) :
    ClosedOnce (reader.log world) ↔ reader.Stops world := by
  cases reader with
  | gyrGetProperties =>
    refine Reader.log_of_outcome
      (fun log => ClosedOnce log ↔ Reader.Stops world .gyrGetProperties) ?_
    have hleaves : ∀ s', Leaves world 0 ⟨gyrFilepathActivate, formatD, true⟩
        [⟨gyrFilepathRange, formatD, true⟩, ⟨gyrFilepathRate, formatD, true⟩,
          ⟨gyrFilepathTemp, formatD, true⟩] s' →
        (ClosedOnce s'.log ↔ Reader.Stops world .gyrGetProperties) := by
      intro s' h
      rw [Reader.Stops, ← allRead_gyr]
      constructor
      · exact fun hclosed hall => (h.closedTwice hall rfl).not_closedOnce hclosed
      · exact fun hstops => (h.holds fun hall => hstops hall.1).closedOnce
    exact (readProperties_holds 0 4 _ _ _ holds_initial (by decide)).mono (fun _ => hleaves)
      fun _ => hleaves
  | accGetProperties acc =>
    refine iff_of_true ?_ trivial
    by_cases hid : acc.id = 50
    · exact closedOnce_of_count (if_pos hid) (by simp) rfl
    · exact closedOnce_of_count (if_neg hid) (by simp) rfl
  | magGetProperties =>
    exact iff_of_true (closedOnce_of_count rfl (by decide) rfl) trivial
  | checkAccDevid paths id =>
    obtain ⟨r, s', hrun, h⟩ := checkAccDevid_holds world paths id holds_initial
    refine iff_of_true (Reader.log_of_outcome ClosedOnce ?_) trivial
    exact Outcome.bind_of_ok hrun (Outcome.of_ok (EStateM.run_pure _ s') h.closedOnce)
  | getVal ret =>
    refine Reader.log_of_outcome (fun log => ClosedOnce log ↔ Reader.Stops world (.getVal ret)) ?_
    obtain ⟨s₁, hrun₁, hfopens₁, hlog₁⟩ := fopen_log world pathPrsPressdata .r Session.initial
    change s₁.log = [.fopen pathPrsPressdata .r ((world.fopen 0).map fun _ => 0)] at hlog₁
    change _ = EStateM.Result.ok ((world.fopen 0).map (Stream.mk 0)) s₁ at hrun₁
    cases hanswer : world.fopen 0 with
    | none =>
      rw [hanswer] at hlog₁ hrun₁
      have hreturn : (fopenOrReturn world pathPrsPressdata .r).run Session.initial =
          .error (-1) s₁ := run_bind_of_ok hrun₁
      exact Outcome.of_error (run_bind_of_error hreturn)
        (iff_of_true (holds_initial.fopen_none hfopens₁ hlog₁).closedOnce hanswer)
    | some text =>
      rw [hanswer] at hlog₁ hrun₁
      have hreturn : (fopenOrReturn world pathPrsPressdata .r).run Session.initial =
          .ok ⟨0, text⟩ s₁ := run_bind_of_ok hrun₁
      have h₁ : Unclosed (.fopen pathPrsPressdata .r (some 0)) s₁ := by
        constructor <;> simp [hlog₁]
      have hend : ∀ s', Unclosed (.fopen pathPrsPressdata .r (some 0)) s' →
          (ClosedOnce s'.log ↔ Reader.Stops world (.getVal ret)) := fun s' h =>
        iff_of_false h.not_closedOnce (by simp [Reader.Stops, hanswer])
      refine Outcome.bind_of_ok hreturn ((accessOne_unclosed .overwrite _ ret
        ⟨pathPrsPressdata, .r, [.fscanf formatD], .close⟩ rfl h₁ fun r s' => ?_).mono
          (fun _ => hend) fun _ => hend)
      exact accessFiles_unclosed .overwrite r _ (by decide)

/-- Files that all open and hold a number. -/
def allNumbers : World where
  fopen _ := some "1".toList
  put _ := true

/-- The gyroscope's routine closes its last stream twice, and `get_val` closes none. -/
theorem allNumbers_not_closedOnce :
    ¬ ClosedOnce (Reader.gyrGetProperties.log allNumbers) ∧
      ¬ ClosedOnce ((Reader.getVal 0).log allNumbers) := by
  constructor
  · intro h
    exact absurd (h.once gyrFilepathTemp .r 3 (by decide)) (by decide)
  · intro h
    exact absurd (h.once pathPrsPressdata .r 0 (by decide)) (by decide)

end SnowballLtp.Sensors
