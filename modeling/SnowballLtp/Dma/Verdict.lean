import SnowballLtp.Dma.ParallelRun

/-!
# The verdict of a run

`tc_worker` stores the result of each payload check in `tc->err`, so at the end of a run `tc->err`
is the result of the last check. `tc_run_parallel` joins the results of its channels with `|=`.
A corrupted lap is reported exactly when some check of the same run fails at its end: for one
transfer its own last check, for `tc_run_parallel` the last check of some channel.

## Main definitions

* `FailedCheck`, `LastCheckFailed`.
* `VerdictInv`: the result of `tc_run_parallel` while it is collected.

## Main results

* `err_ne_zero_iff`: what `tc_run_parallel` returns.
* `verdict_iff`: when a corrupted lap is reported.
-/

namespace SnowballLtp.Dma

/-- Some payload check of the trace failed. -/
def FailedCheck (log : List Event) : Prop := ∃ r ∈ checks log, r ≠ 0

/-- The last payload check of the trace failed. -/
def LastCheckFailed (log : List Event) : Prop := ∃ r, (checks log).getLast? = some r ∧ r ≠ 0

theorem LastCheckFailed.failedCheck {log : List Event} (h : LastCheckFailed log) :
    FailedCheck log := by
  obtain ⟨r, hr, hne⟩ := h
  exact ⟨r, List.mem_of_getLast? hr, hne⟩

theorem lastCheckFailed_iff {log : List Event} :
    LastCheckFailed log ↔ (checks log).getLast?.getD 0 ≠ 0 := by
  unfold LastCheckFailed
  cases (checks log).getLast? with
  | none => simp
  | some r => simp

theorem Inv.err_ne_zero_iff {p : TcParams} {s : Transfer} (h : Inv p s) :
    s.tc.err ≠ 0 ↔ LastCheckFailed s.log := by
  rw [lastCheckFailed_iff, h.err_eq]

theorem Inv.isInt_err {p : TcParams} {s : Transfer} (h : Inv p s) : IsInt s.tc.err := by
  rw [h.err_eq]
  cases hlast : (checks s.log).getLast? with
  | none => simp [IsInt]
  | some r =>
    rcases h.checks_mem r (List.mem_of_getLast? hlast) with rfl | rfl <;> simp [IsInt]

/-- A channel that was not started has checked nothing. -/
theorem Inv.checks_of_notStarted {p : TcParams} {s : Transfer} (h : Inv p s)
    (hs : s.NotStarted) : checks s.log = [] := by
  cases h.phase with
  | fresh _ _ _ _ _ _ _ _ hchecks => exact hchecks
  | queued k hqueued => simp [hs.1] at hqueued
  | running k j _ _ _ _ _ _ _ _ _ hruns => have := hs.2; omega
  | finished k _ _ _ _ hpos hruns => have := hs.2; omega

/-! ### Collecting the results -/

variable {tcp : TcParallel} {s s' : ParallelRun}

/-- The results of the channels joined by `|=`. -/
def collectedErr (tc : List Transfer) : ℤ := (tc.map fun t => t.tc.err).foldl orInt 0

/-- The channels are released before their results are collected, and the results do not change
any more. -/
structure VerdictInv (s : ParallelRun) : Prop where
  destroying : ∀ i, s.pc = .destroyWorkqueue i → i ≤ s.destroyed
  released : s.pc = .collect ∨ s.pc = .kfree ∨ s.pc = .returned → s.tc.length ≤ s.destroyed
  err_zero : s.pc ≠ .kfree → s.pc ≠ .returned → s.err = 0
  err_eq : s.pc = .kfree ∨ s.pc = .returned →
    (s.tc = [] ∧ s.err = -einval) ∨ s.err = collectedErr s.tc

/-- A step in front of the last loop that does not end the freeing loop. -/
theorem VerdictInv.of_pc (h : VerdictInv s)
    (herr : s'.err = s.err) (hpc : s.pc ≠ .kfree ∧ s.pc ≠ .returned)
    (hpc' : s'.pc ≠ .collect ∧ s'.pc ≠ .kfree ∧ s'.pc ≠ .returned)
    (hzero : ∀ i, s'.pc = .destroyWorkqueue i → i = 0) : VerdictInv s' where
  destroying i hi := by simp [hzero i hi]
  released hs' := by simp [hpc'] at hs'
  err_zero _ _ := herr.trans (h.err_zero hpc.1 hpc.2)
  err_eq hs' := by simp [hpc'] at hs'

theorem VerdictInv.next (h : VerdictInv s) {l : ParallelLabel} (hl : s.next tcp l = some s') :
    VerdictInv s' := by
  cases parallelStep_of_next hl with
  | kzalloc ok pc hpc hpc' =>
    rcases hpc' with rfl | rfl <;> exact h.of_pc rfl (by simp [hpc]) (by simp) (by simp)
  | initOk hs wq granted src dst t hpc ht =>
    exact h.of_pc rfl (by simp [hpc]) (by simp [hpc]) (by simp [hpc])
  | initNone _ hpc hnil =>
    exact ⟨by simp, by simp [hnil], by simp, fun _ => Or.inl ⟨hnil, rfl⟩⟩
  | initDone _ hpc => exact h.of_pc rfl (by simp [hpc]) (by simp) (by simp)
  | start i t hpc => exact h.of_pc rfl (by simp [hpc]) (by simp) (by simp)
  | startDone i hpc => exact h.of_pc rfl (by simp [hpc]) (by simp) (by simp)
  | wait i t hpc => exact h.of_pc rfl (by simp [hpc]) (by simp) (by simp)
  | interrupted i hpc => exact h.of_pc rfl (by simp [hpc]) (by simp) (by simp)
  | waitDone i hpc => exact h.of_pc rfl (by simp [hpc]) (by simp) (by simp)
  | destroyWorkqueue i hpc => exact h.of_pc rfl (by simp [hpc]) (by simp) (by simp)
  | destroyDone i hpc hi =>
    exact ⟨by simp, fun _ => hi.trans (h.destroying i hpc),
      fun _ _ => h.err_zero (by simp [hpc]) (by simp [hpc]), by simp⟩
  | buflistDestroy i hpc =>
    exact ⟨fun j hj => (ParallelPc.destroyWorkqueue.inj hj).ge, by simp,
      fun _ _ => h.err_zero (by simp [hpc]) (by simp [hpc]), by simp⟩
  | collect hpc =>
    refine ⟨by simp, fun _ => h.released (Or.inl hpc), by simp, fun _ => Or.inr ?_⟩
    simp only [collectedErr, h.err_zero (by simp [hpc]) (by simp [hpc])]
  | kfree hpc =>
    exact ⟨by simp, fun _ => h.released (Or.inr (Or.inl hpc)), by simp,
      fun _ => h.err_eq (Or.inl hpc)⟩
  | chan i l t t' hi hd hstep =>
    obtain ⟨hlt, -⟩ := List.getElem?_eq_some_iff.mp hi
    refine ⟨h.destroying, fun hpc => ?_, h.err_zero, fun hpc => ?_⟩
    · simpa using h.released hpc
    · have := h.released (Or.inr hpc)
      omega

theorem verdictInv_of_reachable (h : (parallelMachine tcp).Reachable s) : VerdictInv s := by
  refine h.invariant (fun s hs => ?_) fun s l s' hI _ hl => hI.next hl
  obtain rfl := hs
  exact ⟨by simp, by simp, by simp, by simp⟩

/-- **What `tc_run_parallel` returns.** When it has got a channel, it fails if and only if the last
check of some channel failed. -/
theorem err_ne_zero_iff (h : (parallelMachine tcp).Reachable s) (hpc : s.pc = .returned)
    (hne : s.tc ≠ []) : s.err ≠ 0 ↔ ∃ t ∈ s.tc, LastCheckFailed t.log := by
  have hchan := chanInv_of_reachable h
  have hint : ∀ r ∈ s.tc.map fun t => t.tc.err, IsInt r := by
    intro r hr
    obtain ⟨t, ht, rfl⟩ := List.mem_map.mp hr
    obtain ⟨sizes, hs, hinv⟩ := hchan.inv t ht
    exact hinv.isInt_err
  have hcollected : collectedErr s.tc ≠ 0 ↔ ∃ t ∈ s.tc, LastCheckFailed t.log := by
    rw [collectedErr, Ne, foldl_orInt_eq_zero_iff (by simp [IsInt]) hint]
    simp only [true_and, List.forall_mem_map, not_forall, exists_prop]
    refine exists_congr fun t => and_congr_right fun ht => ?_
    obtain ⟨sizes, hs, hinv⟩ := hchan.inv t ht
    exact hinv.err_ne_zero_iff
  have herr := ((verdictInv_of_reachable h).err_eq (Or.inr hpc)).resolve_left fun h => hne h.1
  rw [herr, hcollected]

/-- The channels that `tc_run_parallel` starts. -/
def ParallelRun.startedChannels (tcp : TcParallel) (s : ParallelRun) : List Transfer :=
  s.tc.drop tcp.chanStartIndex

/-- Only a channel that was started has checked anything. -/
theorem ChanInv.mem_startedChannels (h : ChanInv tcp s) (hpc : s.pc = .returned) {t : Transfer}
    (ht : t ∈ s.tc) (hfail : FailedCheck t.log) : t ∈ s.startedChannels tcp := by
  obtain ⟨i, hi⟩ := List.getElem?_of_mem ht
  have hle : tcp.chanStartIndex ≤ i := by
    by_contra hlt
    have hns := h.notStarted i t hi (by simpa [hpc, ParallelPc.Started] using hlt)
    obtain ⟨sizes, hs, hinv⟩ := h.inv t ht
    obtain ⟨r, hr, -⟩ := hfail
    simp [hinv.checks_of_notStarted hns] at hr
  refine List.mem_of_getElem? (i := i - tcp.chanStartIndex) ?_
  rw [ParallelRun.startedChannels, List.getElem?_drop, Nat.add_sub_cancel' hle, hi]

/-- **The verdict.** `tc->err` tells whether some lap of a transfer was corrupted, and
`tc_run_parallel` reports a corrupted lap of a started channel, if and only if in the presence of a
failed check some last check failed. -/
theorem verdict_iff (p : TcParams) (tcp : TcParallel) :
    (∀ t, (transferMachine p).Reachable t → completes t.log = 1 →
      ((t.tc.err ≠ 0 ↔ FailedCheck t.log) ↔ (FailedCheck t.log → LastCheckFailed t.log))) ∧
    ∀ s, (parallelMachine tcp).Reachable s → s.pc = .returned →
      (((∃ t ∈ s.startedChannels tcp, FailedCheck t.log) → s.err ≠ 0) ↔
        ((∃ t ∈ s.startedChannels tcp, FailedCheck t.log) →
          ∃ t ∈ s.startedChannels tcp, LastCheckFailed t.log)) := by
  constructor
  · intro t ht _
    rw [(inv_of_reachable ht).err_ne_zero_iff]
    exact ⟨fun h => h.mpr, fun h => ⟨LastCheckFailed.failedCheck, h⟩⟩
  · intro s hs hpc
    refine imp_congr_right fun ⟨t, ht, hfail⟩ => ?_
    rw [err_ne_zero_iff hs hpc (List.ne_nil_of_mem (List.mem_of_mem_drop ht))]
    constructor
    · rintro ⟨u, hu, hlast⟩
      exact ⟨u, (chanInv_of_reachable hs).mem_startedChannels hpc hu hlast.failedCheck, hlast⟩
    · rintro ⟨u, hu, hlast⟩
      exact ⟨u, List.mem_of_mem_drop hu, hlast⟩

/-- Two laps of one buffer on one channel. -/
def twoLapsOneChannel : TcParallel where
  maxChannels := 1
  laps := 2
  dmaFlags := dmaPrepInterrupt ||| dmaCtrlAck
  chanStartIndex := 0
  txAlign := 1
  constSize := 1
  listLen := 1
  timeout := 10000

/-- The parameters of its channel. -/
def twoLapsChannel : TcParams :=
  twoLapsOneChannel.params (show twoLapsOneChannel.SizesOk [1] by decide)

/-- The first lap leaves `0xAA` in the destination and the second one copies: nothing is
reported. -/
theorem not_verdict_twoLaps :
    (∃ t, (transferMachine twoLapsChannel).Reachable t ∧ completes t.log = 1 ∧
      ¬ (t.tc.err ≠ 0 ↔ FailedCheck t.log)) ∧
    ∃ s, (parallelMachine twoLapsOneChannel).Reachable s ∧ s.pc = .returned ∧
      ¬ ((∃ t ∈ s.startedChannels twoLapsOneChannel, FailedCheck t.log) → s.err ≠ 0) := by
  constructor
  · have hreach := Machine.Reachable.exec (M := transferMachine twoLapsChannel)
      (.init ⟨pattern, pattern, _, rfl, rfl⟩)
      [.work 0 0, .completion 0 pattern fun _ _ => 0xAA, .work 0 0,
        .completion 0 pattern pattern] rfl
    refine ⟨_, hreach, by decide, fun h => ?_⟩
    exact absurd (h.mpr ⟨-1, by decide, by decide⟩) (by decide)
  · have hreach := Machine.Reachable.exec (M := parallelMachine twoLapsOneChannel) (.init rfl)
      [.kzalloc true, .tcTestInit true true [1] pattern pattern, .proc, .proc, .proc,
        .chan 0 (.work 0 0), .chan 0 (.completion 0 pattern fun _ _ => 0xAA),
        .chan 0 (.work 0 0), .chan 0 (.completion 0 pattern pattern),
        .proc, .proc, .proc, .proc, .proc, .proc, .proc] rfl
    refine ⟨_, hreach, rfl, fun h => ?_⟩
    exact absurd (h ⟨_, List.mem_singleton_self _, -1, by decide, by decide⟩) (by decide)

/-- With the laps in the other order the corrupted lap is reported. -/
theorem verdict_twoLaps_last :
    (∃ t, (transferMachine twoLapsChannel).Reachable t ∧ completes t.log = 1 ∧
      FailedCheck t.log ∧ (t.tc.err ≠ 0 ↔ FailedCheck t.log)) ∧
    ∃ s, (parallelMachine twoLapsOneChannel).Reachable s ∧ s.pc = .returned ∧
      (∃ t ∈ s.startedChannels twoLapsOneChannel, FailedCheck t.log) ∧ s.err ≠ 0 := by
  constructor
  · have hreach := Machine.Reachable.exec (M := transferMachine twoLapsChannel)
      (.init ⟨pattern, pattern, _, rfl, rfl⟩)
      [.work 0 0, .completion 0 pattern pattern, .work 0 0,
        .completion 0 pattern fun _ _ => 0xAA] rfl
    exact ⟨_, hreach, by decide, ⟨-1, by decide, by decide⟩,
      ((verdict_iff _ twoLapsOneChannel).1 _ hreach (by decide)).mpr
        fun _ => ⟨-1, by decide, by decide⟩⟩
  · have hreach := Machine.Reachable.exec (M := parallelMachine twoLapsOneChannel) (.init rfl)
      [.kzalloc true, .tcTestInit true true [1] pattern pattern, .proc, .proc, .proc,
        .chan 0 (.work 0 0), .chan 0 (.completion 0 pattern pattern),
        .chan 0 (.work 0 0), .chan 0 (.completion 0 pattern fun _ _ => 0xAA),
        .proc, .proc, .proc, .proc, .proc, .proc, .proc] rfl
    refine ⟨_, hreach, rfl, ⟨_, List.mem_singleton_self _, -1, by decide, by decide⟩, ?_⟩
    exact ((verdict_iff twoLapsChannel _).2 _ hreach rfl).mpr
      (fun _ => ⟨_, List.mem_singleton_self _, -1, by decide, by decide⟩)
      ⟨_, List.mem_singleton_self _, -1, by decide, by decide⟩

end SnowballLtp.Dma
