import SnowballLtp.Dma.LapPhase

/-!
# Channels running in parallel

`tc_run_parallel` sets up an array of test engines, one for each DMA channel it gets, starts them,
waits for each of them in turn, frees them in turn and collects their results. The process that
runs it, the engines and the signals that the process receives take their steps in any order:
`wait_for_completion_interruptible` returns early when a signal arrives, and its result is not
looked at.

## Main definitions

* `TcParallel`, `ParallelPc`, `ParallelRun`, `ParallelRun.next`, `parallelMachine`.
* `Transfer.Drained`, `Transfer.Quiescent`.

## Main results

* `parallelStep_of_next`: what a step does.
* `ChanInv.next`, `chanInv_of_reachable`: the channels along every run.
* `WaitedInv.next`, `WaitInv.next`: the waits of a process that is not interrupted.
-/

namespace SnowballLtp.Dma

/-- `struct tc_parallel`. -/
structure TcParallel where
  maxChannels : ℕ
  laps : ℤ
  dmaFlags : BitVec 32
  chanStartIndex : ℕ
  txAlign : ℤ
  constSize : ℤ
  listLen : ℕ
  timeout : ℤ

namespace TcParallel

variable (tcp : TcParallel)

/-- The sizes that `dmatest_sizelist_set` stores, or `dmatest_sizelist_randomize` may store. -/
def SizesOk (sizes : List ℤ) : Prop :=
  (∀ v ∈ sizes, 1 ≤ v) ∧ sizes.length = tcp.listLen ∧
    (tcp.constSize ≠ -1 → sizes = List.replicate tcp.listLen (align tcp.constSize tcp.txAlign))

instance (sizes : List ℤ) : Decidable (tcp.SizesOk sizes) :=
  inferInstanceAs (Decidable (_ ∧ _ ∧ _))

/-- What `tc_run_parallel` asks `tc_test_init` for. -/
def params {sizes : List ℤ} (h : tcp.SizesOk sizes) : TcParams where
  laps := tcp.laps
  endPadding := 64
  doCheckBuffer := true
  sizes := sizes
  one_le_sizes := h.1
  isSgTransfer := false
  dmaFlags := tcp.dmaFlags
  timeout := tcp.timeout

end TcParallel

/-- Where the process is in `tc_run_parallel`. -/
inductive ParallelPc where
  | kzalloc
  /-- The first loop. Its index is the number of the channels set up so far. -/
  | init
  /-- The second loop, at channel `i`. -/
  | start (i : ℕ)
  /-- The third loop, in `tc_test_wait` of channel `i`. -/
  | wait (i : ℕ)
  /-- In `tc_test_free` of channel `i`, at `destroy_workqueue`. -/
  | destroyWorkqueue (i : ℕ)
  /-- In `tc_test_free` of channel `i`, at `dmatest_buflist_destroy`. -/
  | buflistDestroy (i : ℕ)
  /-- The last loop. -/
  | collect
  | kfree
  | returned
  /-- The array is a null pointer and has been written to. -/
  | oops
  deriving DecidableEq, Repr

/-- `tc_run_parallel` with the channels it has set up. -/
structure ParallelRun where
  pc : ParallelPc
  tc : List Transfer
  /-- The number of the buffer lists that have been destroyed. -/
  destroyed : ℕ
  err : ℤ

/-- The steps of the process, of the channels and of whoever sends the signals. -/
inductive ParallelLabel where
  /-- `kzalloc` returns the array, or a null pointer. -/
  | kzalloc (ok : Bool)
  /-- `tc_test_init` of the next channel. -/
  | tcTestInit (wq granted : Bool) (sizes : List ℤ) (src dst : Buffers)
  /-- Any other step of the process. -/
  | proc
  /-- A signal makes `wait_for_completion_interruptible` return early. -/
  | interrupt
  /-- A step of channel `i`. -/
  | chan (i : ℕ) (l : Label)

namespace ParallelRun

variable (tcp : TcParallel) (s : ParallelRun)

/-- Behind the first loop: without any channel the test fails, else the channels are started. -/
def initDone : ParallelRun :=
  if s.tc = [] then { s with err := -einval, pc := .kfree }
  else { s with pc := .start tcp.chanStartIndex }

/-- One iteration of the first loop. -/
def tcTestInit {sizes : List ℤ} (h : tcp.SizesOk sizes) (wq granted : Bool)
    (src dst : Buffers) : ParallelRun :=
  match Dma.tcTestInit (tcp.params h) wq granted src dst with
  | .ok t => { s with tc := s.tc ++ [t] }
  | .error _ => s.initDone tcp

/-- The steps of the process that depend on nothing but the state. `destroy_workqueue` first lets
a queued work item run. -/
def proc : Option ParallelRun :=
  match s.pc with
  | .init => if s.tc.length < tcp.maxChannels then none else some (s.initDone tcp)
  | .start i =>
    match s.tc[i]? with
    | some t => some { s with tc := s.tc.set i (tcTestRun t), pc := .start (i + 1) }
    | none => some { s with pc := .wait tcp.chanStartIndex }
  | .wait i =>
    match s.tc[i]? with
    | some t =>
      if 0 < t.done then
        some { s with tc := s.tc.set i { t with done := t.done - 1 }, pc := .wait (i + 1) }
      else none
    | none => some { s with pc := .destroyWorkqueue 0 }
  | .destroyWorkqueue i =>
    match s.tc[i]? with
    | some t => if t.workQueued then none else some { s with pc := .buflistDestroy i }
    | none => some { s with pc := .collect }
  | .buflistDestroy i => some { s with destroyed := i + 1, pc := .destroyWorkqueue (i + 1) }
  | .collect =>
    some { s with err := (s.tc.map fun t => t.tc.err).foldl orInt s.err, pc := .kfree }
  | .kfree => some { s with pc := .returned }
  | .kzalloc | .returned | .oops => none

/-- The state after a step, when the step is enabled. A channel takes no more steps once it has
been released. -/
def next (s : ParallelRun) : ParallelLabel → Option ParallelRun
  | .kzalloc ok =>
    if s.pc = .kzalloc then
      some { s with pc := if ok = true ∨ tcp.maxChannels = 0 then .init else .oops }
    else none
  | .tcTestInit wq granted sizes src dst =>
    if h : tcp.SizesOk sizes then
      if s.pc = .init ∧ s.tc.length < tcp.maxChannels then
        some (s.tcTestInit tcp h wq granted src dst)
      else none
    else none
  | .proc => s.proc tcp
  | .interrupt =>
    match s.pc with
    | .wait i => if i < s.tc.length then some { s with pc := .wait (i + 1) } else none
    | _ => none
  | .chan i l =>
    match s.tc[i]? with
    | some t =>
      if s.destroyed ≤ i then (t.next l).map fun t' => { s with tc := s.tc.set i t' } else none
    | none => none

end ParallelRun

/-- The runs of `tc_run_parallel`. -/
def parallelMachine (tcp : TcParallel) : Machine ParallelRun ParallelLabel where
  init s := s = { pc := .kzalloc, tc := [], destroyed := 0, err := 0 }
  next := ParallelRun.next tcp

/-- The steps by which the waiting process is not interrupted. -/
def ParallelLabel.NotInterrupted : ParallelLabel → Prop
  | .interrupt => False
  | _ => True

/-! ### What a step does -/

/-- The steps of `tc_run_parallel`, one constructor for each way it goes on. -/
inductive ParallelStep (tcp : TcParallel) (s : ParallelRun) : ParallelLabel → ParallelRun → Prop
  | kzalloc (ok : Bool) (pc : ParallelPc) (hpc : s.pc = .kzalloc)
      (hpc' : pc = .init ∨ pc = .oops) : ParallelStep tcp s (.kzalloc ok) { s with pc := pc }
  | initOk {sizes : List ℤ} (hs : tcp.SizesOk sizes) (wq granted : Bool) (src dst : Buffers)
      (t : Transfer) (hpc : s.pc = .init)
      (ht : tcTestInit (tcp.params hs) wq granted src dst = .ok t) :
      ParallelStep tcp s (.tcTestInit wq granted sizes src dst) { s with tc := s.tc ++ [t] }
  | initNone (l : ParallelLabel) (hpc : s.pc = .init) (hnil : s.tc = []) :
      ParallelStep tcp s l { s with err := -einval, pc := .kfree }
  | initDone (l : ParallelLabel) (hpc : s.pc = .init) (hne : s.tc ≠ []) :
      ParallelStep tcp s l { s with pc := .start tcp.chanStartIndex }
  | start (i : ℕ) (t : Transfer) (hpc : s.pc = .start i) (hi : s.tc[i]? = some t) :
      ParallelStep tcp s .proc { s with tc := s.tc.set i (tcTestRun t), pc := .start (i + 1) }
  | startDone (i : ℕ) (hpc : s.pc = .start i) (hi : s.tc.length ≤ i) :
      ParallelStep tcp s .proc { s with pc := .wait tcp.chanStartIndex }
  | wait (i : ℕ) (t : Transfer) (hpc : s.pc = .wait i) (hi : s.tc[i]? = some t)
      (hdone : 0 < t.done) :
      ParallelStep tcp s .proc
        { s with tc := s.tc.set i { t with done := t.done - 1 }, pc := .wait (i + 1) }
  | interrupted (i : ℕ) (hpc : s.pc = .wait i) :
      ParallelStep tcp s .interrupt { s with pc := .wait (i + 1) }
  | waitDone (i : ℕ) (hpc : s.pc = .wait i) (hi : s.tc.length ≤ i) :
      ParallelStep tcp s .proc { s with pc := .destroyWorkqueue 0 }
  | destroyWorkqueue (i : ℕ) (hpc : s.pc = .destroyWorkqueue i) :
      ParallelStep tcp s .proc { s with pc := .buflistDestroy i }
  | destroyDone (i : ℕ) (hpc : s.pc = .destroyWorkqueue i) (hi : s.tc.length ≤ i) :
      ParallelStep tcp s .proc { s with pc := .collect }
  | buflistDestroy (i : ℕ) (hpc : s.pc = .buflistDestroy i) :
      ParallelStep tcp s .proc
        { s with destroyed := i + 1, pc := .destroyWorkqueue (i + 1) }
  | collect (hpc : s.pc = .collect) :
      ParallelStep tcp s .proc
        { s with err := (s.tc.map fun t => t.tc.err).foldl orInt s.err, pc := .kfree }
  | kfree (hpc : s.pc = .kfree) : ParallelStep tcp s .proc { s with pc := .returned }
  | chan (i : ℕ) (l : Label) (t t' : Transfer) (hi : s.tc[i]? = some t)
      (hd : s.destroyed ≤ i) (hl : t.next l = some t') :
      ParallelStep tcp s (.chan i l) { s with tc := s.tc.set i t' }

section Inversion

variable {tcp : TcParallel} {s s' : ParallelRun}

private theorem parallelStep_initDone (l : ParallelLabel) (hpc : s.pc = .init) :
    ParallelStep tcp s l (s.initDone tcp) := by
  unfold ParallelRun.initDone
  split_ifs with hnil
  · exact .initNone l hpc hnil
  · exact .initDone l hpc hnil

private theorem parallelStep_of_proc (h : s.proc tcp = some s') :
    ParallelStep tcp s .proc s' := by
  cases hpc : s.pc with
  | kzalloc => simp [ParallelRun.proc, hpc] at h
  | init =>
    simp only [ParallelRun.proc, hpc, Option.ite_none_left_eq_some, Option.some.injEq] at h
    exact h.2 ▸ parallelStep_initDone _ hpc
  | start i =>
    cases hi : s.tc[i]? with
    | none =>
      simp only [ParallelRun.proc, hpc, hi, Option.some.injEq] at h
      exact h ▸ .startDone i hpc (List.getElem?_eq_none_iff.mp hi)
    | some t =>
      simp only [ParallelRun.proc, hpc, hi, Option.some.injEq] at h
      exact h ▸ .start i t hpc hi
  | wait i =>
    cases hi : s.tc[i]? with
    | none =>
      simp only [ParallelRun.proc, hpc, hi, Option.some.injEq] at h
      exact h ▸ .waitDone i hpc (List.getElem?_eq_none_iff.mp hi)
    | some t =>
      simp only [ParallelRun.proc, hpc, hi, Option.ite_none_right_eq_some, Option.some.injEq] at h
      exact h.2 ▸ .wait i t hpc hi h.1
  | destroyWorkqueue i =>
    cases hi : s.tc[i]? with
    | none =>
      simp only [ParallelRun.proc, hpc, hi, Option.some.injEq] at h
      exact h ▸ .destroyDone i hpc (List.getElem?_eq_none_iff.mp hi)
    | some t =>
      simp only [ParallelRun.proc, hpc, hi, Option.ite_none_left_eq_some, Option.some.injEq] at h
      exact h.2 ▸ .destroyWorkqueue i hpc
  | buflistDestroy i =>
    simp only [ParallelRun.proc, hpc, Option.some.injEq] at h
    exact h ▸ .buflistDestroy i hpc
  | collect =>
    simp only [ParallelRun.proc, hpc, Option.some.injEq] at h
    exact h ▸ .collect hpc
  | kfree =>
    simp only [ParallelRun.proc, hpc, Option.some.injEq] at h
    exact h ▸ .kfree hpc
  | returned => simp [ParallelRun.proc, hpc] at h
  | oops => simp [ParallelRun.proc, hpc] at h

/-- **What a step does.** -/
theorem parallelStep_of_next {l : ParallelLabel} (h : s.next tcp l = some s') :
    ParallelStep tcp s l s' := by
  cases l with
  | kzalloc ok =>
    obtain ⟨hpc, h⟩ := Option.ite_none_right_eq_some.mp h
    obtain rfl := Option.some.inj h
    exact .kzalloc ok _ hpc (by split_ifs <;> simp)
  | tcTestInit wq granted sizes src dst =>
    simp only [ParallelRun.next] at h
    split_ifs at h with hs hpc
    obtain rfl := Option.some.inj h
    unfold ParallelRun.tcTestInit
    split
    next t ht => exact .initOk hs wq granted src dst t hpc.1 ht
    next => exact parallelStep_initDone _ hpc.1
  | proc => exact parallelStep_of_proc h
  | interrupt =>
    cases hpc : s.pc with
    | wait i =>
      simp only [ParallelRun.next, hpc, Option.ite_none_right_eq_some, Option.some.injEq] at h
      exact h.2 ▸ .interrupted i hpc
    | _ => simp [ParallelRun.next, hpc] at h
  | chan i l =>
    cases hi : s.tc[i]? with
    | none => simp [ParallelRun.next, hi] at h
    | some t =>
      simp only [ParallelRun.next, hi, Option.ite_none_right_eq_some, Option.map_eq_some_iff] at h
      obtain ⟨hd, t', hl, rfl⟩ := h
      exact .chan i l t t' hi hd hl

end Inversion

/-! ### One channel -/

/-- The laps of the transfer are over: no descriptor is in flight, the work item is not queued, and
no timer of the watchdog is running. -/
structure Transfer.Drained (s : Transfer) : Prop where
  inFlight : s.inFlight = []
  workQueued : s.workQueued = false
  timer : s.timedOut ≠ .pending

/-- Nothing of the transfer is outstanding: the laps are over, and the work item of the watchdog is
not queued either. -/
structure Transfer.Quiescent (s : Transfer) : Prop extends s.Drained where
  notExpired : s.timedOut ≠ .expired

section Channel

variable {p : TcParams} {t t' : Transfer}

theorem Inv.quiescent_of_notStarted (h : Inv p t) (ht : t.NotStarted) : t.Quiescent := by
  cases h.phase with
  | fresh hqueued hflight hwatch => exact ⟨⟨hflight, hqueued, by simp [hwatch]⟩, by simp [hwatch]⟩
  | queued k hqueued => simp [ht.1] at hqueued
  | running k j _ _ _ _ _ _ _ _ _ hruns => have := ht.2; omega
  | finished k _ _ _ _ hpos hruns => have := ht.2; omega

theorem Inv.drained_of_completes (h : Inv p t) (ht : 1 ≤ completes t.log) : t.Drained := by
  cases h.phase with
  | fresh _ _ _ _ _ _ _ _ _ hzero => omega
  | queued k _ _ _ _ _ _ _ _ _ _ hzero => omega
  | running k j _ _ _ _ _ _ _ _ _ _ _ _ hzero => omega
  | finished k hqueued hflight hwatch => exact ⟨hflight, hqueued, hwatch⟩

/-- A transfer of which nothing is outstanding does not step. -/
theorem Transfer.Quiescent.next_eq_none (h : t.Quiescent) (l : Label) : t.next l = none := by
  cases l with
  | work a b => simp [Transfer.next, h.workQueued]
  | completion i src dst => simp [Transfer.next, h.inFlight]
  | timeout => simp [Transfer.next, h.timer, h.notExpired]

theorem Inv.completes_le (h : Inv p t) {l : Label} (hl : t.next l = some t') :
    completes t.log ≤ completes t'.log :=
  (h.isPrefix_log hl).sublist.count_le _

/-- The return of `wait_for_completion_interruptible` with the completion. -/
theorem Inv.consume (h : Inv p t) : Inv p { t with done := t.done - 1 } where
  setUp := h.setUp.of_tc rfl
  phase := by
    cases h.phase with
    | fresh h1 h2 h3 h4 h5 h6 h7 h8 h9 h10 => exact .fresh h1 h2 h3 h4 h5 h6 h7 h8 h9 h10
    | queued k h1 h2 h3 h4 h5 h6 h7 h8 h9 h10 h11 =>
      exact .queued k h1 h2 h3 h4 h5 h6 h7 h8 h9 h10 h11
    | running k j h1 h2 h3 h4 h5 h6 h7 h8 h9 h10 h11 h12 h13 =>
      exact .running k j h1 h2 h3 h4 h5 h6 h7 h8 h9 h10 h11 h12 h13
    | finished k h1 h2 h3 h4 h5 h6 h7 h8 h9 => exact .finished k h1 h2 h3 h4 h5 h6 h7 h8 h9
  check_idle := h.check_idle
  err_eq := h.err_eq
  checks_mem := h.checks_mem
  done_le := (Nat.sub_le _ _).trans h.done_le

theorem notStarted_of_tcTestInit {wq granted : Bool} {src dst : Buffers}
    (h : tcTestInit p wq granted src dst = .ok t) : t.NotStarted := by
  obtain ⟨rfl, rfl⟩ := tcTestInit_eq_ok h
  cases h
  exact ⟨rfl, (quiet_dmatestBuflistAlloc _).workRuns_eq⟩

end Channel

/-! ### The channels along a run -/

/-- Channel `i` has been passed by the second loop, which begins at channel `c`. -/
def ParallelPc.Started (c i : ℕ) : ParallelPc → Prop
  | .kzalloc | .init | .oops => False
  | .start k => c ≤ i ∧ i < k
  | _ => c ≤ i

/-- Channel `i` has been passed by the third loop, which begins at channel `c`. -/
def ParallelPc.Waited (c i : ℕ) : ParallelPc → Prop
  | .wait k => c ≤ i ∧ i < k
  | .destroyWorkqueue _ | .buflistDestroy _ | .collect | .kfree | .returned => c ≤ i
  | _ => False

variable {tcp : TcParallel} {s s' : ParallelRun}

/-- The invariant of the channels: each of them is a transfer, not started before its turn. -/
structure ChanInv (tcp : TcParallel) (s : ParallelRun) : Prop where
  inv : ∀ t ∈ s.tc, ∃ sizes, ∃ h : tcp.SizesOk sizes, Inv (tcp.params h) t
  notStarted : ∀ i t, s.tc[i]? = some t → ¬ s.pc.Started tcp.chanStartIndex i → t.NotStarted
  start_le : ∀ k, s.pc = .start k → tcp.chanStartIndex ≤ k

/-- A step of the process that leaves the channels alone. -/
theorem ChanInv.of_pc (h : ChanInv tcp s) (htc : s'.tc = s.tc)
    (hpc : ∀ i < s.tc.length, s.pc.Started tcp.chanStartIndex i →
      s'.pc.Started tcp.chanStartIndex i)
    (hstart : ∀ k, s'.pc = .start k → tcp.chanStartIndex ≤ k) : ChanInv tcp s' where
  inv := htc ▸ h.inv
  notStarted i t hi hns := by
    rw [htc] at hi
    obtain ⟨hlt, -⟩ := List.getElem?_eq_some_iff.mp hi
    exact h.notStarted i t hi (mt (hpc i hlt) hns)
  start_le := hstart

/-- A step that replaces channel `i`. -/
theorem ChanInv.set (h : ChanInv tcp s) {i : ℕ} {t t' : Transfer} (hi : s.tc[i]? = some t)
    (hinv : ∀ p, Inv p t → Inv p t') (htc : s'.tc = s.tc.set i t')
    (hpc : ∀ j, s.pc.Started tcp.chanStartIndex j → s'.pc.Started tcp.chanStartIndex j)
    (ht' : ¬ s'.pc.Started tcp.chanStartIndex i → t'.NotStarted)
    (hstart : ∀ k, s'.pc = .start k → tcp.chanStartIndex ≤ k) : ChanInv tcp s' where
  inv u hu := by
    rw [htc] at hu
    rcases List.mem_or_eq_of_mem_set hu with hu | rfl
    · exact h.inv u hu
    · obtain ⟨sizes, hs, ht⟩ := h.inv t (List.mem_of_getElem? hi)
      exact ⟨sizes, hs, hinv _ ht⟩
  notStarted j u hj hns := by
    rw [htc] at hj
    rcases getElem?_set_cases hj with ⟨rfl, rfl⟩ | ⟨-, hj⟩
    · exact ht' hns
    · exact h.notStarted j u hj (mt (hpc j) hns)
  start_le := hstart

/-- **Every step keeps the invariant of the channels.** -/
theorem ChanInv.next (h : ChanInv tcp s) {l : ParallelLabel} (hl : s.next tcp l = some s') :
    ChanInv tcp s' := by
  cases parallelStep_of_next hl with
  | kzalloc ok pc hpc hpc' =>
    refine h.of_pc rfl (by simp [hpc, ParallelPc.Started]) fun k hk => ?_
    rcases hpc' with rfl | rfl <;> cases hk
  | initOk hs wq granted src dst t hpc ht =>
    refine ⟨fun u hu => ?_, fun i u hi _ => ?_, fun k hk => by simp [hpc] at hk⟩
    · rcases List.mem_append.mp hu with hu | hu
      · exact h.inv u hu
      · rw [List.mem_singleton.mp hu]
        exact ⟨_, hs, inv_tcTestInit ht⟩
    · rcases List.mem_append.mp (List.mem_of_getElem? hi) with hu | hu
      · obtain ⟨j, hj⟩ := List.getElem?_of_mem hu
        exact h.notStarted j u hj (by simp [hpc, ParallelPc.Started])
      · rw [List.mem_singleton.mp hu]
        exact notStarted_of_tcTestInit ht
  | initNone _ hpc hnil => exact h.of_pc rfl (by simp [hnil]) (by simp)
  | initDone _ hpc =>
    exact h.of_pc rfl (by simp [hpc, ParallelPc.Started]) fun k hk => (ParallelPc.start.inj hk).le
  | start i t hpc hi =>
    have hc := h.start_le i hpc
    have hns := h.notStarted i t hi (by simp [hpc, ParallelPc.Started])
    refine h.set hi (fun p hp => hp.tcTestRun hns) rfl (fun j hj => ?_) (fun hst => ?_) ?_
    · simp only [hpc, ParallelPc.Started] at hj ⊢
      omega
    · exact absurd ⟨hc, Nat.lt_succ_self i⟩ hst
    · simp only [ParallelPc.start.injEq]
      omega
  | startDone i hpc hi =>
    refine h.of_pc rfl (fun j hj hst => ?_) (by simp)
    simp only [hpc, ParallelPc.Started] at hst ⊢
    exact hst.1
  | wait i t hpc hi hdone =>
    refine h.set hi (fun p hp => hp.consume) rfl (fun j hj => ?_) (fun hst => ?_) (by simp)
    · simpa [hpc, ParallelPc.Started] using hj
    · exact h.notStarted i t hi (by simpa [hpc, ParallelPc.Started] using hst)
  | interrupted i hpc => exact h.of_pc rfl (by simp [hpc, ParallelPc.Started]) (by simp)
  | waitDone i hpc => exact h.of_pc rfl (by simp [hpc, ParallelPc.Started]) (by simp)
  | destroyWorkqueue i hpc => exact h.of_pc rfl (by simp [hpc, ParallelPc.Started]) (by simp)
  | destroyDone i hpc => exact h.of_pc rfl (by simp [hpc, ParallelPc.Started]) (by simp)
  | buflistDestroy i hpc => exact h.of_pc rfl (by simp [hpc, ParallelPc.Started]) (by simp)
  | collect hpc => exact h.of_pc rfl (by simp [hpc, ParallelPc.Started]) (by simp)
  | kfree hpc => exact h.of_pc rfl (by simp [hpc, ParallelPc.Started]) (by simp)
  | chan i l t t' hi hd hstep =>
    refine h.set hi (fun p hp => hp.next hstep) rfl (fun j hj => hj) (fun hst => ?_) h.start_le
    obtain ⟨sizes, hs, ht⟩ := h.inv t (List.mem_of_getElem? hi)
    have hquiet := ht.quiescent_of_notStarted (h.notStarted i t hi hst)
    rw [hquiet.next_eq_none] at hstep
    cases hstep

theorem chanInv_of_reachable (h : (parallelMachine tcp).Reachable s) : ChanInv tcp s := by
  refine h.invariant (fun s hs => ?_) fun s l s' hI _ hl => hI.next hl
  obtain rfl := hs
  exact ⟨by simp, by simp, by simp⟩

/-! ### The waits of a process that is not interrupted -/

/-- The channels that the process has waited for are in `P`. -/
structure WaitedInv (P : Transfer → Prop) (tcp : TcParallel) (s : ParallelRun) : Prop where
  chanInv : ChanInv tcp s
  waited : ∀ i t, s.tc[i]? = some t → s.pc.Waited tcp.chanStartIndex i → P t

/-- The invariant of a process that is not interrupted: the channels it has waited for have
completed. -/
abbrev WaitInv (tcp : TcParallel) (s : ParallelRun) : Prop :=
  WaitedInv (fun t => 1 ≤ completes t.log) tcp s

section Waited

variable {P : Transfer → Prop}

/-- A step of the process that leaves the channels alone. -/
theorem WaitedInv.of_pc (h : WaitedInv P tcp s) (hs' : ChanInv tcp s') (htc : s'.tc = s.tc)
    (hpc : ∀ i < s.tc.length, s'.pc.Waited tcp.chanStartIndex i →
      s.pc.Waited tcp.chanStartIndex i) : WaitedInv P tcp s' where
  chanInv := hs'
  waited i t hi hw := by
    rw [htc] at hi
    obtain ⟨hlt, -⟩ := List.getElem?_eq_some_iff.mp hi
    exact h.waited i t hi (hpc i hlt hw)

/-- A step that replaces channel `i`. -/
theorem WaitedInv.set (h : WaitedInv P tcp s) (hs' : ChanInv tcp s') {i : ℕ} {t' : Transfer}
    (htc : s'.tc = s.tc.set i t')
    (hpc : ∀ j, j ≠ i → s'.pc.Waited tcp.chanStartIndex j → s.pc.Waited tcp.chanStartIndex j)
    (ht' : s'.pc.Waited tcp.chanStartIndex i → P t') : WaitedInv P tcp s' where
  chanInv := hs'
  waited j u hj hw := by
    rw [htc] at hj
    rcases getElem?_set_cases hj with ⟨rfl, rfl⟩ | ⟨hne, hj⟩
    · exact ht' hw
    · exact h.waited j u hj (hpc j hne hw)

/-- **Every step but an interruption** keeps what holds of a channel when its wait returns and is
kept by the steps of the channel. -/
theorem WaitedInv.next (h : WaitedInv P tcp s) {l : ParallelLabel} (hok : l.NotInterrupted)
    (hl : s.next tcp l = some s')
    (hwait : ∀ p i t, l = .proc → s.pc = .wait i → s.tc[i]? = some t → Inv p t → 0 < t.done →
      P { t with done := t.done - 1 })
    (hchan : ∀ p t t' l, Inv p t → P t → t.next l = some t' → P t') : WaitedInv P tcp s' := by
  have hs' := h.chanInv.next hl
  cases parallelStep_of_next hl with
  | kzalloc ok pc hpc hpc' =>
    refine h.of_pc hs' rfl fun i _ hw => ?_
    rcases hpc' with rfl | rfl <;> exact hw.elim
  | initOk hs wq granted src dst t hpc ht =>
    exact ⟨hs', fun i u _ hw => by simp [hpc, ParallelPc.Waited] at hw⟩
  | initNone _ hpc hnil => exact ⟨hs', by simp [hnil]⟩
  | initDone _ hpc => exact h.of_pc hs' rfl fun i _ hw => hw.elim
  | start i t hpc hi => exact h.set hs' rfl (fun j _ hw => hw.elim) fun hw => hw.elim
  | startDone i hpc hi =>
    refine h.of_pc hs' rfl fun j _ hw => ?_
    simp only [ParallelPc.Waited] at hw
    omega
  | wait i t hpc hi hdone =>
    refine h.set hs' rfl (fun j hne hw => ?_) fun _ => ?_
    · simp only [hpc, ParallelPc.Waited] at hw ⊢
      omega
    · obtain ⟨sizes, hs, ht⟩ := h.chanInv.inv t (List.mem_of_getElem? hi)
      exact hwait _ i t rfl hpc hi ht hdone
  | interrupted => exact hok.elim
  | waitDone i hpc hi =>
    refine h.of_pc hs' rfl fun j hj hw => ?_
    simp only [hpc, ParallelPc.Waited] at hw ⊢
    omega
  | destroyWorkqueue i hpc => exact h.of_pc hs' rfl (by simp [hpc, ParallelPc.Waited])
  | destroyDone i hpc => exact h.of_pc hs' rfl (by simp [hpc, ParallelPc.Waited])
  | buflistDestroy i hpc => exact h.of_pc hs' rfl (by simp [hpc, ParallelPc.Waited])
  | collect hpc => exact h.of_pc hs' rfl (by simp [hpc, ParallelPc.Waited])
  | kfree hpc => exact h.of_pc hs' rfl (by simp [hpc, ParallelPc.Waited])
  | chan i l t t' hi hd hstep =>
    refine h.set hs' rfl (fun j _ hw => hw) fun hw => ?_
    obtain ⟨sizes, hs, ht⟩ := h.chanInv.inv t (List.mem_of_getElem? hi)
    exact hchan _ t t' l ht (h.waited i t hi hw) hstep

theorem waitedInv_of_init (h : (parallelMachine tcp).init s) : WaitedInv P tcp s := by
  obtain rfl := h
  exact ⟨⟨by simp, by simp, by simp⟩, by simp⟩

end Waited

/-- **Every step but an interruption keeps the invariant of the waits.** -/
theorem WaitInv.next (h : WaitInv tcp s) {l : ParallelLabel} (hok : l.NotInterrupted)
    (hl : s.next tcp l = some s') : WaitInv tcp s' :=
  WaitedInv.next h hok hl (fun _ _ _ _ _ _ ht hdone => hdone.trans_le ht.done_le)
    fun _ _ _ _ ht hone hstep => hone.trans (ht.completes_le hstep)

end SnowballLtp.Dma
