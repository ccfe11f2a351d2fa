import Mathlib.Tactic.Ring
import SnowballLtp.Dma.TransferSteps

/-!
# Laps

Between two steps a transfer is in one of four phases: nothing started yet, a lap queued, a lap
running, or all laps over. The phase ties the two counters, the lap counter, the queued work item
and the descriptors in flight to the number of runs, callbacks and checks in the trace
(`Phase`). Every step keeps it (`Inv.next`), whatever the order of the completions and whatever
the engine leaves in the buffers, so it holds along every run (`inv_of_reachable`).

## Main definitions

* `Phase`, `Inv`.
* `LapDiscipline`: the counters, the work item and the completion of one transfer.

## Main results

* `Inv.next`, `inv_of_reachable`.
* `lapDiscipline_of_reachable`: the lap discipline holds in every reachable state.
-/

namespace SnowballLtp.Dma

/-- The phase of a transfer of which `k` laps are over. -/
inductive Phase (p : TcParams) (s : Transfer) : Prop
  /-- Nothing has been queued yet. -/
  | fresh (hqueued : s.workQueued = false) (hflight : s.inFlight = [])
      (hwatch : s.timedOut = .idle) (hjobs : s.tc.jobCounter = 0)
      (hfin : s.tc.buflist.finishedJobs = 0) (hlaps : s.tc.laps = p.laps)
      (hruns : workRuns s.log = 0) (hcbs : callbacks s.log = 0) (hchecks : checks s.log = [])
      (hdone : completes s.log = 0)
  /-- The next lap is queued. -/
  | queued (k : ℕ) (hqueued : s.workQueued = true) (hflight : s.inFlight = [])
      (hwatch : s.timedOut ≠ .pending) (hjobs : s.tc.jobCounter = 0)
      (hfin : s.tc.buflist.finishedJobs = 0) (hlaps : s.tc.laps = p.laps - k)
      (hlast : ¬ (1 ≤ p.laps ∧ p.laps ≤ k)) (hruns : workRuns s.log = k)
      (hcbs : callbacks s.log = k * p.perLap)
      (hchecks : p.doCheckBuffer = true → (checks s.log).length = k)
      (hdone : completes s.log = 0)
  /-- The next lap is running, `j` of its descriptors being completed. -/
  | running (k j : ℕ) (hqueued : s.workQueued = false)
      (hflight : j + s.inFlight.length = p.perLap) (hj : p.perLap ≠ 0 → j < p.perLap)
      (hwatch : j = 0 → s.timedOut ≠ .idle) (hcb : s.tc.buflist.callback = some .tcWorker)
      (hjobs : s.tc.jobCounter = j) (hfin : s.tc.buflist.finishedJobs = j)
      (hlaps : s.tc.laps = p.laps - k) (hlast : ¬ (1 ≤ p.laps ∧ p.laps ≤ k))
      (hruns : workRuns s.log = k + 1) (hcbs : callbacks s.log = k * p.perLap + j)
      (hchecks : p.doCheckBuffer = true → (checks s.log).length = k)
      (hdone : completes s.log = 0)
  /-- All laps are over. -/
  | finished (k : ℕ) (hqueued : s.workQueued = false) (hflight : s.inFlight = [])
      (hwatch : s.timedOut ≠ .pending) (hk : p.laps = k) (hpos : 1 ≤ k)
      (hruns : workRuns s.log = k) (hcbs : callbacks s.log = k * p.perLap)
      (hchecks : p.doCheckBuffer = true → (checks s.log).length = k)
      (hdone : completes s.log = 1)

/-- The invariant of a transfer. -/
structure Inv (p : TcParams) (s : Transfer) : Prop where
  setUp : SetUp p s
  phase : Phase p s
  /-- Every payload check found no descriptor in flight. -/
  check_idle : ∀ m err, .payloadCheck m err ∈ s.log → m = 0
  /-- `tc->err` is the result of the last payload check. -/
  err_eq : s.tc.err = (checks s.log).getLast?.getD 0
  checks_mem : ∀ r ∈ checks s.log, r = 0 ∨ r = -1
  done_le : s.done ≤ completes s.log

variable {p : TcParams} {s s' : Transfer}

/-! ### The set-up and the start -/

/-- `tc_test_init` succeeds when it gets its work queue and its channel. -/
theorem tcTestInit_eq_ok {wq granted : Bool} {src dst : Buffers}
    (h : tcTestInit p wq granted src dst = .ok s) : wq = true ∧ granted = true := by
  cases wq <;> cases granted <;> simp [tcTestInit, dmatestBuflistCreate] at h ⊢

theorem inv_tcTestInit {wq granted : Bool} {src dst : Buffers}
    (h : tcTestInit p wq granted src dst = .ok s) : Inv p s := by
  obtain ⟨rfl, rfl⟩ := tcTestInit_eq_ok h
  cases h
  have hq := quiet_dmatestBuflistAlloc
  refine ⟨⟨?_, rfl, rfl, rfl, rfl, rfl, rfl⟩, ?_, ?_, ?_, ?_, Nat.zero_le _⟩
  · simp only [TcParams.perLap]
    split_ifs <;> rfl
  · exact .fresh rfl rfl rfl rfl rfl rfl (hq _).workRuns_eq (hq _).callbacks_eq
      (hq _).checks_eq (hq _).completes_eq
  · intro m err hmem
    simpa using (hq _ _ hmem).2.2.2
  · simp [(hq _).checks_eq]
  · simp [(hq _).checks_eq]

/-- The set-up is a fact about the test case alone. -/
theorem SetUp.of_tc (h : SetUp p s) (htc : s'.tc = s.tc) : SetUp p s' := by
  constructor
  all_goals rw [htc]
  exacts [h.1, h.2, h.3, h.4, h.5, h.6, h.7]

/-- A step that extends the trace by `es` keeps the invariant, when it keeps the set-up and the
phase and the payload checks in `es` are in order. -/
theorem Inv.of_log (h : Inv p s) (es : List Event) (hset : SetUp p s') (hphase : Phase p s')
    (hlog : s'.log = s.log ++ es) (hidle : ∀ m err, .payloadCheck m err ∈ es → m = 0)
    (herr : s'.tc.err = (checks es).getLast?.getD s.tc.err)
    (hmem : ∀ r ∈ checks es, r = 0 ∨ r = -1) (hdone : s'.done ≤ s.done + completes es) :
    Inv p s' where
  setUp := hset
  phase := hphase
  check_idle m err hm := by
    rw [hlog] at hm
    exact (List.mem_append.mp hm).elim (h.check_idle m err) (hidle m err)
  err_eq := by
    rw [herr, hlog, checks_append, List.getLast?_append, Option.getD_or, ← h.err_eq]
  checks_mem r hr := by
    rw [hlog, checks_append] at hr
    exact (List.mem_append.mp hr).elim (h.checks_mem r) (hmem r)
  done_le := by
    have := h.done_le
    rw [hlog, completes_append]
    omega

/-- Nothing has been queued on the work queue of the transfer yet. -/
def Transfer.NotStarted (s : Transfer) : Prop := s.workQueued = false ∧ workRuns s.log = 0

theorem Inv.tcTestRun (h : Inv p s) (hs : s.NotStarted) : Inv p (tcTestRun s) := by
  refine h.of_log _ (h.setUp.of_tc rfl) ?_ rfl ?_ ?_ ?_ ?_
  · cases h.phase with
    | fresh hqueued hflight hwatch hjobs hfin hlaps hruns hcbs hchecks hzero =>
      refine .queued 0 rfl hflight ?_ hjobs hfin ?_ ?_ ?_ ?_ ?_ ?_
      · simp [Dma.tcTestRun, Transfer.queueWork, hwatch]
      · simpa [Dma.tcTestRun, Transfer.queueWork] using hlaps
      · omega
      · simp [Dma.tcTestRun, Transfer.queueWork, hruns]
      · simp [Dma.tcTestRun, Transfer.queueWork, hcbs]
      · simp [Dma.tcTestRun, Transfer.queueWork, hchecks]
      · simp [Dma.tcTestRun, Transfer.queueWork, hzero]
    | queued k hqueued => simp [hs.1] at hqueued
    | running k j _ _ _ _ _ _ _ _ _ hruns => have := hs.2; omega
    | finished k _ _ _ _ hpos hruns => have := hs.2; omega
  all_goals simp [Dma.tcTestRun, Transfer.queueWork]

/-! ### The work item -/

section StartLog

variable (p : TcParams) (bf : Buflist)

@[simp] theorem workRuns_startLog : workRuns (startLog p bf) = 1 := by
  simp [startLog, (quiet_startMaps p bf).workRuns_eq, (quiet_map_txSubmit p.descs).workRuns_eq]

@[simp] theorem callbacks_startLog : callbacks (startLog p bf) = 0 := by
  simp [startLog, (quiet_startMaps p bf).callbacks_eq,
    (quiet_map_txSubmit p.descs).callbacks_eq]

@[simp] theorem completes_startLog : completes (startLog p bf) = 0 := by
  simp [startLog, (quiet_startMaps p bf).completes_eq,
    (quiet_map_txSubmit p.descs).completes_eq]

@[simp] theorem checks_startLog : checks (startLog p bf) = [] := by
  simp [startLog, (quiet_startMaps p bf).checks_eq, (quiet_map_txSubmit p.descs).checks_eq]

end StartLog

theorem SetUp.startedBuflist (h : SetUp p s) (a b : ℕ) (log : List Event) (w : DelayedWork)
    (fl : List ℕ) (q : Bool) : SetUp p { s with
      workQueued := q
      inFlight := fl
      timedOut := w
      tc := { s.tc with buflist := startedBuflist p s.tc.buflist a b }
      log := log } :=
  ⟨h.1, h.2, h.3, h.4, h.5, h.6, h.7⟩

/-- A run of the work item starts the queued lap. -/
theorem Inv.runWork (h : Inv p s) (hs : s.workQueued = true) (a b : ℕ) :
    Inv p (s.runWork a b) := by
  rw [Transfer.runWork_eq h.setUp]
  refine h.of_log _ (h.setUp.startedBuflist a b _ _ _ _) ?_ rfl ?_ ?_ ?_ ?_
  · cases h.phase with
    | fresh hqueued => simp [hs] at hqueued
    | running k j hqueued => simp [hs] at hqueued
    | finished k hqueued => simp [hs] at hqueued
    | queued k hqueued hflight hwatch hjobs hfin hlaps hlast hruns hcbs hchecks hzero =>
      refine .running k 0 rfl ?_ ?_ ?_ rfl hjobs hfin hlaps hlast ?_ ?_ ?_ ?_
      · simp [hflight, p.length_descs]
      · omega
      · intro _
        dsimp only
        split_ifs <;> simp
      · simp [hruns]
      · simp [hcbs]
      · simpa using hchecks
      · simp [hzero]
  · intro m err hm
    have hmem : err ∈ checks (startLog p s.tc.buflist) := List.mem_filterMap.mpr ⟨_, hm, rfl⟩
    simp at hmem
  all_goals simp

/-! ### The completion of a descriptor -/

theorem SetUp.calledBack (h : SetUp p s) (i : ℕ) (src dst : Buffers) :
    SetUp p (s.calledBack i src dst) :=
  ⟨h.1, h.2, h.3, h.4, h.5, h.6, h.7⟩

/-- A callback in the middle of a lap. -/
theorem Inv.calledBack (h : Inv p s) {i : ℕ} (hi : i ∈ s.inFlight)
    (hmid : s.tc.jobCounter + 1 ≠ s.tc.nbrReturnsPerTransfer) (src dst : Buffers) :
    Inv p (s.calledBack i src dst) := by
  refine h.of_log _ (h.setUp.calledBack i src dst) ?_ rfl ?_ ?_ ?_ ?_
  · cases h.phase with
    | fresh _ hflight => simp [hflight] at hi
    | queued _ _ hflight => simp [hflight] at hi
    | finished _ _ hflight => simp [hflight] at hi
    | running k j hqueued hflight hj hwatch hcb hjobs hfin hlaps hlast hruns hcbs hchecks hzero =>
      have hpos := List.length_pos_of_mem hi
      have hlen := List.length_erase_of_mem hi
      rw [hjobs, h.setUp.nbrReturns] at hmid
      refine .running k (j + 1) hqueued ?_ ?_ (by omega) hcb ?_ ?_ hlaps hlast ?_ ?_ ?_ ?_
      · simp only [Transfer.calledBack, hlen]
        omega
      · omega
      · simp [Transfer.calledBack, hjobs]
      · simp [Transfer.calledBack, hfin]
      · simp [Transfer.calledBack, hruns]
      · simp [Transfer.calledBack, hcbs]
        omega
      · simpa [Transfer.calledBack] using hchecks
      · simp [Transfer.calledBack, hzero]
  all_goals simp [Transfer.calledBack]

/-- The callback that ends a lap: the last descriptor of the lap has completed, so the payload
check finds none in flight. -/
theorem Inv.endLap (h : Inv p s) {i : ℕ} (hi : i ∈ s.inFlight)
    (hend : s.tc.jobCounter + 1 = s.tc.nbrReturnsPerTransfer) (src dst : Buffers) :
    Inv p (tcWorkerEndLap (tcWorkerCheck (s.calledBack i src dst))) := by
  have hset := h.setUp.calledBack i src dst
  obtain ⟨err, chk, heq, hcr, hcc, hcd, hidle, herr, hmem, hchk⟩ :=
    tcWorkerCheck_err (s.calledBack i src dst)
  rw [heq]
  rw [hset.doCheckBuffer] at hchk
  cases h.phase with
  | fresh _ hflight => simp [hflight] at hi
  | queued _ _ hflight => simp [hflight] at hi
  | finished _ _ hflight => simp [hflight] at hi
  | running k j hqueued hflight hj hwatch hcb hjobs hfin hlaps hlast hruns hcbs hchecks hzero =>
    have hlen := List.length_erase_of_mem hi
    have hj' : j + 1 = p.perLap := by
      rw [hjobs, h.setUp.nbrReturns] at hend
      exact_mod_cast hend
    have hnil : s.inFlight.erase i = [] := List.length_eq_zero_iff.mp (by omega)
    have hwatch' : (s.calledBack i src dst).timedOut ≠ .pending := by
      simp only [Transfer.calledBack]
      split_ifs with hw <;> simp [hw]
    have hcbs' : callbacks s.log + 1 = (k + 1) * p.perLap := by
      rw [hcbs, Nat.add_mul, Nat.one_mul, ← hj', Nat.add_assoc]
    have hidle' : ∀ m r, .payloadCheck m r ∈ chk → m = 0 := fun m r hm => by
      simp [hidle m r hm, Transfer.calledBack, hnil]
    by_cases hl : s.tc.laps = 1
    · rw [tcWorkerEndLap_of_last (by simpa [Transfer.calledBack] using hl)]
      refine h.of_log ([.transmitCb i, .cancelDelayedWork] ++ (chk ++ [.complete]))
        ⟨hset.1, hset.2, hset.3, hset.4, hset.5, hset.6, hset.7⟩ ?_ ?_ ?_ ?_ ?_ ?_
      · refine .finished (k + 1) hqueued hnil hwatch' ?_ (by omega) ?_ ?_ ?_ ?_
        · push_cast
          omega
        · simp [Transfer.calledBack, hruns, hcr]
        · simpa [Transfer.calledBack, hcc] using hcbs'
        · intro hd
          simp [Transfer.calledBack, hchecks hd, hchk hd]
        · simp [Transfer.calledBack, hzero, hcd]
      · simp [Transfer.calledBack]
      · intro m r hm
        exact hidle' m r (by simpa using hm)
      · simpa [Transfer.calledBack] using herr
      · simpa using hmem
      · simp [Transfer.calledBack, hcd]
    · rw [tcWorkerEndLap_of_not_last (by simpa [Transfer.calledBack] using hl)]
      refine h.of_log ([.transmitCb i, .cancelDelayedWork] ++ (chk ++ [.queueWork]))
        ⟨hset.1, hset.2, hset.3, hset.4, hset.5, hset.6, hset.7⟩ ?_ ?_ ?_ ?_ ?_ ?_
      · refine .queued (k + 1) rfl hnil hwatch' rfl rfl ?_ ?_ ?_ ?_ ?_ ?_
        · simp only [Transfer.calledBack, hlaps]
          push_cast
          ring
        · push_cast
          omega
        · simp [Transfer.calledBack, hruns, hcr]
        · simpa [Transfer.calledBack, hcc] using hcbs'
        · intro hd
          simp [Transfer.calledBack, hchecks hd, hchk hd]
        · simp [Transfer.calledBack, hzero, hcd]
      · simp [Transfer.calledBack]
      · intro m r hm
        exact hidle' m r (by simpa using hm)
      · simpa [Transfer.calledBack] using herr
      · simpa using hmem
      · simp [Transfer.calledBack]

theorem Inv.callback_of_mem (h : Inv p s) {i : ℕ} (hi : i ∈ s.inFlight) :
    s.tc.buflist.callback = some .tcWorker := by
  cases h.phase with
  | fresh _ hflight => simp [hflight] at hi
  | queued _ _ hflight => simp [hflight] at hi
  | finished _ _ hflight => simp [hflight] at hi
  | running _ _ _ _ _ _ hcb => exact hcb

theorem Inv.workRuns_of_mem (h : Inv p s) {i : ℕ} (hi : i ∈ s.inFlight) :
    1 ≤ workRuns s.log := by
  cases h.phase with
  | fresh _ hflight => simp [hflight] at hi
  | queued _ _ hflight => simp [hflight] at hi
  | finished _ _ hflight => simp [hflight] at hi
  | running _ _ _ _ _ _ _ _ _ _ _ hruns => omega

/-- The last descriptor in flight is the one whose callback ends the lap. -/
theorem Inv.erase_eq_nil_iff (h : Inv p s) {i : ℕ} (hi : i ∈ s.inFlight) :
    s.inFlight.erase i = [] ↔ s.tc.jobCounter + 1 = s.tc.nbrReturnsPerTransfer := by
  cases h.phase with
  | fresh _ hflight => simp [hflight] at hi
  | queued _ _ hflight => simp [hflight] at hi
  | finished _ _ hflight => simp [hflight] at hi
  | running k j _ hflight _ _ _ hjobs =>
    have hlen := List.length_erase_of_mem hi
    have hpos := List.length_pos_of_mem hi
    rw [hjobs, h.setUp.nbrReturns, ← List.length_eq_zero_iff]
    omega

/-- What a completion does, by whether other descriptors of the lap are still in flight. -/
theorem Inv.runCompletion_cases (h : Inv p s) {i : ℕ} (hi : i ∈ s.inFlight) (src dst : Buffers) :
    (s.inFlight.erase i ≠ [] ∧ s.runCompletion i src dst = s.calledBack i src dst) ∨
      (s.inFlight.erase i = [] ∧ s.runCompletion i src dst =
        tcWorkerEndLap (tcWorkerCheck (s.calledBack i src dst))) := by
  have hiff := h.erase_eq_nil_iff hi
  rw [Transfer.runCompletion_eq (h.callback_of_mem hi)]
  by_cases hend : s.inFlight.erase i = []
  · exact Or.inr ⟨hend, if_pos (hiff.mp hend)⟩
  · exact Or.inl ⟨hend, if_neg (mt hiff.mpr hend)⟩

theorem Inv.inFlight_of_queued (h : Inv p s) (hs : s.workQueued = true) : s.inFlight = [] := by
  cases h.phase with
  | fresh _ hflight => exact hflight
  | queued _ _ hflight => exact hflight
  | finished _ _ hflight => exact hflight
  | running _ _ hqueued => simp [hs] at hqueued

/-- The completion of a descriptor in flight. -/
theorem Inv.runCompletion (h : Inv p s) {i : ℕ} (hi : i ∈ s.inFlight) (src dst : Buffers) :
    Inv p (s.runCompletion i src dst) := by
  rw [Transfer.runCompletion_eq (h.callback_of_mem hi)]
  split_ifs with hend
  · exact h.endLap hi hend src dst
  · exact h.calledBack hi hend src dst

theorem Inv.inFlight_runCompletion (h : Inv p s) {i : ℕ} (hi : i ∈ s.inFlight)
    (src dst : Buffers) : (s.runCompletion i src dst).inFlight = s.inFlight.erase i := by
  rcases h.runCompletion_cases hi src dst with ⟨-, heq⟩ | ⟨-, heq⟩ <;>
    simp [heq, Transfer.inFlight_calledBack]

theorem Inv.workRuns_runCompletion (h : Inv p s) {i : ℕ} (hi : i ∈ s.inFlight)
    (src dst : Buffers) : workRuns (s.runCompletion i src dst).log = workRuns s.log := by
  rcases h.runCompletion_cases hi src dst with ⟨-, heq⟩ | ⟨-, heq⟩ <;>
    simp [heq, Transfer.log_calledBack]

/-- Completing the descriptors in flight one after the other ends the running lap. -/
theorem exists_drained {I : Transfer → Prop} (hI : ∀ s, I s → Inv p s)
    (hstep : ∀ s i src dst, I s → i ∈ s.inFlight → I (s.runCompletion i src dst))
    (hs : I s) : ∃ s', I s' ∧ s'.inFlight = [] := by
  obtain ⟨n, hn⟩ : ∃ n, s.inFlight.length = n := ⟨_, rfl⟩
  induction n generalizing s with
  | zero => exact ⟨s, hs, List.length_eq_zero_iff.mp hn⟩
  | succ n ih =>
    obtain ⟨i, hi⟩ := List.exists_mem_of_length_pos (l := s.inFlight) (by omega)
    refine ih (hstep s i s.tc.buflist.listBufSrc s.tc.buflist.listBufDst hs hi) ?_
    rw [(hI s hs).inFlight_runCompletion hi, List.length_erase_of_mem hi]
    omega

/-! ### The watchdog and the runs -/

/-- The watchdog runs only when it has been armed, and is never armed by its steps. -/
theorem Inv.runWatchdog (h : Inv p s) (hw : s.timedOut = .pending ∨ s.timedOut = .expired) :
    Inv p s.runWatchdog := by
  have harmed : s.timedOut ≠ .idle := by
    obtain hw | hw := hw <;> simp [hw]
  have hwatch : s.runWatchdog.timedOut ≠ .idle ∧ s.runWatchdog.timedOut ≠ .pending := by
    rw [s.timedOut_runWatchdog]
    split_ifs <;> simp
  have hquiet := s.quiet_watchdogLog
  refine h.of_log _ (h.setUp.of_tc s.tc_runWatchdog) ?_ s.log_runWatchdog ?_ ?_ ?_ ?_
  · cases h.phase with
    | fresh _ _ hidle => exact absurd hidle harmed
    | queued k hqueued hflight _ hjobs hfin hlaps hlast hruns hcbs hchecks hzero =>
      exact .queued k (by simpa using hqueued) (by simpa using hflight) hwatch.2
        (by simpa using hjobs) (by simpa using hfin) (by simpa using hlaps) hlast
        (by simpa using hruns) (by simpa using hcbs) (by simpa using hchecks) (by simpa using hzero)
    | running k j hqueued hflight hj _ hcb hjobs hfin hlaps hlast hruns hcbs hchecks hzero =>
      exact .running k j (by simpa using hqueued) (by simpa using hflight) hj (fun _ => hwatch.1)
        (by simpa using hcb) (by simpa using hjobs) (by simpa using hfin) (by simpa using hlaps)
        hlast (by simpa using hruns) (by simpa using hcbs) (by simpa using hchecks)
        (by simpa using hzero)
    | finished k hqueued hflight _ hk hpos hruns hcbs hchecks hone =>
      exact .finished k (by simpa using hqueued) (by simpa using hflight) hwatch.2 hk hpos
        (by simpa using hruns) (by simpa using hcbs) (by simpa using hchecks) (by simpa using hone)
  · intro m err hm
    simpa using (hquiet _ hm).2.2.2
  · simp [hquiet.checks_eq]
  · simp [hquiet.checks_eq]
  · simp [hquiet.completes_eq]

/-- **Every step keeps the invariant.** -/
theorem Inv.next (h : Inv p s) {l : Label} (hl : s.next l = some s') : Inv p s' := by
  cases l with
  | work a b =>
    obtain ⟨hs, rfl⟩ := Transfer.next_work_iff.mp hl
    exact h.runWork hs a b
  | completion i src dst =>
    obtain ⟨hi, rfl⟩ := Transfer.next_completion_iff.mp hl
    exact h.runCompletion hi src dst
  | timeout =>
    obtain ⟨hw, rfl⟩ := Transfer.next_timeout_iff.mp hl
    exact h.runWatchdog hw

theorem isPrefix_log_tcWorkerEndLap (s : Transfer) : s.log <+: (tcWorkerEndLap s).log := by
  by_cases hl : s.tc.laps = 1
  · rw [tcWorkerEndLap_of_last hl]
    exact List.prefix_append _ _
  · rw [tcWorkerEndLap_of_not_last hl]
    exact List.prefix_append _ _

/-- Every step only extends the trace. -/
theorem Inv.isPrefix_log (h : Inv p s) {l : Label} (hl : s.next l = some s') :
    s.log <+: s'.log := by
  cases l with
  | work a b =>
    obtain ⟨hs, rfl⟩ := Transfer.next_work_iff.mp hl
    rw [Transfer.runWork_eq h.setUp]
    exact List.prefix_append _ _
  | completion i src dst =>
    obtain ⟨hi, rfl⟩ := Transfer.next_completion_iff.mp hl
    rw [Transfer.runCompletion_eq (h.callback_of_mem hi)]
    have hcalled : s.log <+: (s.calledBack i src dst).log := List.prefix_append _ _
    split_ifs
    · obtain ⟨err, chk, heq, -⟩ := tcWorkerCheck_spec (s.calledBack i src dst)
      refine hcalled.trans (List.IsPrefix.trans ?_ (isPrefix_log_tcWorkerEndLap _))
      rw [heq]
      exact List.prefix_append _ _
    · exact hcalled
  | timeout =>
    obtain ⟨-, rfl⟩ := Transfer.next_timeout_iff.mp hl
    rw [s.log_runWatchdog]
    exact List.prefix_append _ _

/-- A transfer that has been started stays started. -/
theorem Inv.not_notStarted (h : Inv p s) (hs : ¬ s.NotStarted) {l : Label}
    (hl : s.next l = some s') : ¬ s'.NotStarted := by
  rintro ⟨hqueued', hruns'⟩
  have hle : workRuns s.log ≤ workRuns s'.log := (h.isPrefix_log hl).sublist.count_le _
  have hqueued : s.workQueued = true := by
    by_contra hq
    exact hs ⟨Bool.not_eq_true _ ▸ hq, by omega⟩
  cases l with
  | work a b =>
    obtain ⟨-, rfl⟩ := Transfer.next_work_iff.mp hl
    simp [Transfer.runWork_eq h.setUp] at hruns'
  | completion i src dst =>
    obtain ⟨hi, -⟩ := Transfer.next_completion_iff.mp hl
    simp [h.inFlight_of_queued hqueued] at hi
  | timeout =>
    obtain ⟨-, rfl⟩ := Transfer.next_timeout_iff.mp hl
    simp [hqueued] at hqueued'

theorem inv_init (h : (transferMachine p).init s) : Inv p s := by
  obtain ⟨src, dst, s₀, h₀, rfl⟩ := h
  have hinv := inv_tcTestInit h₀
  refine hinv.tcTestRun ?_
  cases h₀
  exact ⟨rfl, (quiet_dmatestBuflistAlloc _).workRuns_eq⟩

theorem started_of_init (h : (transferMachine p).init s) : ¬ s.NotStarted := by
  obtain ⟨src, dst, s₀, -, rfl⟩ := h
  exact fun hs => by simpa [Dma.tcTestRun, Transfer.queueWork] using hs.1

theorem inv_of_reachable (h : (transferMachine p).Reachable s) : Inv p s :=
  h.invariant (fun _ => inv_init) fun _ _ _ hI _ hl => hI.next hl

theorem started_of_reachable (h : (transferMachine p).Reachable s) : ¬ s.NotStarted :=
  (h.invariant (I := fun s => Inv p s ∧ ¬ s.NotStarted)
    (fun _ hs => ⟨inv_init hs, started_of_init hs⟩)
    fun _ _ _ hI _ hl => ⟨hI.1.next hl, hI.1.not_notStarted hI.2 hl⟩).2

theorem exists_init (p : TcParams) : ∃ s, (transferMachine p).init s :=
  ⟨_, fun _ _ => 0, fun _ _ => 0, _, rfl, rfl⟩

/-! ### The lap discipline -/

/-- The lap discipline of a transfer of `L` laps of `m` descriptors each. -/
structure LapDiscipline (L m : ℕ) (s : Transfer) : Prop where
  /-- The work item is queued only when no descriptor is in flight. -/
  queued_idle : s.workQueued = true → s.inFlight = []
  /-- The payload check ran only when no descriptor was in flight. -/
  check_idle : ∀ inFlight err, .payloadCheck inFlight err ∈ s.log → inFlight = 0
  /-- Both counters agree until the last lap ends. -/
  counters_agree : completes s.log = 0 → (s.tc.buflist.finishedJobs : ℤ) = s.tc.jobCounter
  /-- There are no more than `L * m` completions. -/
  callbacks_le : callbacks s.log ≤ L * m
  /-- `complete` is called by the `L * m`-th completion, and by no other. -/
  completes_eq : completes s.log = if callbacks s.log = L * m then 1 else 0
  /-- By then the work item has run `L` times and `L` payload checks were made. -/
  laps_over : completes s.log = 1 → workRuns s.log = L ∧ (checks s.log).length = L
  /-- Before that the run goes on: a lap is queued or a descriptor is in flight. -/
  goes_on : completes s.log = 0 → s.workQueued = true ∨ s.inFlight ≠ []

/-- **The lap discipline.** In every state that a transfer of `L` laps reaches, in single or in
scatter-gather mode and whatever the order of the completions. -/
theorem lapDiscipline_of_reachable {L : ℕ} (hL : 1 ≤ L) (hlaps : p.laps = L)
    (hlen : 1 ≤ p.listLen) (hcheck : p.doCheckBuffer = true)
    (h : (transferMachine p).Reachable s) :
    LapDiscipline L (if p.isSgTransfer then 1 else p.listLen) s := by
  have hinv := inv_of_reachable h
  have hstart := started_of_reachable h
  have hm : 1 ≤ p.perLap := by
    unfold TcParams.perLap
    split_ifs <;> omega
  change LapDiscipline L p.perLap s
  cases hinv.phase with
  | fresh hqueued _ _ _ _ _ hruns => exact absurd ⟨hqueued, hruns⟩ hstart
  | queued k hqueued hflight hwatch hjobs hfin _ hlast hruns hcbs hchecks hzero =>
    have hlt : k * p.perLap < L * p.perLap := Nat.mul_lt_mul_of_pos_right (by omega) hm
    exact {
      queued_idle := fun _ => hflight
      check_idle := hinv.check_idle
      counters_agree := fun _ => by rw [hjobs, hfin]; rfl
      callbacks_le := by omega
      completes_eq := by rw [hzero, if_neg (by omega)]
      laps_over := by omega
      goes_on := fun _ => Or.inl hqueued }
  | running k j hqueued hflight hj hwatch hcb hjobs hfin _ hlast hruns hcbs hchecks hzero =>
    have hle : (k + 1) * p.perLap ≤ L * p.perLap := Nat.mul_le_mul_right _ (by omega)
    have hlt := hj (by omega)
    rw [Nat.add_mul] at hle
    exact {
      queued_idle := by simp [hqueued]
      check_idle := hinv.check_idle
      counters_agree := fun _ => by rw [hjobs, hfin]
      callbacks_le := by omega
      completes_eq := by rw [hzero, if_neg (by omega)]
      laps_over := by omega
      goes_on := fun _ => Or.inr fun hnil => by simp [hnil] at hflight; omega }
  | finished k hqueued hflight hwatch hk hpos hruns hcbs hchecks hone =>
    have hkL : k = L := by omega
    subst hkL
    exact {
      queued_idle := by simp [hqueued]
      check_idle := hinv.check_idle
      counters_agree := by omega
      callbacks_le := hcbs.le
      completes_eq := by rw [hone, if_pos hcbs]
      laps_over := fun _ => ⟨hruns, hchecks hcheck⟩
      goes_on := by omega }

/-- Two laps over two buffers of one byte. -/
def twoLaps : TcParams where
  laps := 2
  endPadding := 0
  doCheckBuffer := true
  sizes := [1, 1]
  one_le_sizes := by simp
  isSgTransfer := false
  dmaFlags := dmaPrepInterrupt ||| dmaCtrlAck
  timeout := 1000

/-- Two laps whose descriptors complete in different orders. -/
theorem lapDiscipline_twoLaps :
    ∃ s, (transferMachine twoLaps).Reachable s ∧ completes s.log = 1 ∧ LapDiscipline 2 2 s := by
  have hreach := Machine.Reachable.exec (M := transferMachine twoLaps)
    (.init ⟨pattern, pattern, _, rfl, rfl⟩)
    [.work 0 0, .completion 1 pattern pattern, .completion 0 pattern pattern, .work 0 0,
      .completion 0 pattern pattern, .completion 1 pattern pattern] rfl
  exact ⟨_, hreach, by decide, lapDiscipline_of_reachable (by decide) rfl (by decide) rfl hreach⟩

end SnowballLtp.Dma
