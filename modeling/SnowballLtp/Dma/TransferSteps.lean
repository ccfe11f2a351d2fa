import SnowballLtp.Dma.Transfer

/-!
# What each step of a transfer does

The steps of `SnowballLtp.Dma.Transfer` in closed form, for a transfer that was set up by
`tc_test_init` (`SetUp`). Everything later about runs is proved from these equations; the
functions of the source are unfolded nowhere else.

The trace of a run is read through four projections: the runs of the work item, the callbacks,
the calls of `complete`, and the list of the results of the payload checks. The calls into the
DMA API and the scheduling calls are *quiet*: the projections do not see them.

## Main definitions

* `workRuns`, `callbacks`, `completes`, `checks`; `Quiet`.
* `SetUp`: what `tc_test_init` fixes for the whole run.
* `TcParams.descs`, `startedBuflist`, `startLog`; `Transfer.calledBack`.

## Main results

* `Transfer.runWork_eq`, `Transfer.runCompletion_eq`, `tcWorkerCheck_eq`,
  `tcWorkerEndLap_of_last`, `tcWorkerEndLap_of_not_last`.
-/

namespace SnowballLtp.Dma

/-! ### Reading the trace -/

/-- The number of runs of the work item. -/
def workRuns (log : List Event) : ℕ := log.count .workStart

/-- Whether an event is a call of `transmit_cb`. -/
@[simp] def Event.isTransmitCb : Event → Bool
  | .transmitCb _ => true
  | _ => false

/-- The number of callbacks. -/
def callbacks (log : List Event) : ℕ := log.countP Event.isTransmitCb

/-- The number of calls of `complete (&tc->done)`. -/
def completes (log : List Event) : ℕ := log.count .complete

/-- The result of a payload check. -/
@[simp] def Event.checkResult : Event → Option ℤ
  | .payloadCheck _ err => some err
  | _ => none

/-- The results of the payload checks, in order. -/
def checks (log : List Event) : List ℤ := log.filterMap Event.checkResult

@[simp] theorem workRuns_nil : workRuns [] = 0 := rfl

@[simp] theorem callbacks_nil : callbacks [] = 0 := rfl

@[simp] theorem completes_nil : completes [] = 0 := rfl

@[simp] theorem checks_nil : checks [] = [] := rfl

@[simp] theorem workRuns_append (a b : List Event) :
    workRuns (a ++ b) = workRuns a + workRuns b := List.count_append

@[simp] theorem callbacks_append (a b : List Event) :
    callbacks (a ++ b) = callbacks a + callbacks b := List.countP_append

@[simp] theorem completes_append (a b : List Event) :
    completes (a ++ b) = completes a + completes b := List.count_append

@[simp] theorem checks_append (a b : List Event) : checks (a ++ b) = checks a ++ checks b :=
  List.filterMap_append

@[simp] theorem workRuns_cons (e : Event) (l : List Event) :
    workRuns (e :: l) = workRuns l + if e = .workStart then 1 else 0 := by
  simp [workRuns, List.count_cons]

@[simp] theorem callbacks_cons (e : Event) (l : List Event) :
    callbacks (e :: l) = callbacks l + if e.isTransmitCb then 1 else 0 := by
  simp [callbacks, List.countP_cons]

@[simp] theorem completes_cons (e : Event) (l : List Event) :
    completes (e :: l) = completes l + if e = .complete then 1 else 0 := by
  simp [completes, List.count_cons]

@[simp] theorem checks_cons (e : Event) (l : List Event) :
    checks (e :: l) = e.checkResult.toList ++ checks l := by
  cases e <;> rfl

/-- No event of the list is a run of the work item, a callback, a payload check or a call of
`complete`. -/
def Quiet (l : List Event) : Prop :=
  ∀ e ∈ l, e ≠ .workStart ∧ e.isTransmitCb = false ∧ e ≠ .complete ∧ e.checkResult = none

namespace Quiet

variable {l l' : List Event}

theorem workRuns_eq (h : Quiet l) : workRuns l = 0 :=
  List.count_eq_zero.mpr fun hmem => (h _ hmem).1 rfl

theorem callbacks_eq (h : Quiet l) : callbacks l = 0 :=
  List.countP_eq_zero.mpr fun e he => Bool.not_eq_true _ ▸ (h e he).2.1

theorem completes_eq (h : Quiet l) : completes l = 0 :=
  List.count_eq_zero.mpr fun hmem => (h _ hmem).2.2.1 rfl

theorem checks_eq (h : Quiet l) : checks l = [] :=
  List.filterMap_eq_nil_iff.mpr fun e he => (h e he).2.2.2

theorem nil : Quiet [] := fun _ he => absurd he List.not_mem_nil

theorem append (h : Quiet l) (h' : Quiet l') : Quiet (l ++ l') := fun e he =>
  (List.mem_append.mp he).elim (h e) (h' e)

theorem flatMap {α : Type*} {xs : List α} {f : α → List Event} (h : ∀ x ∈ xs, Quiet (f x)) :
    Quiet (xs.flatMap f) := fun e he =>
  have ⟨x, hx, hex⟩ := List.mem_flatMap.mp he
  h x hx e hex

end Quiet

theorem quiet_map_txSubmit (descs : List ℕ) : Quiet (descs.map .txSubmit) := by
  intro e he
  obtain ⟨i, -, rfl⟩ := List.mem_map.mp he
  simp

theorem quiet_startSingleMaps (bf : Buflist) : Quiet (startSingleMaps bf) := by
  unfold startSingleMaps
  split_ifs
  · refine Quiet.flatMap fun i _ => ?_
    simp [Quiet]
  · exact Quiet.nil

theorem quiet_payloadCheckUnmaps (bf : Buflist) : Quiet (payloadCheckUnmaps bf) := by
  refine (Quiet.append ?_ ?_).append (Quiet.flatMap fun i _ => Quiet.append ?_ ?_) <;>
    split_ifs <;> simp [Quiet]

theorem quiet_dmatestBuflistAlloc (bf : Buflist) : Quiet (dmatestBuflistAlloc bf).1 := by
  refine Quiet.flatMap fun i _ => ?_
  split_ifs <;> simp [Quiet]

/-! ### What the set-up fixes -/

/-- The descriptors that one run of the work item submits. -/
def TcParams.descs (p : TcParams) : List ℕ := if p.isSgTransfer then [0] else List.range p.listLen

theorem TcParams.length_descs (p : TcParams) : p.descs.length = p.perLap := by
  unfold TcParams.descs TcParams.perLap
  split_ifs <;> simp

/-- What `tc_test_init` fixes for the whole run of a transfer. -/
structure SetUp (p : TcParams) (s : Transfer) : Prop where
  nbrReturns : s.tc.nbrReturnsPerTransfer = p.perLap
  doCheckBuffer : s.tc.doCheckBuffer = p.doCheckBuffer
  callback : s.tc.callback = some .tcWorker
  workStart : s.tc.workStart =
    if p.isSgTransfer then .tcWorkerStartSg else .tcWorkerStartSingle
  listSize : s.tc.buflist.listSize = p.sizes ++ [-1]
  flags : s.tc.buflist.dmaEngineFlags = p.dmaFlags
  endPadding : s.tc.buflist.endPadding = p.endPadding

namespace SetUp

variable {p : TcParams} {s : Transfer} (h : SetUp p s)

include h

theorem entries : s.tc.buflist.entries = p.sizes :=
  Buflist.entries_of_listSize p.one_le_sizes h.listSize

theorem nbrBufs : s.tc.buflist.nbrBufs = p.listLen := congrArg List.length h.entries

theorem sizeAt (i : ℕ) : s.tc.buflist.sizeAt i = (p.sizes.getD i 0).toNat := by
  rw [Buflist.sizeAt, h.entries]

end SetUp

/-! ### Inverting a step -/

namespace Transfer

variable {s s' : Transfer}

theorem next_work_iff {a b : ℕ} :
    s.next (.work a b) = some s' ↔ s.workQueued = true ∧ s.runWork a b = s' := by
  simp [next]

theorem next_completion_iff {i : ℕ} {src dst : Buffers} :
    s.next (.completion i src dst) = some s' ↔
      i ∈ s.inFlight ∧ s.runCompletion i src dst = s' := by
  simp [next]

theorem next_timeout_iff :
    s.next .timeout = some s' ↔
      (s.timedOut = .pending ∨ s.timedOut = .expired) ∧ s.runWatchdog = s' := by
  simp [next]

end Transfer

section Reachable

variable {p : TcParams} {s : Transfer} (h : (transferMachine p).Reachable s)

include h

theorem reachable_runWork (hs : s.workQueued = true) (a b : ℕ) :
    (transferMachine p).Reachable (s.runWork a b) :=
  Machine.Reachable.step (l := .work a b) h (Transfer.next_work_iff.mpr ⟨hs, rfl⟩)

theorem reachable_runCompletion {i : ℕ} (hi : i ∈ s.inFlight) (src dst : Buffers) :
    (transferMachine p).Reachable (s.runCompletion i src dst) :=
  Machine.Reachable.step (l := .completion i src dst) h (Transfer.next_completion_iff.mpr ⟨hi, rfl⟩)

end Reachable

/-! ### The work item -/

/-- The buffer list after a run of the work item. -/
def startedBuflist (p : TcParams) (bf : Buflist) (sglSrcLen sglDstLen : ℕ) : Buflist :=
  { bf with
    isDmaPrepared := bf.isDmaPrepared || preparesDescs bf
    callback := some .tcWorker
    sglSrcLen := if p.isSgTransfer then sglSrcLen else 0
    sglDstLen := if p.isSgTransfer then sglDstLen else 0 }

/-- The mapping calls of a run of the work item. -/
def startMaps (p : TcParams) (bf : Buflist) : List Event :=
  if p.isSgTransfer then [.dmaMapSg .src, .dmaMapSg .dst] else startSingleMaps bf

theorem quiet_startMaps (p : TcParams) (bf : Buflist) : Quiet (startMaps p bf) := by
  unfold startMaps
  split_ifs
  · simp [Quiet]
  · exact quiet_startSingleMaps bf

/-- The trace of a run of the work item. -/
def startLog (p : TcParams) (bf : Buflist) : List Event :=
  .workStart :: (startMaps p bf ++ p.descs.map .txSubmit ++
    [.scheduleDelayedWork, .dmaAsyncIssuePending])

/-- **The work item.** One lap's descriptors are submitted and issued and the watchdog is
armed. -/
theorem Transfer.runWork_eq {p : TcParams} {s : Transfer} (h : SetUp p s) (a b : ℕ) :
    s.runWork a b = { s with
      workQueued := false
      inFlight := s.inFlight ++ p.descs
      timedOut := if s.timedOut = .expired then .expired else .pending
      tc := { s.tc with buflist := startedBuflist p s.tc.buflist a b }
      log := s.log ++ startLog p s.tc.buflist } := by
  have hw := h.workStart
  have hcb := h.callback
  cases hsg : p.isSgTransfer <;>
    simp [runWork, emit, hw, hsg, hcb, tcWorkerStartSingle, tcWorkerStartSg,
      dmatestBuflistStartSingle, dmatestBuflistStartSg, startedBuflist, startLog, startMaps,
      TcParams.descs, txSubmit, scheduleDelayedWork, h.nbrBufs]

/-! ### The watchdog -/

namespace Transfer

variable (s : Transfer)

@[simp] theorem tc_runWatchdog : s.runWatchdog.tc = s.tc := by
  rw [runWatchdog]
  split_ifs <;> rfl

@[simp] theorem workQueued_runWatchdog : s.runWatchdog.workQueued = s.workQueued := by
  rw [runWatchdog]
  split_ifs <;> rfl

@[simp] theorem inFlight_runWatchdog : s.runWatchdog.inFlight = s.inFlight := by
  rw [runWatchdog]
  split_ifs <;> rfl

@[simp] theorem done_runWatchdog : s.runWatchdog.done = s.done := by
  rw [runWatchdog]
  split_ifs <;> rfl

/-- The timer runs out first, then the work item runs. -/
theorem timedOut_runWatchdog :
    s.runWatchdog.timedOut = if s.timedOut = .pending then .expired else .fired := by
  rw [runWatchdog]
  split_ifs <;> rfl

/-- What the watchdog adds to the trace. -/
def watchdogLog : List Event := if s.timedOut = .pending then [] else [.transferTimedout]

theorem log_runWatchdog : s.runWatchdog.log = s.log ++ s.watchdogLog := by
  rw [runWatchdog, watchdogLog]
  split_ifs
  · exact (List.append_nil _).symm
  · rfl

theorem quiet_watchdogLog : Quiet s.watchdogLog := by
  rw [watchdogLog]
  split_ifs <;> simp [Quiet]

@[simp] theorem workRuns_runWatchdog : workRuns s.runWatchdog.log = workRuns s.log := by
  rw [log_runWatchdog, workRuns_append, s.quiet_watchdogLog.workRuns_eq, Nat.add_zero]

@[simp] theorem callbacks_runWatchdog : callbacks s.runWatchdog.log = callbacks s.log := by
  rw [log_runWatchdog, callbacks_append, s.quiet_watchdogLog.callbacks_eq, Nat.add_zero]

@[simp] theorem completes_runWatchdog : completes s.runWatchdog.log = completes s.log := by
  rw [log_runWatchdog, completes_append, s.quiet_watchdogLog.completes_eq, Nat.add_zero]

@[simp] theorem checks_runWatchdog : checks s.runWatchdog.log = checks s.log := by
  rw [log_runWatchdog, checks_append, s.quiet_watchdogLog.checks_eq, List.append_nil]

end Transfer

/-! ### The completion of a descriptor -/

/-- The state after the completion of descriptor `i` and the part of the callbacks that does not
depend on the lap being over: the watchdog cancelled and both counters advanced. -/
def Transfer.calledBack (s : Transfer) (i : ℕ) (src dst : Buffers) : Transfer :=
  { s with
    inFlight := s.inFlight.erase i
    timedOut := if s.timedOut = .pending then .idle else s.timedOut
    tc := { s.tc with
      jobCounter := s.tc.jobCounter + 1
      buflist := { s.tc.buflist with
        listBufSrc := src
        listBufDst := dst
        finishedJobs := s.tc.buflist.finishedJobs + 1 } }
    log := s.log ++ [.transmitCb i, .cancelDelayedWork] }

theorem Transfer.inFlight_calledBack (s : Transfer) (i : ℕ) (src dst : Buffers) :
    (s.calledBack i src dst).inFlight = s.inFlight.erase i := rfl

theorem Transfer.log_calledBack (s : Transfer) (i : ℕ) (src dst : Buffers) :
    (s.calledBack i src dst).log = s.log ++ [.transmitCb i, .cancelDelayedWork] := rfl

/-- **The callback.** After the last descriptor of a lap the buffers are checked and the lap
ends. -/
theorem Transfer.runCompletion_eq {s : Transfer} (h : s.tc.buflist.callback = some .tcWorker)
    (i : ℕ) (src dst : Buffers) :
    s.runCompletion i src dst =
      if s.tc.jobCounter + 1 = s.tc.nbrReturnsPerTransfer then
        tcWorkerEndLap (tcWorkerCheck (s.calledBack i src dst))
      else s.calledBack i src dst := by
  simp [runCompletion, transmitCb, cancelDelayedWork, emit, h, tcWorker, calledBack]

/-- The check of `tc_worker`, when it is asked for. -/
theorem tcWorkerCheck_eq {s : Transfer} (h : s.tc.doCheckBuffer = true) :
    tcWorkerCheck s = { s with
      tc := { s.tc with err := payloadCheckErr s.tc.buflist }
      log := s.log ++ (payloadCheckUnmaps s.tc.buflist ++
        [.payloadCheck s.inFlight.length (payloadCheckErr s.tc.buflist)]) } := by
  simp [tcWorkerCheck, h, dmatestBuflistPayloadCheck, Transfer.emit]

theorem tcWorkerCheck_of_not {s : Transfer} (h : s.tc.doCheckBuffer = false) :
    tcWorkerCheck s = s := by
  simp [tcWorkerCheck, h]

/-- **The payload check.** It sets `tc->err` and appends to the trace; its result is recorded
exactly when a check was asked for. -/
theorem tcWorkerCheck_spec (s : Transfer) : ∃ err chk,
    tcWorkerCheck s = { s with tc := { s.tc with err := err }, log := s.log ++ chk } ∧
      workRuns chk = 0 ∧ callbacks chk = 0 ∧ completes chk = 0 ∧
      (∀ m r, .payloadCheck m r ∈ chk → m = s.inFlight.length) ∧
      if s.tc.doCheckBuffer then err = payloadCheckErr s.tc.buflist ∧ checks chk = [err]
      else err = s.tc.err ∧ checks chk = [] := by
  cases h : s.tc.doCheckBuffer with
  | false =>
    refine ⟨s.tc.err, [], ?_, rfl, rfl, rfl, fun _ _ hm => absurd hm List.not_mem_nil, rfl, rfl⟩
    simp [tcWorkerCheck_of_not h]
  | true =>
    have hq := quiet_payloadCheckUnmaps s.tc.buflist
    refine ⟨_, _, tcWorkerCheck_eq h, ?_, ?_, ?_, ?_, rfl, ?_⟩
    · simp [hq.workRuns_eq]
    · simp [hq.callbacks_eq]
    · simp [hq.completes_eq]
    · intro m r hm
      rcases List.mem_append.mp hm with hm | hm
      · simpa using (hq _ hm).2.2.2
      · simpa using (Event.payloadCheck.inj (List.mem_singleton.mp hm)).1
    · simp [hq.checks_eq]

/-- What the payload check leaves in `tc->err` is the last result that it recorded. -/
theorem tcWorkerCheck_err (s : Transfer) : ∃ err chk,
    tcWorkerCheck s = { s with tc := { s.tc with err := err }, log := s.log ++ chk } ∧
      workRuns chk = 0 ∧ callbacks chk = 0 ∧ completes chk = 0 ∧
      (∀ m r, .payloadCheck m r ∈ chk → m = s.inFlight.length) ∧
      err = (checks chk).getLast?.getD s.tc.err ∧ (∀ r ∈ checks chk, r = 0 ∨ r = -1) ∧
      (s.tc.doCheckBuffer = true → (checks chk).length = 1) := by
  obtain ⟨err, chk, heq, hruns, hcallbacks, hcompletes, hidle, hres⟩ := tcWorkerCheck_spec s
  refine ⟨err, chk, heq, hruns, hcallbacks, hcompletes, hidle, ?_, fun r hr => ?_, fun hd => ?_⟩
  · split_ifs at hres <;> simp [hres.2, hres.1]
  · split_ifs at hres
    · rw [hres.2, List.mem_singleton] at hr
      rw [hr, hres.1, payloadCheckErr_eq]
      split_ifs <;> simp
    · simp [hres.2] at hr
  · rw [if_pos hd] at hres
    simp [hres.2]

/-- The end of the last lap. -/
theorem tcWorkerEndLap_of_last {s : Transfer} (h : s.tc.laps = 1) :
    tcWorkerEndLap s = { s with
      tc := { s.tc with laps := 0 }
      done := s.done + 1
      log := s.log ++ [.complete] } := by
  simp [tcWorkerEndLap, h, Transfer.complete]

/-- The end of any other lap. -/
theorem tcWorkerEndLap_of_not_last {s : Transfer} (h : s.tc.laps ≠ 1) :
    tcWorkerEndLap s = { s with
      tc := { s.tc with
        laps := s.tc.laps - 1
        jobCounter := 0
        buflist := { s.tc.buflist with finishedJobs := 0, sentJobs := 0 } }
      workQueued := true
      log := s.log ++ [.queueWork] } := by
  have hne : s.tc.laps - 1 ≠ 0 := by omega
  simp [tcWorkerEndLap, hne, Transfer.queueWork, dmatestBuflistResetNbrFinished]

section EndLap

variable (s : Transfer)

theorem log_tcWorkerCheck {s : Transfer} (h : s.tc.doCheckBuffer = true) :
    (tcWorkerCheck s).log = s.log ++ (payloadCheckUnmaps s.tc.buflist ++
      [.payloadCheck s.inFlight.length (payloadCheckErr s.tc.buflist)]) := by
  rw [tcWorkerCheck_eq h]

@[simp] theorem inFlight_tcWorkerCheck : (tcWorkerCheck s).inFlight = s.inFlight := by
  obtain ⟨err, chk, heq, -⟩ := tcWorkerCheck_spec s
  rw [heq]

@[simp] theorem listBufSrc_tcWorkerCheck :
    (tcWorkerCheck s).tc.buflist.listBufSrc = s.tc.buflist.listBufSrc := by
  obtain ⟨err, chk, heq, -⟩ := tcWorkerCheck_spec s
  rw [heq]

@[simp] theorem listBufDst_tcWorkerCheck :
    (tcWorkerCheck s).tc.buflist.listBufDst = s.tc.buflist.listBufDst := by
  obtain ⟨err, chk, heq, -⟩ := tcWorkerCheck_spec s
  rw [heq]

@[simp] theorem isDmaPrepared_tcWorkerCheck :
    (tcWorkerCheck s).tc.buflist.isDmaPrepared = s.tc.buflist.isDmaPrepared := by
  obtain ⟨err, chk, heq, -⟩ := tcWorkerCheck_spec s
  rw [heq]

@[simp] theorem workRuns_tcWorkerCheck : workRuns (tcWorkerCheck s).log = workRuns s.log := by
  obtain ⟨err, chk, heq, hruns, -⟩ := tcWorkerCheck_spec s
  simp [heq, hruns]

theorem checks_tcWorkerCheck {s : Transfer} (h : s.tc.doCheckBuffer = true) :
    checks (tcWorkerCheck s).log = checks s.log ++ [payloadCheckErr s.tc.buflist] := by
  simp [log_tcWorkerCheck h, (quiet_payloadCheckUnmaps _).checks_eq]

/-- The end of a lap as one state change: it touches neither the buffers nor the descriptors. -/
theorem tcWorkerEndLap_cases :
    (s.tc.laps = 1 ∧ (tcWorkerEndLap s).log = s.log ++ [.complete]) ∨
      (s.tc.laps ≠ 1 ∧ (tcWorkerEndLap s).log = s.log ++ [.queueWork]) := by
  by_cases hl : s.tc.laps = 1
  · exact Or.inl ⟨hl, by rw [tcWorkerEndLap_of_last hl]⟩
  · exact Or.inr ⟨hl, by rw [tcWorkerEndLap_of_not_last hl]⟩

@[simp] theorem inFlight_tcWorkerEndLap : (tcWorkerEndLap s).inFlight = s.inFlight := by
  by_cases hl : s.tc.laps = 1
  · rw [tcWorkerEndLap_of_last hl]
  · rw [tcWorkerEndLap_of_not_last hl]

@[simp] theorem listBufSrc_tcWorkerEndLap :
    (tcWorkerEndLap s).tc.buflist.listBufSrc = s.tc.buflist.listBufSrc := by
  by_cases hl : s.tc.laps = 1
  · rw [tcWorkerEndLap_of_last hl]
  · rw [tcWorkerEndLap_of_not_last hl]

@[simp] theorem listBufDst_tcWorkerEndLap :
    (tcWorkerEndLap s).tc.buflist.listBufDst = s.tc.buflist.listBufDst := by
  by_cases hl : s.tc.laps = 1
  · rw [tcWorkerEndLap_of_last hl]
  · rw [tcWorkerEndLap_of_not_last hl]

@[simp] theorem isDmaPrepared_tcWorkerEndLap :
    (tcWorkerEndLap s).tc.buflist.isDmaPrepared = s.tc.buflist.isDmaPrepared := by
  by_cases hl : s.tc.laps = 1
  · rw [tcWorkerEndLap_of_last hl]
  · rw [tcWorkerEndLap_of_not_last hl]

@[simp] theorem workRuns_tcWorkerEndLap :
    workRuns (tcWorkerEndLap s).log = workRuns s.log := by
  rcases tcWorkerEndLap_cases s with ⟨-, h⟩ | ⟨-, h⟩ <;> simp [h]

@[simp] theorem checks_tcWorkerEndLap : checks (tcWorkerEndLap s).log = checks s.log := by
  rcases tcWorkerEndLap_cases s with ⟨-, h⟩ | ⟨-, h⟩ <;> simp [h]

end EndLap

end SnowballLtp.Dma
