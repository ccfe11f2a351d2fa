import SnowballLtp.Dma.PassVerdict

/-!
# Every run of parallel channels ends

A run of `tc_run_parallel` comes to its end whatever the order in which the process, the engines,
the watchdogs and the signals take their steps. Every step lowers a rank: a step of the process
brings it nearer to its return, and of the steps that a channel may still take in its laps one is
used up. And as long as the process has not returned, it is its turn, or it waits for a channel
that has a work item or a descriptor left.

## Main definitions

* `Transfer.remaining`, `ParallelRun.rank`: how many steps there may be.
* `EndInv`: where the process is, and what its channels have signalled.
* `ParallelLabel.Driven`: the steps that need neither a signal nor the watchdog.

## Main results

* `EndInv.exists_next`: the process has returned, or somebody takes a step.
* `tcRunParallel_ends`: the length of a run, and where it may stop.
-/

namespace SnowballLtp.Dma

/-! ### The steps left to a channel -/

/-- The steps left to the watchdog: its timer runs out, and its work item runs. -/
def DelayedWork.remaining : DelayedWork → ℕ
  | .pending => 2
  | .expired => 1
  | .idle | .fired => 0

/-- A bound for the steps of a transfer: in each lap the work item, a completion for each
descriptor, and the two steps of the watchdog. -/
def Transfer.remaining (laps perLap : ℕ) (t : Transfer) : ℕ :=
  (laps - workRuns t.log) * (perLap + 3) + t.inFlight.length + t.timedOut.remaining

section Channel

variable {p : TcParams} {t t' : Transfer}

@[simp] theorem timedOut_tcWorkerCheck (t : Transfer) :
    (tcWorkerCheck t).timedOut = t.timedOut := by
  obtain ⟨err, chk, heq, -⟩ := tcWorkerCheck_spec t
  rw [heq]

@[simp] theorem timedOut_tcWorkerEndLap (t : Transfer) :
    (tcWorkerEndLap t).timedOut = t.timedOut := by
  by_cases hl : t.tc.laps = 1
  · rw [tcWorkerEndLap_of_last hl]
  · rw [tcWorkerEndLap_of_not_last hl]

/-- A completion leaves no more steps to the watchdog. -/
theorem Inv.remaining_timedOut_runCompletion (h : Inv p t) {i : ℕ} (hi : i ∈ t.inFlight)
    (src dst : Buffers) :
    (t.runCompletion i src dst).timedOut.remaining ≤ t.timedOut.remaining := by
  have hcalled : (t.calledBack i src dst).timedOut.remaining ≤ t.timedOut.remaining := by
    rw [Transfer.calledBack]
    split_ifs with hw
    · exact Nat.zero_le _
    · exact le_rfl
  obtain ⟨-, heq⟩ | ⟨-, heq⟩ := h.runCompletion_cases hi src dst
  · rwa [heq]
  · rwa [heq, timedOut_tcWorkerEndLap, timedOut_tcWorkerCheck]

/-- A lap that is queued is one of those to come. -/
theorem Inv.workRuns_lt_of_queued (h : Inv p t) (hlaps : 1 ≤ p.laps) (hq : t.workQueued = true) :
    workRuns t.log < p.laps.toNat := by
  cases h.phase with
  | fresh hqueued => simp [hq] at hqueued
  | running k j hqueued => simp [hq] at hqueued
  | finished k hqueued => simp [hq] at hqueued
  | queued k _ _ _ _ _ _ hlast hruns => omega

/-- **A step of a channel** uses up one of the steps that it may take. -/
theorem Inv.remaining_lt (h : Inv p t) (hlaps : 1 ≤ p.laps) {l : Label}
    (hl : t.next l = some t') :
    t'.remaining p.laps.toNat p.perLap < t.remaining p.laps.toNat p.perLap := by
  cases l with
  | work a b =>
    obtain ⟨hq, rfl⟩ := Transfer.next_work_iff.mp hl
    have hlt := h.workRuns_lt_of_queued hlaps hq
    obtain ⟨m, hm⟩ : ∃ m, p.laps.toNat - workRuns t.log = m + 1 :=
      ⟨_, (Nat.succ_pred_eq_of_pos (Nat.sub_pos_of_lt hlt)).symm⟩
    have hm' : p.laps.toNat - (workRuns t.log + 1) = m := by omega
    have hwatch : (if t.timedOut = .expired then DelayedWork.expired else .pending).remaining ≤
        t.timedOut.remaining + 2 := by
      cases t.timedOut <;> decide
    rw [Transfer.runWork_eq h.setUp]
    simp only [Transfer.remaining, workRuns_append, workRuns_startLog, hm, hm',
      h.inFlight_of_queued hq, List.nil_append, p.length_descs, List.length_nil, Nat.add_mul]
    omega
  | completion i src dst =>
    obtain ⟨hi, rfl⟩ := Transfer.next_completion_iff.mp hl
    have hlen := List.length_erase_of_mem hi
    have hpos := List.length_pos_of_mem hi
    have hwatch := h.remaining_timedOut_runCompletion hi src dst
    simp only [Transfer.remaining, h.workRuns_runCompletion hi, h.inFlight_runCompletion hi, hlen]
    omega
  | timeout =>
    obtain ⟨hw, rfl⟩ := Transfer.next_timeout_iff.mp hl
    rw [Transfer.remaining, Transfer.remaining, t.workRuns_runWatchdog, t.inFlight_runWatchdog,
      t.timedOut_runWatchdog]
    refine Nat.add_lt_add_left ?_ _
    obtain hw | hw := hw
    · rw [if_pos hw, hw]
      decide
    · rw [if_neg (by simp [hw]), hw]
      decide

/-- A transfer that has been started and has not been completed has a step left. -/
theorem Inv.exists_next (h : Inv p t) (hlen : 1 ≤ p.perLap) (hstarted : ¬t.NotStarted)
    (hdone : completes t.log = 0) :
    ∃ l t', l ≠ .timeout ∧ t.next l = some t' := by
  cases h.phase with
  | fresh hqueued _ _ _ _ _ hruns => exact absurd ⟨hqueued, hruns⟩ hstarted
  | queued k hqueued =>
    exact ⟨.work 0 0, _, by simp, Transfer.next_work_iff.mpr ⟨hqueued, rfl⟩⟩
  | running k j hqueued hflight hj =>
    have hlt := hj (by omega)
    obtain ⟨i, hi⟩ := List.exists_mem_of_length_pos (l := t.inFlight) (by omega)
    exact ⟨.completion i t.tc.buflist.listBufSrc t.tc.buflist.listBufDst, _, by simp,
      Transfer.next_completion_iff.mpr ⟨hi, rfl⟩⟩
  | finished k _ _ _ _ _ _ _ _ hone => omega

/-- The completion is signalled when it is logged. -/
theorem Inv.done_next (h : Inv p t) (hdone : t.done = completes t.log) {l : Label}
    (hl : t.next l = some t') : t'.done = completes t'.log := by
  cases l with
  | work a b =>
    obtain ⟨hq, rfl⟩ := Transfer.next_work_iff.mp hl
    simpa [Transfer.runWork_eq h.setUp] using hdone
  | completion i src dst =>
    obtain ⟨hi, rfl⟩ := Transfer.next_completion_iff.mp hl
    obtain ⟨-, heq⟩ | ⟨-, heq⟩ := h.runCompletion_cases hi src dst
    · simpa [heq, Transfer.calledBack] using hdone
    · obtain ⟨err, chk, hchk, -, -, hcompletes, -⟩ := tcWorkerCheck_spec (t.calledBack i src dst)
      rw [heq, hchk]
      by_cases hlast : t.tc.laps = 1
      · rw [tcWorkerEndLap_of_last (by simpa [Transfer.calledBack] using hlast)]
        simp [Transfer.calledBack, hcompletes, hdone]
      · rw [tcWorkerEndLap_of_not_last (by simpa [Transfer.calledBack] using hlast)]
        simp [Transfer.calledBack, hcompletes, hdone]
  | timeout =>
    obtain ⟨-, rfl⟩ := Transfer.next_timeout_iff.mp hl
    simpa using hdone

end Channel

/-! ### The rank of a run -/

variable {tcp : TcParallel} {s s' : ParallelRun} {l : ParallelLabel}

namespace TcParallel

variable (tcp : TcParallel)

/-- A bound for the steps of one channel. -/
def chanSteps : ℕ := tcp.laps.toNat * (tcp.listLen + 3)

/-- A bound for the steps of the process from a place on, with the channels it still sets up. -/
def procSteps (channels : ℕ) : ParallelPc → ℕ
  | .kzalloc => (tcp.maxChannels - channels) * (tcp.chanSteps + 1) + 4 * tcp.maxChannels + 7
  | .init => (tcp.maxChannels - channels) * (tcp.chanSteps + 1) + 4 * tcp.maxChannels + 6
  | .start i => (tcp.maxChannels - i) + 3 * tcp.maxChannels + 5
  | .wait i => (tcp.maxChannels - i) + 2 * tcp.maxChannels + 4
  | .destroyWorkqueue i => 2 * (tcp.maxChannels - i) + 3
  | .buflistDestroy i => 2 * (tcp.maxChannels - i) + 2
  | .collect => 2
  | .kfree => 1
  | .returned | .oops => 0

end TcParallel

/-- A bound for the steps of a run from a state on. -/
def ParallelRun.rank (tcp : TcParallel) (s : ParallelRun) : ℕ :=
  tcp.procSteps s.tc.length s.pc + (s.tc.map (·.remaining tcp.laps.toNat tcp.listLen)).sum

/-- Something of the buffer lists is destroyed in the last but one loop, in turn. -/
def ParallelPc.Destroyed (destroyed : ℕ) : ParallelPc → Prop
  | .destroyWorkqueue i | .buflistDestroy i => destroyed ≤ i
  | .collect | .kfree | .returned => True
  | _ => destroyed = 0

/-- Where the process is, and what its channels have signalled. -/
structure EndInv (tcp : TcParallel) (s : ParallelRun) : Prop where
  chanInv : ChanInv tcp s
  length_le : s.tc.length ≤ tcp.maxChannels
  destroyed : s.pc.Destroyed s.destroyed
  wait_le : ∀ i, s.pc = .wait i → tcp.chanStartIndex ≤ i
  destroying : ∀ i, s.pc = .buflistDestroy i → i < s.tc.length
  started : ∀ i t, s.tc[i]? = some t → s.pc.Started tcp.chanStartIndex i → ¬t.NotStarted
  signalled : ∀ i t, s.tc[i]? = some t → ¬s.pc.Waited tcp.chanStartIndex i →
    t.done = completes t.log

/-! #### Where a step begins -/

/-- `tc_test_init` is called for one more channel. -/
theorem lt_maxChannels_of_next {wq granted : Bool} {sizes : List ℤ} {src dst : Buffers}
    (h : s.next tcp (.tcTestInit wq granted sizes src dst) = some s') :
    s.tc.length < tcp.maxChannels := by
  rw [ParallelRun.next] at h
  split_ifs at h with hs hpc
  exact hpc.2

/-- A signal ends a wait for some channel. -/
theorem lt_length_of_interrupt {i : ℕ} (hpc : s.pc = .wait i)
    (h : s.next tcp .interrupt = some s') : i < s.tc.length := by
  simp only [ParallelRun.next, hpc, Option.ite_none_right_eq_some] at h
  exact h.1

/-- The work queue that is destroyed belongs to some channel. -/
theorem lt_length_of_destroyWorkqueue {i : ℕ} (hpc : s.pc = .destroyWorkqueue i)
    (h : s.next tcp .proc = some s') (hpc' : s'.pc = .buflistDestroy i) : i < s.tc.length := by
  by_contra hge
  have hnone : s.tc[i]? = none := List.getElem?_eq_none_iff.mpr (Nat.le_of_not_lt hge)
  simp only [ParallelRun.next, ParallelRun.proc, hpc, hnone, Option.some.injEq] at h
  rw [← h] at hpc'
  cases hpc'

/-! #### What every step keeps -/

/-- A channel that has been set up has signalled nothing. -/
theorem Inv.done_of_notStarted {p : TcParams} {t : Transfer} (h : Inv p t) (ht : t.NotStarted) :
    t.done = completes t.log := by
  have hle := h.done_le
  cases h.phase with
  | fresh _ _ _ _ _ _ _ _ _ hzero => omega
  | queued k hqueued => simp [ht.1] at hqueued
  | running k j _ _ _ _ _ _ _ _ _ hruns => have := ht.2; omega
  | finished k _ _ _ _ hpos hruns => have := ht.2; omega

/-- A step of the process that leaves the channels alone. -/
theorem EndInv.of_pc (h : EndInv tcp s) (hs' : ChanInv tcp s') (htc : s'.tc = s.tc)
    (hdestroyed : s'.pc.Destroyed s'.destroyed)
    (hwait : ∀ i, s'.pc = .wait i → tcp.chanStartIndex ≤ i)
    (hdestroying : ∀ i, s'.pc = .buflistDestroy i → i < s.tc.length)
    (hstarted : ∀ i < s.tc.length, s'.pc.Started tcp.chanStartIndex i →
      s.pc.Started tcp.chanStartIndex i)
    (hwaited : ∀ i < s.tc.length, s.pc.Waited tcp.chanStartIndex i →
      s'.pc.Waited tcp.chanStartIndex i) : EndInv tcp s' where
  chanInv := hs'
  length_le := htc ▸ h.length_le
  destroyed := hdestroyed
  wait_le := hwait
  destroying := htc ▸ hdestroying
  started i t hi hst := by
    rw [htc] at hi
    obtain ⟨hlt, -⟩ := List.getElem?_eq_some_iff.mp hi
    exact h.started i t hi (hstarted i hlt hst)
  signalled i t hi hw := by
    rw [htc] at hi
    obtain ⟨hlt, -⟩ := List.getElem?_eq_some_iff.mp hi
    exact h.signalled i t hi (mt (hwaited i hlt) hw)

/-- A step that replaces channel `i`. -/
theorem EndInv.set (h : EndInv tcp s) (hs' : ChanInv tcp s') {i : ℕ} {t' : Transfer}
    (htc : s'.tc = s.tc.set i t') (hdestroyed : s'.pc.Destroyed s'.destroyed)
    (hwait : ∀ j, s'.pc = .wait j → tcp.chanStartIndex ≤ j)
    (hdestroying : ∀ j, s'.pc = .buflistDestroy j → j < s.tc.length)
    (hstarted : ∀ j, j ≠ i → s'.pc.Started tcp.chanStartIndex j →
      s.pc.Started tcp.chanStartIndex j)
    (hwaited : ∀ j, j ≠ i → s.pc.Waited tcp.chanStartIndex j → s'.pc.Waited tcp.chanStartIndex j)
    (ht' : s'.pc.Started tcp.chanStartIndex i → ¬t'.NotStarted)
    (hdone : ¬s'.pc.Waited tcp.chanStartIndex i → t'.done = completes t'.log) :
    EndInv tcp s' where
  chanInv := hs'
  length_le := by
    rw [htc, List.length_set]
    exact h.length_le
  destroyed := hdestroyed
  wait_le := hwait
  destroying j hj := by
    rw [htc, List.length_set]
    exact hdestroying j hj
  started j u hj hst := by
    rw [htc] at hj
    obtain ⟨rfl, rfl⟩ | ⟨hne, hj⟩ := getElem?_set_cases hj
    · exact ht' hst
    · exact h.started j u hj (hstarted j hne hst)
  signalled j u hj hw := by
    rw [htc] at hj
    obtain ⟨rfl, rfl⟩ | ⟨hne, hj⟩ := getElem?_set_cases hj
    · exact hdone hw
    · exact h.signalled j u hj (mt (hwaited j hne) hw)

/-- **Every step keeps the invariant.** -/
theorem EndInv.next (h : EndInv tcp s) (hl : s.next tcp l = some s') : EndInv tcp s' := by
  have hs' := h.chanInv.next hl
  have hdestroyed := h.destroyed
  cases parallelStep_of_next hl with
  | kzalloc ok pc hpc hpc' =>
    rw [hpc] at hdestroyed
    obtain rfl | rfl := hpc'
    · exact h.of_pc hs' rfl hdestroyed (by simp) (by simp) (fun _ _ hst => hst.elim)
        (by simp [hpc, ParallelPc.Waited])
    · exact h.of_pc hs' rfl hdestroyed (by simp) (by simp) (fun _ _ hst => hst.elim)
        (by simp [hpc, ParallelPc.Waited])
  | initOk hs wq granted src dst t hpc ht =>
    have hlt := lt_maxChannels_of_next hl
    have hnew := (inv_tcTestInit ht).done_of_notStarted (notStarted_of_tcTestInit ht)
    refine ⟨hs', ?_, hdestroyed, by simp [hpc], by simp [hpc], fun i u _ hst => ?_,
      fun i u hi _ => ?_⟩
    · rw [List.length_append, List.length_singleton]
      exact hlt
    · simp [hpc, ParallelPc.Started] at hst
    · obtain hu | hu := List.mem_append.mp (List.mem_of_getElem? hi)
      · obtain ⟨j, hj⟩ := List.getElem?_of_mem hu
        exact h.signalled j u hj (by simp [hpc, ParallelPc.Waited])
      · rw [List.mem_singleton.mp hu]
        exact hnew
  | initNone _ hpc hnil =>
    exact h.of_pc hs' rfl trivial (by simp) (by simp) (by simp [hnil]) (by simp [hnil])
  | initDone _ hpc =>
    rw [hpc] at hdestroyed
    refine h.of_pc hs' rfl hdestroyed (by simp) (by simp) (fun i _ hst => ?_)
      (by simp [hpc, ParallelPc.Waited])
    simp only [ParallelPc.Started] at hst
    omega
  | start i t hpc hi =>
    rw [hpc] at hdestroyed
    refine h.set hs' rfl hdestroyed (by simp) (by simp) (fun j hne hst => ?_)
      (by simp [hpc, ParallelPc.Waited]) (fun _ hns => ?_) fun _ => ?_
    · simp only [hpc, ParallelPc.Started] at hst ⊢
      omega
    · simpa [tcTestRun, Transfer.queueWork] using hns.1
    · simpa [tcTestRun, Transfer.queueWork] using
        h.signalled i t hi (by simp [hpc, ParallelPc.Waited])
  | startDone i hpc hi =>
    rw [hpc] at hdestroyed
    refine h.of_pc hs' rfl hdestroyed (fun j hj => (ParallelPc.wait.inj hj).le) (by simp)
      (fun j hj hst => ?_) (by simp [hpc, ParallelPc.Waited])
    simp only [hpc, ParallelPc.Started] at hst ⊢
    omega
  | wait i t hpc hi hdone =>
    have hle := h.wait_le i hpc
    rw [hpc] at hdestroyed
    refine h.set hs' rfl hdestroyed (fun j hj => ?_) (by simp) (fun j _ hst => ?_)
      (fun j _ hw => ?_) (fun hst => ?_) fun hw => ?_
    · simp only [ParallelPc.wait.injEq] at hj
      omega
    · simpa [hpc, ParallelPc.Started] using hst
    · simp only [hpc, ParallelPc.Waited] at hw ⊢
      omega
    · exact h.started i t hi (by simpa [hpc, ParallelPc.Started] using hst)
    · exact absurd ⟨hle, Nat.lt_succ_self i⟩ hw
  | interrupted i hpc =>
    have hle := h.wait_le i hpc
    rw [hpc] at hdestroyed
    refine h.of_pc hs' rfl hdestroyed (fun j hj => ?_) (by simp) (fun j _ hst => ?_)
      fun j _ hw => ?_
    · simp only [ParallelPc.wait.injEq] at hj
      omega
    · simpa [hpc, ParallelPc.Started] using hst
    · simp only [hpc, ParallelPc.Waited] at hw ⊢
      omega
  | waitDone i hpc hi =>
    rw [hpc] at hdestroyed
    refine h.of_pc hs' rfl hdestroyed.le (by simp) (by simp) (fun j _ hst => ?_) fun j _ hw => ?_
    · simpa [hpc, ParallelPc.Started] using hst
    · simp only [hpc, ParallelPc.Waited] at hw ⊢
      exact hw.1
  | destroyWorkqueue i hpc =>
    rw [hpc] at hdestroyed
    refine h.of_pc hs' rfl hdestroyed (by simp) (fun j hj => ?_)
      (by simp [hpc, ParallelPc.Started]) (by simp [hpc, ParallelPc.Waited])
    obtain rfl := ParallelPc.buflistDestroy.inj hj
    exact lt_length_of_destroyWorkqueue hpc hl rfl
  | destroyDone i hpc =>
    exact h.of_pc hs' rfl trivial (by simp) (by simp) (by simp [hpc, ParallelPc.Started])
      (by simp [hpc, ParallelPc.Waited])
  | buflistDestroy i hpc =>
    exact h.of_pc hs' rfl (Nat.le_refl _) (by simp) (by simp) (by simp [hpc, ParallelPc.Started])
      (by simp [hpc, ParallelPc.Waited])
  | collect hpc | kfree hpc =>
    exact h.of_pc hs' rfl trivial (by simp) (by simp) (by simp [hpc, ParallelPc.Started])
      (by simp [hpc, ParallelPc.Waited])
  | chan i l t t' hi hd hstep =>
    obtain ⟨sizes, hs, ht⟩ := h.chanInv.inv t (List.mem_of_getElem? hi)
    exact h.set hs' rfl hdestroyed h.wait_le h.destroying (fun _ _ hst => hst)
      (fun _ _ hw => hw) (fun hst => ht.not_notStarted (h.started i t hi hst) hstep)
      fun hw => ht.done_next (h.signalled i t hi hw) hstep

/-! #### What every step uses up -/

/-- A channel that has just been set up has all its laps in front of it. -/
theorem remaining_of_tcTestInit {sizes : List ℤ} (hs : tcp.SizesOk sizes) {wq granted : Bool}
    {src dst : Buffers} {t : Transfer}
    (ht : tcTestInit (tcp.params hs) wq granted src dst = .ok t) :
    t.remaining tcp.laps.toNat tcp.listLen = tcp.chanSteps := by
  have hidle : t.timedOut = .idle := by
    obtain ⟨rfl, rfl⟩ := tcTestInit_eq_ok ht
    cases ht
    rfl
  have hquiet := (inv_tcTestInit ht).quiescent_of_notStarted (notStarted_of_tcTestInit ht)
  rw [Transfer.remaining, (notStarted_of_tcTestInit ht).2, hquiet.inFlight, hidle]
  rfl

/-- A step of the process that leaves the channels alone. -/
theorem ParallelRun.rank_lt_of_pc (htc : s'.tc = s.tc)
    (hlt : tcp.procSteps s.tc.length s'.pc < tcp.procSteps s.tc.length s.pc) :
    s'.rank tcp < s.rank tcp := by
  rw [ParallelRun.rank, ParallelRun.rank, htc]
  exact Nat.add_lt_add_right hlt _

/-- A step that replaces channel `i`. -/
theorem ParallelRun.rank_lt_of_set {i : ℕ} {t t' : Transfer} (hi : s.tc[i]? = some t)
    (htc : s'.tc = s.tc.set i t')
    (hlt : tcp.procSteps s.tc.length s'.pc + t'.remaining tcp.laps.toNat tcp.listLen <
      tcp.procSteps s.tc.length s.pc + t.remaining tcp.laps.toNat tcp.listLen) :
    s'.rank tcp < s.rank tcp := by
  have hsum := sum_map_set (b := t') (fun t => t.remaining tcp.laps.toNat tcp.listLen) hi
  rw [ParallelRun.rank, ParallelRun.rank, htc, List.length_set]
  omega

/-- **Every step lowers the rank.** -/
theorem EndInv.rank_lt (h : EndInv tcp s) (hlaps : 1 ≤ tcp.laps)
    (hl : s.next tcp l = some s') : s'.rank tcp < s.rank tcp := by
  have hlen := h.length_le
  cases parallelStep_of_next hl with
  | kzalloc ok pc hpc hpc' =>
    refine ParallelRun.rank_lt_of_pc rfl ?_
    obtain rfl | rfl := hpc'
    · simp only [TcParallel.procSteps, hpc]
      omega
    · simp only [TcParallel.procSteps, hpc]
      omega
  | initOk hs wq granted src dst t hpc ht =>
    obtain ⟨k, hk⟩ : ∃ k, tcp.maxChannels - s.tc.length = k + 1 :=
      ⟨_, (Nat.succ_pred_eq_of_pos (Nat.sub_pos_of_lt (lt_maxChannels_of_next hl))).symm⟩
    have hk' : tcp.maxChannels - (s.tc.length + 1) = k := by omega
    simp only [ParallelRun.rank, TcParallel.procSteps, hpc, List.map_append, List.sum_append,
      List.length_append, List.map_singleton, List.sum_singleton, List.length_singleton,
      remaining_of_tcTestInit hs ht, hk, hk', Nat.add_mul]
    omega
  | initNone _ hpc | initDone _ hpc | startDone i hpc hi | destroyWorkqueue i hpc
  | waitDone i hpc hi | destroyDone i hpc | collect hpc | kfree hpc =>
    refine ParallelRun.rank_lt_of_pc rfl ?_
    simp only [TcParallel.procSteps, hpc]
    omega
  | start i t hpc hi =>
    obtain ⟨hlt, -⟩ := List.getElem?_eq_some_iff.mp hi
    have hruns : workRuns (tcTestRun t).log = workRuns t.log := by
      simp [tcTestRun, Transfer.queueWork]
    have hsame : (tcTestRun t).remaining tcp.laps.toNat tcp.listLen =
        t.remaining tcp.laps.toNat tcp.listLen := by
      rw [Transfer.remaining, hruns]
      rfl
    refine ParallelRun.rank_lt_of_set hi rfl ?_
    rw [hsame]
    simp only [TcParallel.procSteps, hpc]
    omega
  | wait i t hpc hi hdone =>
    obtain ⟨hlt, -⟩ := List.getElem?_eq_some_iff.mp hi
    refine ParallelRun.rank_lt_of_set hi rfl (Nat.add_lt_add_right ?_ _)
    simp only [TcParallel.procSteps, hpc]
    omega
  | interrupted i hpc =>
    have hlt := lt_length_of_interrupt hpc hl
    refine ParallelRun.rank_lt_of_pc rfl ?_
    simp only [TcParallel.procSteps, hpc]
    omega
  | buflistDestroy i hpc =>
    have hlt := h.destroying i hpc
    refine ParallelRun.rank_lt_of_pc rfl ?_
    simp only [TcParallel.procSteps, hpc]
    omega
  | chan i l t t' hi hd hstep =>
    obtain ⟨sizes, hs, ht⟩ := h.chanInv.inv t (List.mem_of_getElem? hi)
    have hlt := ht.remaining_lt hlaps hstep
    have hperLap : (tcp.params hs).perLap = tcp.listLen := hs.2.1
    rw [hperLap] at hlt
    exact ParallelRun.rank_lt_of_set hi rfl (Nat.add_lt_add_left hlt _)

/-! ### Where a run stops -/

/-- The steps that are taken of themselves: neither a signal nor the watchdog makes them. -/
def ParallelLabel.Driven : ParallelLabel → Prop
  | .interrupt | .chan _ .timeout => False
  | _ => True

/-- **Somebody takes a step**, until the process has returned or has followed a null pointer. -/
theorem EndInv.exists_next (h : EndInv tcp s) (hlen : 1 ≤ tcp.listLen)
    (hsizes : ∃ sizes, tcp.SizesOk sizes) :
    (∃ l s', l.Driven ∧ s.next tcp l = some s') ∨ s.pc = .returned ∨ s.pc = .oops := by
  have hdestroyed := h.destroyed
  have hproc (hsome : (s.proc tcp).isSome) :
      ∃ l s', ParallelLabel.Driven l ∧ s.next tcp l = some s' := by
    obtain ⟨s', hs'⟩ := Option.isSome_iff_exists.mp hsome
    exact ⟨.proc, s', trivial, hs'⟩
  have hchan {i : ℕ} {t t' : Transfer} (hi : s.tc[i]? = some t) (hd : s.destroyed ≤ i) {l : Label}
      (hl : l ≠ .timeout) (ht' : t.next l = some t') :
      ∃ l s', ParallelLabel.Driven l ∧ s.next tcp l = some s' := by
    refine ⟨.chan i l, { s with tc := s.tc.set i t' }, ?_, ?_⟩
    · cases l with
      | timeout => exact absurd rfl hl
      | _ => trivial
    · simp [ParallelRun.next, hi, hd, ht']
  cases hpc : s.pc with
  | kzalloc => exact .inl ⟨.kzalloc true, _, trivial, if_pos hpc⟩
  | init =>
    refine .inl ?_
    by_cases hlt : s.tc.length < tcp.maxChannels
    · obtain ⟨sizes, hs⟩ := hsizes
      refine ⟨.tcTestInit true true sizes pattern pattern,
        s.tcTestInit tcp hs true true pattern pattern, trivial, ?_⟩
      rw [ParallelRun.next, dif_pos hs, if_pos ⟨hpc, hlt⟩]
    · exact hproc (by simp [ParallelRun.proc, hpc, hlt])
  | start i =>
    refine .inl ?_
    cases hi : s.tc[i]? with
    | none => exact hproc (by simp [ParallelRun.proc, hpc, hi])
    | some t => exact hproc (by simp [ParallelRun.proc, hpc, hi])
  | wait i =>
    refine .inl ?_
    cases hi : s.tc[i]? with
    | none => exact hproc (by simp [ParallelRun.proc, hpc, hi])
    | some t =>
      by_cases hdone : 0 < t.done
      · exact hproc (by simp [ParallelRun.proc, hpc, hi, hdone])
      · -- the channel that the process waits for has been started and has not been completed
        have hzero : completes t.log = 0 := by
          have hsignalled := h.signalled i t hi (by simp [hpc, ParallelPc.Waited])
          omega
        have hstarted := h.started i t hi (by
          rw [hpc]
          exact h.wait_le i hpc)
        obtain ⟨sizes, hs, ht⟩ := h.chanInv.inv t (List.mem_of_getElem? hi)
        obtain ⟨l, t', hl, ht'⟩ := ht.exists_next (hlen.trans_eq hs.2.1.symm) hstarted hzero
        rw [hpc] at hdestroyed
        exact hchan hi (hdestroyed.le.trans (Nat.zero_le i)) hl ht'
  | destroyWorkqueue i =>
    refine .inl ?_
    cases hi : s.tc[i]? with
    | none => exact hproc (by simp [ParallelRun.proc, hpc, hi])
    | some t =>
      by_cases hq : t.workQueued = true
      · rw [hpc] at hdestroyed
        exact hchan hi hdestroyed (l := .work 0 0) (by simp) (Transfer.next_work_iff.mpr ⟨hq, rfl⟩)
      · exact hproc (by simp [ParallelRun.proc, hpc, hi, hq])
  | buflistDestroy i | collect | kfree =>
    exact .inl (hproc (by simp [ParallelRun.proc, hpc]))
  | returned => exact .inr (.inl rfl)
  | oops => exact .inr (.inr rfl)

theorem endInv_of_init (h : (parallelMachine tcp).init s) : EndInv tcp s := by
  obtain rfl := h
  exact ⟨⟨by simp, by simp, by simp⟩, Nat.zero_le _, rfl, by simp, by simp, by simp, by simp⟩

/-- **Every run ends.** With at least one lap and one buffer, and sizes that can be stored, a run of
`tc_run_parallel` has no more steps than its channels have in their laps and the process has in
its five loops, whatever the order of the steps. Until the process has returned, or has followed
the null pointer that `kzalloc` may return, a step can be taken that needs neither a signal nor the
watchdog. -/
theorem tcRunParallel_ends {s₀ : ParallelRun} {ls : List ParallelLabel} (hlaps : 1 ≤ tcp.laps)
    (hlen : 1 ≤ tcp.listLen) (hsizes : ∃ sizes, tcp.SizesOk sizes)
    (hinit : (parallelMachine tcp).init s₀) (hrun : (parallelMachine tcp).exec s₀ ls = some s) :
    ls.length ≤ tcp.maxChannels * (tcp.laps.toNat * (tcp.listLen + 3) + 1) +
        4 * tcp.maxChannels + 7 ∧
      ((∃ l s', l.Driven ∧ (parallelMachine tcp).next s l = some s') ∨ s.pc = .returned ∨
        s.pc = .oops) := by
  obtain ⟨hinv, hle⟩ := Machine.exec_rank (ParallelRun.rank tcp) hrun
    (endInv_of_init hinit) fun _ _ _ hI hl => ⟨hI.next hl, hI.rank_lt hlaps hl⟩
  refine ⟨?_, hinv.exists_next hlen hsizes⟩
  have hrank : s₀.rank tcp = tcp.maxChannels * (tcp.laps.toNat * (tcp.listLen + 3) + 1) +
      4 * tcp.maxChannels + 7 := by
    obtain rfl := hinit
    rfl
  omega

/-- Up to the wait for a channel that has a descriptor in flight. -/
def waitingForOne : List ParallelLabel :=
  [.kzalloc true, .tcTestInit true true [1] pattern pattern, .proc, .proc, .proc,
    .chan 0 (.work 0 0)]

theorem tcRunParallel_ends_one :
    ∃ s, (parallelMachine oneLapOneChannel).exec
        { pc := .kzalloc, tc := [], destroyed := 0, err := 0 } waitingForOne = some s ∧
      s.pc = .wait 0 ∧
      ((∃ l s', l.Driven ∧ (parallelMachine oneLapOneChannel).next s l = some s') ∨
        s.pc = .returned ∨ s.pc = .oops) := by
  have hrun : (parallelMachine oneLapOneChannel).exec
      { pc := .kzalloc, tc := [], destroyed := 0, err := 0 } waitingForOne = some _ := rfl
  exact ⟨_, hrun, rfl,
    (tcRunParallel_ends (by decide) (by decide) ⟨[1], by decide⟩ rfl hrun).2⟩

end SnowballLtp.Dma
