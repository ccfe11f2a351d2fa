import SnowballLtp.Dma.LinkRun
import SnowballLtp.Dma.ParallelRun

/-!
# Freeing what the engine still uses

`tc_run_parallel` and `tc_link_core` destroy their buffer lists, and free the array that holds
them, behind their waits. A wait that a signal ends early lets them do so in the middle of a lap.
And a wait that returns with its completion says nothing about the watchdog: `transmit_cb` stops
its timer, but where the timer has run out before that, `timed_out` stays queued, and the buffer
list may be destroyed before it has run. As long as neither happens, nothing of a buffer list is
outstanding when it is destroyed: no descriptor, no queued work item, no pending watchdog.

## Main definitions

* `ParallelRun.DestroysQuiescent`, `LinkRun.DestroysQuiescent`.
* `ParallelRun.WaitsOut`: the steps by which the process waits for all that is outstanding.

## Main results

* `destroysQuiescent_of_reachableVia`.
* `not_destroysQuiescent_interrupted`: a signal in the middle of the first lap.
* `not_destroysQuiescent_expired`: a watchdog that runs out shortly before the last completion.
-/

namespace SnowballLtp.Dma

/-- At `dmatest_buflist_destroy` nothing of the buffer list is outstanding, and at `kfree` nothing
of any of them. -/
structure ParallelRun.DestroysQuiescent (s : ParallelRun) : Prop where
  buflistDestroy : ∀ i t, s.pc = .buflistDestroy i → s.tc[i]? = some t → t.Quiescent
  kfree : s.pc = .kfree → ∀ t ∈ s.tc, t.Quiescent

/-- At `dmatest_buflist_destroy` nothing of the buffer list is outstanding, and at `kfree` nothing
of any of them. -/
structure LinkRun.DestroysQuiescent (s : LinkRun) : Prop where
  destroy : ∀ i t, s.pc = .destroy i → s.tc[i]? = some t → t.Quiescent
  kfree : s.pc = .kfree → ∀ t ∈ s.tc, t.Quiescent

/-- The channel that the process is waiting for. -/
def ParallelRun.waitedFor (s : ParallelRun) : Option Transfer :=
  match s.pc with
  | .wait i => s.tc[i]?
  | _ => none

/-- No wait is interrupted, and none returns while the watchdog of its channel has run out and
still waits to be run. -/
def ParallelRun.WaitsOut (s : ParallelRun) : ParallelLabel → Prop
  | .interrupt => False
  | .proc => ∀ t ∈ s.waitedFor, t.timedOut ≠ .expired
  | _ => True

instance (s : ParallelRun) : (l : ParallelLabel) → Decidable (s.WaitsOut l)
  | .interrupt => inferInstanceAs (Decidable False)
  | .proc => inferInstanceAs (Decidable (∀ t ∈ s.waitedFor, t.timedOut ≠ .expired))
  | .kzalloc _ | .tcTestInit .. | .chan .. => inferInstanceAs (Decidable True)

variable {tcp : TcParallel} {s s' : ParallelRun}

theorem ParallelRun.WaitsOut.notInterrupted {l : ParallelLabel} (h : s.WaitsOut l) :
    l.NotInterrupted := by
  cases l with
  | interrupt => exact h
  | _ => trivial

/-- **The waits** of such a process leave nothing outstanding. -/
theorem WaitedInv.next_quiescent (h : WaitedInv Transfer.Quiescent tcp s) {l : ParallelLabel}
    (hok : s.WaitsOut l) (hl : s.next tcp l = some s') :
    WaitedInv Transfer.Quiescent tcp s' := by
  refine h.next hok.notInterrupted hl (fun p i t hproc hpc hi ht hdone => ?_)
    fun p t t' l _ hquiet hstep => ?_
  · subst hproc
    have hdrained := ht.drained_of_completes (hdone.trans_le ht.done_le)
    have hnot : t.timedOut ≠ .expired := hok t (by
      rw [ParallelRun.waitedFor, hpc]
      exact hi)
    exact ⟨⟨hdrained.inFlight, hdrained.workQueued, hdrained.timer⟩, hnot⟩
  · rw [hquiet.next_eq_none] at hstep
    cases hstep

/-- A channel that the process has waited for, or never started, has nothing outstanding. -/
theorem WaitedInv.quiescent (h : WaitedInv Transfer.Quiescent tcp s) {i : ℕ} {t : Transfer}
    (hi : s.tc[i]? = some t)
    (hpc : s.pc.Started tcp.chanStartIndex i → s.pc.Waited tcp.chanStartIndex i) :
    t.Quiescent := by
  by_cases hst : s.pc.Started tcp.chanStartIndex i
  · exact h.waited i t hi (hpc hst)
  · obtain ⟨sizes, hs, ht⟩ := h.chanInv.inv t (List.mem_of_getElem? hi)
    exact ht.quiescent_of_notStarted (h.chanInv.notStarted i t hi hst)

theorem WaitedInv.destroysQuiescent (h : WaitedInv Transfer.Quiescent tcp s) :
    s.DestroysQuiescent where
  buflistDestroy i t hpc hi := h.quiescent hi (by simp [hpc, ParallelPc.Waited, ParallelPc.Started])
  kfree hpc t ht := by
    obtain ⟨i, hi⟩ := List.getElem?_of_mem ht
    exact h.quiescent hi (by simp [hpc, ParallelPc.Waited, ParallelPc.Started])

theorem LinkInv.destroysQuiescent {s : LinkRun} (h : LinkInv s) : s.DestroysQuiescent where
  destroy i t hpc hi := h.quiescent hi (by simp [hpc, LinkPc.Waited])
  kfree hpc t ht := by
    obtain ⟨i, hi⟩ := List.getElem?_of_mem ht
    exact h.quiescent hi (by simp [hpc, LinkPc.Waited])

/-- **Nothing is freed too early.** As long as no wait is interrupted, and no wait returns while the
watchdog of its list has run out and still waits to be run, `tc_run_parallel` and `tc_link_core`
destroy a buffer list, and free the array, only when nothing is outstanding. The watchdogs of
`tc_link_core` are never armed. -/
theorem destroysQuiescent_of_reachableVia (tcp : TcParallel) (cfg : TcLinkCfg) :
    (∀ s, (parallelMachine tcp).ReachableVia ParallelRun.WaitsOut s → s.DestroysQuiescent) ∧
    ∀ s, (linkMachine cfg).ReachableVia (fun _ l => l.NotInterrupted) s → s.DestroysQuiescent := by
  refine ⟨fun s h => ?_, fun s h => (linkInv_of_reachableVia h).destroysQuiescent⟩
  exact (h.invariant (fun _ => waitedInv_of_init) fun _ _ _ hI hok hl =>
    hI.next_quiescent hok hl).destroysQuiescent

/-- The configuration of `tc_32_run_1_parallel`. -/
def tc32Run1Parallel : TcParallel where
  maxChannels := 1
  laps := 20
  dmaFlags := dmaPrepInterrupt ||| dmaCtrlAck
  chanStartIndex := 0
  txAlign := 1
  constSize := -1
  listLen := 30
  timeout := defaultTimeout

/-- The configuration of `tc_55`. -/
def tc55 : TcLinkCfg where
  jobs := 2
  links := 5
  bufferSize := 4096
  startInSequence := false
  minSize := 0
  maxSize := 0

/-- A signal that arrives while the first lap is running. -/
theorem not_destroysQuiescent_interrupted :
    (¬ ∀ s, (parallelMachine tc32Run1Parallel).Reachable s → s.DestroysQuiescent) ∧
    ¬ ∀ s, (linkMachine tc55).Reachable s → s.DestroysQuiescent := by
  constructor
  · intro hall
    have hreach := Machine.Reachable.exec (M := parallelMachine tc32Run1Parallel) (.init rfl)
      [.kzalloc true, .tcTestInit true true (List.replicate 30 1) pattern pattern, .proc, .proc,
        .proc, .chan 0 (.work 0 0), .interrupt, .proc, .proc] rfl
    have hquiet := (hall _ hreach).buflistDestroy 0 _ rfl rfl
    exact absurd hquiet.inFlight (by decide)
  · intro hall
    have hreach := Machine.Reachable.exec (M := linkMachine tc55) (.init rfl)
      [.kmalloc true, .create true [] (List.replicate 5 0) pattern pattern 5 5,
        .create true [] (List.replicate 5 0) pattern pattern 5 5, .proc, .proc, .proc, .proc,
        .proc, .interrupt, .proc, .interrupt, .proc, .proc] rfl
    have hquiet := (hall _ hreach).destroy 0 _ rfl rfl
    exact absurd rfl hquiet.desc.2

/-- Without a signal: the timer of the watchdog runs out, the last descriptor completes, and the
process destroys the list before `timed_out` has run. -/
theorem not_destroysQuiescent_expired :
    ¬ ∀ s, (parallelMachine { tc32Run1Parallel with laps := 1, listLen := 1 }).ReachableVia
      (fun _ l => l.NotInterrupted) s → s.DestroysQuiescent := by
  intro hall
  have hinit : (parallelMachine { tc32Run1Parallel with laps := 1, listLen := 1 }).ReachableVia
      (fun _ l => l.NotInterrupted) _ := .init rfl
  have hreach := hinit.exec
    [.kzalloc true, .tcTestInit true true [1] pattern pattern, .proc, .proc, .proc,
      .chan 0 (.work 0 0), .chan 0 .timeout, .chan 0 (.completion 0 pattern pattern), .proc, .proc,
      .proc] rfl (by simp [ParallelLabel.NotInterrupted])
  have hquiet := (hall _ hreach).buflistDestroy 0 _ rfl rfl
  exact absurd rfl hquiet.notExpired

/-- One lap of one buffer and one linked job, without a signal, up to the first
`dmatest_buflist_destroy`. -/
theorem destroysQuiescent_one_lap :
    (∃ s, (parallelMachine { tc32Run1Parallel with laps := 1, listLen := 1 }).ReachableVia
      ParallelRun.WaitsOut s ∧ s.pc = .buflistDestroy 0 ∧ s.DestroysQuiescent) ∧
    ∃ s, (linkMachine { tc55 with jobs := 1 }).ReachableVia (fun _ l => l.NotInterrupted) s ∧
      s.pc = .destroy 0 ∧ s.DestroysQuiescent := by
  constructor
  · have hinit : (parallelMachine { tc32Run1Parallel with laps := 1, listLen := 1 }).ReachableVia
        ParallelRun.WaitsOut _ := .init rfl
    have hreach := hinit.execVia
      [.kzalloc true, .tcTestInit true true [1] pattern pattern, .proc, .proc, .proc,
        .chan 0 (.work 0 0), .chan 0 (.completion 0 pattern pattern), .proc, .proc, .proc] rfl
    exact ⟨_, hreach, rfl, (destroysQuiescent_of_reachableVia _ tc55).1 _ hreach⟩
  · have hinit : (linkMachine { tc55 with jobs := 1 }).ReachableVia
        (fun _ l => l.NotInterrupted) _ := .init rfl
    have hreach := hinit.exec
      [.kmalloc true, .create true [] (List.replicate 5 0) pattern pattern 5 5, .proc, .proc,
        .proc, .proc, .completion 0 pattern pattern, .proc, .proc, .proc] rfl
      (by simp [LinkLabel.NotInterrupted])
    exact ⟨_, hreach, rfl, (destroysQuiescent_of_reachableVia tc32Run1Parallel _).2 _ hreach⟩

end SnowballLtp.Dma
