import SnowballLtp.Dma.DeadLap
import SnowballLtp.Dma.LinkSizes
import SnowballLtp.Dma.PassVerdict

/-!
# A faithful engine passes

An engine that copies the buffers of each descriptor before it reports the descriptor as complete
passes the tests: no payload check of any lap fails, whatever the order of the completions. So
`tc_run_parallel` fails only for want of a channel, even when signals end its waits early. A
signal that ends a wait of `tc_link_core` makes it check a job that is not complete; without
signals it fails only for want of a channel, too, as long as the sizes are constant.

## Main definitions

* `Transfer.Faithful`, `ParallelRun.Faithful`, `LinkRun.Faithful`: the steps of such an engine.
* `FaithfulInv`, `FaithfulLinkInv`.

## Main results

* `FaithfulInv.next`: one channel.
* `tcRunParallel_faithful`, `tcLinkCore_faithful`: what the two functions return.
-/

namespace SnowballLtp.Dma

/-! ### One channel -/

/-- A completion leaves the sources as they are and the buffers of the descriptor copied. -/
def Transfer.Faithful (s : Transfer) : Label → Prop
  | .completion i src dst => src = s.tc.buflist.listBufSrc ∧ dst = s.copied i
  | _ => True

/-- The invariant of a transfer by a faithful engine. No lap is dead. -/
structure FaithfulInv (p : TcParams) (s : Transfer) : Prop where
  inv : Inv p s
  inFlight_sub : ∀ i ∈ s.inFlight, i ∈ p.descs
  contents : Contents p 0 (workRuns s.log) s.inFlight s.tc.buflist.listBufSrc
    s.tc.buflist.listBufDst
  checks : ∀ r ∈ checks s.log, r = 0

section Channel

variable {p : TcParams} {t t' : Transfer}

/-- The payload check at the end of a lap. -/
theorem Contents.payloadCheckErr_eq_zero {lap : ℕ} {src dst : Buffers}
    (h : Contents p 0 lap [] src dst) (hlap : 1 ≤ lap) {bf : Buflist}
    (hn : bf.nbrBufs = p.listLen) (hsize : ∀ b, bf.sizeAt b = p.sizeAt b)
    (hsrc : bf.listBufSrc = src) (hdst : bf.listBufDst = dst) : payloadCheckErr bf = 0 := by
  rw [payloadCheckErr_eq_zero_iff]
  intro b hb j hj
  rw [hsrc, hdst]
  exact h.transferred (by decide) hlap b (hn ▸ hb) (fun _ => List.not_mem_nil) j (hsize b ▸ hj)

theorem FaithfulInv.of_tcTestInit {wq granted : Bool} {src dst : Buffers}
    (h : tcTestInit p wq granted src dst = .ok t) : FaithfulInv p t := by
  have hinv := inv_tcTestInit h
  have hns := notStarted_of_tcTestInit h
  have hchecks := hinv.checks_of_notStarted hns
  obtain ⟨rfl, rfl⟩ := tcTestInit_eq_ok h
  cases h
  have hset := hinv.setUp
  refine ⟨hinv, by simp, ⟨fun b hb j hj => ?_, by simp, fun _ hpos => ?_⟩,
    by simp [hchecks]⟩
  · exact srcIntact_dmatestBuflistAlloc _ b (hset.nbrBufs ▸ hb) j (hset.sizeAt_eq b ▸ hj)
  · have := hns.2
    omega

theorem FaithfulInv.tcTestRun (h : FaithfulInv p t) (hns : t.NotStarted) :
    FaithfulInv p (tcTestRun t) := by
  refine ⟨h.inv.tcTestRun hns, h.inFlight_sub, ?_, ?_⟩
  · simpa [Dma.tcTestRun, Transfer.queueWork] using h.contents
  · simpa [Dma.tcTestRun, Transfer.queueWork] using h.checks

theorem FaithfulInv.consume (h : FaithfulInv p t) : FaithfulInv p { t with done := t.done - 1 } :=
  ⟨h.inv.consume, h.inFlight_sub, h.contents, h.checks⟩

/-- The completion of a descriptor that has been copied. -/
theorem FaithfulInv.runCompletion (h : FaithfulInv p t) {i : ℕ} (hi : i ∈ t.inFlight)
    {src dst : Buffers} (hfaithful : t.Faithful (.completion i src dst)) :
    FaithfulInv p (t.runCompletion i src dst) := by
  have hinv := h.inv.runCompletion hi src dst
  have hsub (j : ℕ) (hj : j ∈ t.inFlight.erase i) : j ∈ p.descs :=
    h.inFlight_sub j (List.mem_of_mem_erase hj)
  have hruns := h.inv.workRuns_of_mem hi
  have hcontents : Contents p 0 (workRuns t.log) (t.inFlight.erase i) src dst := by
    obtain ⟨rfl, rfl⟩ := hfaithful
    refine h.contents.copied hruns (by omega) fun b hb j hj => ?_
    have hcovers := h.inv.setUp.covers_iff (h.inFlight_sub i hi) b
    simp only [Transfer.copied, h.inv.setUp.sizeAt_eq, hcovers, hj, and_true]
  obtain ⟨-, heq⟩ | ⟨hnil, heq⟩ := h.inv.runCompletion_cases hi src dst
  · rw [heq] at hinv ⊢
    refine ⟨hinv, hsub, ?_, ?_⟩
    · simpa [Transfer.calledBack] using hcontents
    · simpa [Transfer.log_calledBack] using h.checks
  · have hset := h.inv.setUp.calledBack i src dst
    rw [heq] at hinv ⊢
    refine ⟨hinv, by simpa [Transfer.inFlight_calledBack] using hsub, ?_, fun r hr => ?_⟩
    · simpa [Transfer.calledBack] using hcontents
    · rw [checks_tcWorkerEndLap] at hr
      cases hcheck : (t.calledBack i src dst).tc.doCheckBuffer with
      | false =>
        rw [tcWorkerCheck_of_not hcheck] at hr
        exact h.checks r (by simpa [Transfer.log_calledBack] using hr)
      | true =>
        rw [checks_tcWorkerCheck hcheck, List.mem_append, List.mem_singleton] at hr
        obtain hr | rfl := hr
        · exact h.checks r (by simpa [Transfer.log_calledBack] using hr)
        · rw [hnil] at hcontents
          exact hcontents.payloadCheckErr_eq_zero hruns hset.nbrBufs hset.sizeAt_eq rfl rfl

/-- **Every step of a faithful engine keeps the invariant.** -/
theorem FaithfulInv.next (h : FaithfulInv p t) {l : Label} (hfaithful : t.Faithful l)
    (hl : t.next l = some t') : FaithfulInv p t' := by
  cases l with
  | work a b =>
    obtain ⟨hq, rfl⟩ := Transfer.next_work_iff.mp hl
    have hinv := h.inv.runWork hq a b
    have hidle := h.inv.inFlight_of_queued hq
    have hcontents := h.contents
    rw [hidle] at hcontents
    rw [Transfer.runWork_eq h.inv.setUp] at hinv ⊢
    refine ⟨hinv, by simp [hidle], ?_, by simpa using h.checks⟩
    simpa [hidle] using! hcontents.work p.descs fun i hi => hi
  | completion i src dst =>
    obtain ⟨hi, rfl⟩ := Transfer.next_completion_iff.mp hl
    exact h.runCompletion hi hfaithful
  | timeout =>
    obtain ⟨hw, rfl⟩ := Transfer.next_timeout_iff.mp hl
    exact ⟨h.inv.runWatchdog hw, by simpa using h.inFlight_sub, by simpa using h.contents,
      by simpa using h.checks⟩

end Channel

/-! ### `tc_run_parallel` -/

section Parallel

variable {tcp : TcParallel} {s s' : ParallelRun}

/-- The steps of a run on a faithful engine: those of the channels are. -/
def ParallelRun.Faithful (s : ParallelRun) : ParallelLabel → Prop
  | .chan i l => ∀ t ∈ s.tc[i]?, t.Faithful l
  | _ => True

/-- The channels of a run on a faithful engine. -/
structure FaithfulChanInv (tcp : TcParallel) (s : ParallelRun) : Prop where
  chanInv : ChanInv tcp s
  faithful : ∀ t ∈ s.tc, ∃ sizes, ∃ h : tcp.SizesOk sizes, FaithfulInv (tcp.params h) t

/-- A step that replaces channel `i`. -/
theorem FaithfulChanInv.set (h : FaithfulChanInv tcp s) (hs' : ChanInv tcp s') {i : ℕ}
    {t t' : Transfer} (hi : s.tc[i]? = some t) (htc : s'.tc = s.tc.set i t')
    (ht' : ∀ p, FaithfulInv p t → FaithfulInv p t') : FaithfulChanInv tcp s' where
  chanInv := hs'
  faithful u hu := by
    rw [htc] at hu
    obtain hu | rfl := List.mem_or_eq_of_mem_set hu
    · exact h.faithful u hu
    · obtain ⟨sizes, hs, ht⟩ := h.faithful t (List.mem_of_getElem? hi)
      exact ⟨sizes, hs, ht' _ ht⟩

theorem FaithfulChanInv.next (h : FaithfulChanInv tcp s) {l : ParallelLabel}
    (hfaithful : s.Faithful l) (hl : s.next tcp l = some s') : FaithfulChanInv tcp s' := by
  have hs' := h.chanInv.next hl
  cases parallelStep_of_next hl with
  | initOk hs wq granted src dst t hpc ht =>
    refine ⟨hs', fun u hu => ?_⟩
    obtain hu | hu := List.mem_append.mp hu
    · exact h.faithful u hu
    · rw [List.mem_singleton.mp hu]
      exact ⟨_, hs, .of_tcTestInit ht⟩
  | start i t hpc hi =>
    have hns := h.chanInv.notStarted i t hi (by simp [hpc, ParallelPc.Started])
    exact h.set hs' hi rfl fun _ ht => ht.tcTestRun hns
  | wait i t hpc hi => exact h.set hs' hi rfl fun _ ht => ht.consume
  | chan i l t t' hi hd hstep =>
    exact h.set hs' hi rfl fun _ ht => ht.next (hfaithful t hi) hstep
  | kzalloc | initNone | initDone | startDone | interrupted | waitDone | destroyWorkqueue
  | destroyDone | buflistDestroy | collect | kfree => exact ⟨hs', h.faithful⟩

/-- Behind the first loop there is a channel, unless the test has failed. -/
def ParallelRun.Refused (s : ParallelRun) : Prop :=
  s.tc = [] → s.pc = .kzalloc ∨ s.pc = .init ∨ s.pc = .oops ∨
    s.err = -einval ∧ (s.pc = .kfree ∨ s.pc = .returned)

theorem ParallelRun.Refused.next (h : s.Refused) {l : ParallelLabel}
    (hl : s.next tcp l = some s') : s'.Refused := by
  intro hnil
  cases parallelStep_of_next hl with
  | kzalloc ok pc hpc hpc' => exact hpc'.elim (fun h => .inr (.inl h)) fun h => .inr (.inr (.inl h))
  | initOk => exact absurd hnil (by simp)
  | initNone => exact .inr (.inr (.inr ⟨rfl, .inl rfl⟩))
  | initDone _ hpc hne => exact absurd hnil hne
  | start i t hpc hi | wait i t hpc hi | chan i l t t' hi =>
    rw [List.set_eq_nil_iff] at hnil
    simp [hnil] at hi
  | startDone i hpc | interrupted i hpc | waitDone i hpc | destroyWorkqueue i hpc
  | destroyDone i hpc | buflistDestroy i hpc | collect hpc =>
    have hpc' := h hnil
    simp [hpc] at hpc'
  | kfree hpc =>
    have hpc' := h hnil
    exact .inr (.inr (.inr ⟨by simpa [hpc] using hpc', .inr rfl⟩))

theorem refused_of_reachable (h : (parallelMachine tcp).Reachable s) : s.Refused := by
  refine h.invariant (fun s hs => ?_) fun s l s' hI _ hl => hI.next hl
  obtain rfl := hs
  exact fun _ => .inl rfl

/-- **A faithful engine passes `tc_run_parallel`.** Whatever signals the process receives and
however late the watchdogs are, the function returns 0 unless it got no channel at all. -/
theorem tcRunParallel_faithful (h : (parallelMachine tcp).ReachableVia ParallelRun.Faithful s)
    (hpc : s.pc = .returned) : s.err = if s.tc = [] then -einval else 0 := by
  have hinv : FaithfulChanInv tcp s := by
    refine h.invariant (fun s hs => ?_) fun s l s' hI hok hl => hI.next hok hl
    obtain rfl := hs
    exact ⟨⟨by simp, by simp, by simp⟩, by simp⟩
  have hreach : (parallelMachine tcp).Reachable s := h.mono fun _ _ _ => trivial
  split_ifs with hnil
  · simpa [hpc] using refused_of_reachable hreach hnil
  · by_contra hne
    obtain ⟨t, ht, r, hlast, hr⟩ := (err_ne_zero_iff hreach hpc hnil).mp hne
    obtain ⟨sizes, hs, hfaithful⟩ := hinv.faithful t ht
    exact hr (hfaithful.checks r (List.mem_of_getLast? hlast))

/-- A channel that copies its buffer, and is not waited for. -/
theorem tcRunParallel_faithful_one :
    ∃ s, (parallelMachine oneLapOneChannel).ReachableVia ParallelRun.Faithful s ∧
      s.pc = .returned ∧ s.tc ≠ [] ∧ s.err = 0 := by
  have h₀ : (parallelMachine oneLapOneChannel).ReachableVia ParallelRun.Faithful _ := .init rfl
  have h₁ := h₀.step (ParallelLabel.kzalloc true) trivial rfl
  have h₂ := h₁.step (ParallelLabel.tcTestInit true true [1] pattern pattern) trivial rfl
  have h₃ := h₂.step ParallelLabel.proc trivial rfl
  have h₄ := h₃.step ParallelLabel.proc trivial rfl
  have h₅ := h₄.step ParallelLabel.proc trivial rfl
  have h₆ := h₅.step ParallelLabel.interrupt trivial rfl
  have h₇ := h₆.step (ParallelLabel.chan 0 (.work 0 0)) (fun _ _ => trivial) rfl
  have h₈ := h₇.step (ParallelLabel.chan 0 (.completion 0 _ _))
    (fun t ht => by obtain rfl := Option.some.inj ht; exact ⟨rfl, rfl⟩) rfl
  have h₉ := h₈.step ParallelLabel.proc trivial rfl
  have h₁₀ := h₉.step ParallelLabel.proc trivial rfl
  have h₁₁ := h₁₀.step ParallelLabel.proc trivial rfl
  have h₁₂ := h₁₁.step ParallelLabel.proc trivial rfl
  have h₁₃ := h₁₂.step ParallelLabel.proc trivial rfl
  have h₁₄ := h₁₃.step ParallelLabel.proc trivial rfl
  exact ⟨_, h₁₄, rfl, List.cons_ne_nil _ _, tcRunParallel_faithful h₁₄ rfl⟩

end Parallel

/-! ### `tc_link_core` -/

section Link

variable {cfg : TcLinkCfg} {s s' : LinkRun}

/-- The size of each buffer, when the sizes are constant. -/
def TcLinkCfg.constSize (cfg : TcLinkCfg) : ℤ := align cfg.bufferSize txAlign

/-- The steps of a run on a faithful engine: no wait is interrupted, and a completion leaves the
sources as they are and the buffers of the job copied. -/
def LinkRun.Faithful (cfg : TcLinkCfg) (s : LinkRun) : LinkLabel → Prop
  | .interrupt => False
  | .completion i src dst => ∀ t ∈ s.tc[i]?, src = t.buflist.listBufSrc ∧
      ∀ b < cfg.links, ∀ j < cfg.constSize.toNat, dst b j = src b j
  | _ => True

theorem LinkRun.Faithful.notInterrupted {l : LinkLabel} (h : s.Faithful cfg l) :
    l.NotInterrupted := by
  cases l with
  | interrupt => exact h
  | _ => trivial

/-- What a faithful engine leaves of a job. -/
structure TcLink.Copied (cfg : TcLinkCfg) (t : TcLink) : Prop where
  listSize : t.buflist.listSize = List.replicate cfg.links cfg.constSize ++ [-1]
  check : t.desc = .completed → payloadCheckErr t.buflist = 0

/-- The invariant of a run on a faithful engine. -/
structure FaithfulLinkInv (cfg : TcLinkCfg) (s : LinkRun) : Prop where
  linkInv : LinkInv s
  copied : ∀ t ∈ s.tc, t.Copied cfg
  err : s.err = 0 ∨ s.err = -einval ∧ s.tc = [] ∧ (s.pc = .kfree ∨ s.pc = .returned)

/-- The payload check of a job that has been copied. -/
theorem payloadCheckErr_of_copied (hsize : 1 ≤ cfg.constSize) {bf : Buflist}
    (hlist : bf.listSize = List.replicate cfg.links cfg.constSize ++ [-1])
    (hcopied : ∀ b < cfg.links, ∀ j < cfg.constSize.toNat, bf.listBufDst b j = bf.listBufSrc b j) :
    payloadCheckErr bf = 0 := by
  have hentries : bf.entries = List.replicate cfg.links cfg.constSize :=
    Buflist.entries_of_listSize (by simp [hsize]) hlist
  rw [payloadCheckErr_eq_zero_iff]
  intro b hb j hj
  rw [Buflist.nbrBufs, hentries, List.length_replicate] at hb
  refine hcopied b hb j ?_
  simpa [Buflist.sizeAt, hentries, hb] using hj

theorem FaithfulLinkInv.err_eq (h : FaithfulLinkInv cfg s)
    (hpc : s.pc ≠ .kfree ∧ s.pc ≠ .returned) : s.err = 0 :=
  h.err.resolve_right fun hrefused => hrefused.2.2.elim hpc.1 hpc.2

/-- A step of the process that leaves the jobs alone. -/
theorem FaithfulLinkInv.of_pc (h : FaithfulLinkInv cfg s) (hs' : LinkInv s') (htc : s'.tc = s.tc)
    (herr : s'.err = s.err) (hpc : s.pc ≠ .kfree ∧ s.pc ≠ .returned) :
    FaithfulLinkInv cfg s' :=
  ⟨hs', htc ▸ h.copied, .inl (herr.trans (h.err_eq hpc))⟩

/-- A step that replaces job `i`. -/
theorem FaithfulLinkInv.set (h : FaithfulLinkInv cfg s) (hs' : LinkInv s') {i : ℕ} {t' : TcLink}
    (htc : s'.tc = s.tc.set i t') (ht' : t'.Copied cfg) (herr : s'.err = 0) :
    FaithfulLinkInv cfg s' where
  linkInv := hs'
  copied u hu := by
    rw [htc] at hu
    obtain hu | rfl := List.mem_or_eq_of_mem_set hu
    · exact h.copied u hu
    · exact ht'
  err := .inl herr

theorem TcLink.Copied.issue {t : TcLink} (h : t.Copied cfg) : t.issue.Copied cfg where
  listSize := h.listSize
  check hdesc := by
    refine h.check ?_
    rw [TcLink.issue] at hdesc
    split_ifs at hdesc
    exact hdesc

/-- The jobs behind an iteration of the first loop. -/
theorem copied_of_create (hconst : ¬cfg.Random) (h : ∀ u ∈ s.tc, u.Copied cfg) {t : TcLink}
    (ht : t.desc = .prepared) (sizes : List ℤ) (a b : ℕ) :
    ∀ u ∈ (LinkRun.storeSizes cfg (s.tc ++ [t]) s.tc.length sizes).modify s.tc.length
      (TcLink.prepare · a b), u.Copied cfg := by
  have hstore : LinkRun.storeSizes cfg (s.tc ++ [t]) s.tc.length sizes =
      s.tc ++ [t.setSizes (List.replicate cfg.links cfg.constSize)] :=
    (if_neg hconst).trans (modify_length_concat _ _ _)
  intro u hu
  rw [hstore, modify_length_concat] at hu
  obtain hu | hu := List.mem_append.mp hu
  · exact h u hu
  · rw [List.mem_singleton.mp hu]
    exact ⟨rfl, fun hdesc => by simp [TcLink.prepare, TcLink.setSizes, ht] at hdesc⟩

/-- **Every step on a faithful engine keeps the invariant.** -/
theorem FaithfulLinkInv.next (h : FaithfulLinkInv cfg s) (hconst : ¬cfg.Random)
    (hsize : 1 ≤ cfg.constSize) {l : LinkLabel} (hfaithful : s.Faithful cfg l)
    (hl : s.next cfg l = some s') : FaithfulLinkInv cfg s' := by
  have hs' := h.linkInv.next hfaithful.notInterrupted hl
  cases linkStep_of_next hl with
  | kmalloc ok pc hpc => exact h.of_pc hs' rfl rfl (by simp [hpc])
  | createError _ err hpc hchan =>
    have hnil : s.tc = [] := by
      by_contra hne
      simp [h.linkInv.chan hpc hne] at hchan
    obtain ⟨hpc', -⟩ | ⟨-, herr⟩ | ⟨hpc', -⟩ := create_cases hpc hl
    · cases hpc'
    · exact ⟨hs', h.copied, .inr ⟨herr, hnil, .inl rfl⟩⟩
    · cases hpc'
  | create _ t tc sizes a b hpc ht htc =>
    refine ⟨hs', ?_, .inl rfl⟩
    rw [htc]
    exact copied_of_create hconst h.copied ht.2.2 sizes a b
  | createDone hpc => exact h.of_pc hs' rfl rfl (by simp [hpc])
  | submit i t pc hpc hi hpc' =>
    have ht := h.copied t (List.mem_of_getElem? hi)
    exact h.set hs' rfl ⟨ht.listSize, by simp [TcLink.submit]⟩ (h.err_eq (by simp [hpc]))
  | submitDone i pc hpc | waitDone i hpc | destroy i hpc | destroyDone i hpc =>
    exact h.of_pc hs' rfl rfl (by simp [hpc])
  | issueOne i hpc | issueAll pc hpc =>
    refine ⟨hs', fun u hu => ?_, .inl (h.err_eq (by simp [hpc]))⟩
    obtain ⟨t, ht, rfl⟩ := List.mem_map.mp hu
    exact (h.copied t ht).issue
  | wait i t hpc hi =>
    have ht := h.copied t (List.mem_of_getElem? hi)
    exact h.set hs' rfl ⟨ht.listSize, ht.check⟩ (h.err_eq (by simp [hpc]))
  | interrupted => exact hfaithful.elim
  | check i t hpc hi =>
    have hdone := h.linkInv.waited i t hi (by simp [hpc, LinkPc.Waited])
    refine ⟨hs', h.copied, .inl ?_⟩
    rw [h.err_eq (by simp [hpc]), (h.copied t (List.mem_of_getElem? hi)).check hdone]
    rfl
  | kfree hpc =>
    exact ⟨hs', h.copied, h.err.imp_right fun hrefused => ⟨hrefused.1, hrefused.2.1, .inr rfl⟩⟩
  | completion i t src dst hi hissued =>
    obtain ⟨rfl, hcopied⟩ := hfaithful t hi
    have hlist := (h.copied t (List.mem_of_getElem? hi)).listSize
    refine ⟨hs', fun u hu => ?_, h.err.imp_right fun hrefused => ?_⟩
    · obtain hu | rfl := List.mem_or_eq_of_mem_set hu
      · exact h.copied u hu
      · exact ⟨hlist, fun _ => payloadCheckErr_of_copied hsize hlist hcopied⟩
    · simp [hrefused.2.1] at hi

/-- **A faithful engine passes `tc_link_core`.** With constant sizes, and without a signal, the
function returns 0 unless it got no channel for its first job. -/
theorem tcLinkCore_faithful (hconst : ¬cfg.Random) (hsize : 1 ≤ cfg.constSize)
    (h : (linkMachine cfg).ReachableVia (LinkRun.Faithful cfg) s) :
    s.err = 0 ∨ s.err = -einval ∧ s.tc = [] := by
  have hinv : FaithfulLinkInv cfg s := by
    refine h.invariant (fun s hs => ?_) fun s l s' hI hok hl => hI.next hconst hsize hok hl
    obtain rfl := hs
    exact ⟨⟨by simp, by simp, by simp, by simp, by simp⟩, by simp, .inl rfl⟩
  exact hinv.err.imp_right fun hrefused => ⟨hrefused.1, hrefused.2.1⟩

/-- A job that copies its buffer. -/
theorem tcLinkCore_faithful_one :
    ∃ s, (linkMachine oneJob).ReachableVia (LinkRun.Faithful oneJob) s ∧ s.pc = .returned ∧
      s.tc ≠ [] ∧ (s.err = 0 ∨ s.err = -einval ∧ s.tc = []) := by
  have h₀ : (linkMachine oneJob).ReachableVia (LinkRun.Faithful oneJob) _ := .init rfl
  have h₁ := h₀.step (LinkLabel.kmalloc true) trivial rfl
  have h₂ := h₁.step (LinkLabel.create true [0, 0] [1] pattern pattern 1 1) trivial rfl
  have h₃ := h₂.step LinkLabel.proc trivial rfl
  have h₄ := h₃.step LinkLabel.proc trivial rfl
  have h₅ := h₄.step LinkLabel.proc trivial rfl
  have h₆ := h₅.step LinkLabel.proc trivial rfl
  have h₇ := h₆.step (LinkLabel.completion 0 _ _)
    (fun t ht => by obtain rfl := Option.some.inj ht; exact ⟨rfl, fun _ _ _ _ => rfl⟩) rfl
  have h₈ := h₇.step LinkLabel.proc trivial rfl
  have h₉ := h₈.step LinkLabel.proc trivial rfl
  have h₁₀ := h₉.step LinkLabel.proc trivial rfl
  have h₁₁ := h₁₀.step LinkLabel.proc trivial rfl
  have h₁₂ := h₁₁.step LinkLabel.proc trivial rfl
  have h₁₃ := h₁₂.step LinkLabel.proc trivial rfl
  exact ⟨_, h₁₃, rfl, List.cons_ne_nil _ _, tcLinkCore_faithful (by decide) (by decide) h₁₃⟩

end Link

end SnowballLtp.Dma
