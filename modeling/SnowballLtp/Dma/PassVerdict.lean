import SnowballLtp.Dma.LinkRun
import SnowballLtp.Dma.Verdict

/-!
# What a passed test has shown

`tc_run_parallel` and `tc_link_core` return zero for a passed test. A passed test should have
started a transfer, and every transfer that it started should have completed and passed its check.
There are four ways around it: the second loop of `tc_run_parallel` starts at an index that no
channel has, a lap that passes follows one that fails, a signal ends a wait, and the array of
`tc_link_core` cannot be allocated. In a run that takes none of them a zero means what it should.

## Main definitions

* `EarlierChecksPass`, `ParallelRun.Passes`, `LinkRun.Passes`.
* `ParallelRun.StepOk`, `LinkLabel.StepOk`: the steps that keep a zero meaningful.

## Main results

* `PassInv.next`, `parallelPasses_of_reachableVia`: the runs of `tc_run_parallel`.
* `LinkPassInv.next`, `linkPasses_of_reachableVia`: the runs of `tc_link_core`.
* `passes_of_reachableVia`: both together.
-/

namespace SnowballLtp.Dma

/-! ### The checks of one channel -/

/-- Every payload check but the last one passed. -/
def EarlierChecksPass (log : List Event) : Prop := ∀ r ∈ (checks log).dropLast, r = 0

section Channel

variable {p : TcParams} {t t' : Transfer}

/-- A step adds at most one check. -/
theorem Inv.exists_checks_next (h : Inv p t) {l : Label} (hl : t.next l = some t') :
    ∃ added : List ℤ, added.length ≤ 1 ∧ checks t'.log = checks t.log ++ added := by
  cases l with
  | work a b =>
    obtain ⟨-, rfl⟩ := Transfer.next_work_iff.mp hl
    exact ⟨[], Nat.zero_le _, by simp [Transfer.runWork_eq h.setUp]⟩
  | completion i src dst =>
    obtain ⟨hi, rfl⟩ := Transfer.next_completion_iff.mp hl
    rcases h.runCompletion_cases hi src dst with ⟨-, heq⟩ | ⟨-, heq⟩
    · exact ⟨[], Nat.zero_le _, by simp [heq, Transfer.log_calledBack]⟩
    · obtain ⟨err, chk, hchk, -, -, -, -, hres⟩ := tcWorkerCheck_spec (t.calledBack i src dst)
      refine ⟨checks chk, ?_, by simp [heq, hchk, Transfer.log_calledBack]⟩
      split_ifs at hres
      · rw [hres.2, List.length_singleton]
      · rw [hres.2]
        exact Nat.zero_le 1
  | timeout =>
    obtain ⟨-, rfl⟩ := Transfer.next_timeout_iff.mp hl
    exact ⟨[], Nat.zero_le _, by simp⟩

/-- When the last check passed as well, all of them did. -/
theorem Inv.checks_eq_zero (h : Inv p t) (hearlier : EarlierChecksPass t.log)
    (herr : t.tc.err = 0) : ∀ r ∈ checks t.log, r = 0 := by
  intro r hr
  have hne := List.ne_nil_of_mem hr
  rw [← List.dropLast_append_getLast hne] at hr
  rcases List.mem_append.mp hr with hr | hr
  · exact hearlier r hr
  · rw [h.err_eq, List.getLast?_eq_some_getLast hne] at herr
    exact (List.mem_singleton.mp hr).trans herr

/-- A channel whose last check passed takes a step. -/
theorem EarlierChecksPass.next (hearlier : EarlierChecksPass t.log) (h : Inv p t)
    (herr : t.tc.err = 0) {l : Label} (hl : t.next l = some t') : EarlierChecksPass t'.log := by
  have hzero := h.checks_eq_zero hearlier herr
  obtain ⟨added, hlen, hchecks⟩ := h.exists_checks_next hl
  unfold EarlierChecksPass
  rw [hchecks]
  match added, hlen with
  | [], _ => simpa using (show ∀ r ∈ (checks t.log).dropLast, r = 0 from hearlier)
  | [r], _ => simpa using hzero

/-- A transfer that has completed has been checked, when a check is asked for. -/
theorem Inv.checks_ne_nil (h : Inv p t) (hdo : p.doCheckBuffer = true)
    (hdone : 1 ≤ completes t.log) : checks t.log ≠ [] := by
  cases h.phase with
  | fresh _ _ _ _ _ _ _ _ _ hzero => omega
  | queued k _ _ _ _ _ _ _ _ _ _ hzero => omega
  | running k j _ _ _ _ _ _ _ _ _ _ _ _ hzero => omega
  | finished k _ _ _ _ hpos _ _ hchecks =>
    rw [← List.length_pos_iff, hchecks hdo]
    exact hpos

end Channel

/-! ### `tc_run_parallel` -/

section Parallel

variable {tcp : TcParallel} {s s' : ParallelRun}

/-- A zero that is returned means what it should: some channel has been started, and every channel
that has been started has completed its transfer and passed its checks. -/
def ParallelRun.Passes (tcp : TcParallel) (s : ParallelRun) : Prop :=
  s.pc = .returned → s.err = 0 → s.startedChannels tcp ≠ [] ∧
    ∀ t ∈ s.startedChannels tcp, 1 ≤ completes t.log ∧ checks t.log ≠ [] ∧
      ∀ r ∈ checks t.log, r = 0

/-- The steps that keep a zero meaningful: no wait is interrupted, a channel whose last check failed
takes no further step, and the second loop finds a channel to start. -/
def ParallelRun.StepOk (tcp : TcParallel) (s : ParallelRun) : ParallelLabel → Prop
  | .interrupt => False
  | .chan i _ => ∀ t ∈ s.tc[i]?, t.tc.err = 0
  | _ => s.pc = .start tcp.chanStartIndex → tcp.chanStartIndex < s.tc.length

instance (s : ParallelRun) : (l : ParallelLabel) → Decidable (s.StepOk tcp l)
  | .interrupt => inferInstanceAs (Decidable False)
  | .chan i _ => inferInstanceAs (Decidable (∀ t ∈ s.tc[i]?, t.tc.err = 0))
  | .kzalloc _ | .tcTestInit .. | .proc => inferInstanceAs (Decidable (_ → _))

/-- The process has not begun to start the channels from channel `c` on. -/
def ParallelPc.BeforeStart (c : ℕ) : ParallelPc → Prop
  | .kzalloc | .init | .oops => True
  | .start k => k = c
  | _ => False

/-- The invariant of such a run. -/
structure PassInv (tcp : TcParallel) (s : ParallelRun) : Prop where
  waitInv : WaitInv tcp s
  earlier : ∀ t ∈ s.tc, EarlierChecksPass t.log
  /-- Some channel is started, unless there is none at all. -/
  started : s.pc.BeforeStart tcp.chanStartIndex ∨ tcp.chanStartIndex < s.tc.length ∨
    (s.err ≠ 0 ∧ (s.pc = .kfree ∨ s.pc = .returned))

theorem ParallelRun.StepOk.notInterrupted {l : ParallelLabel} (h : s.StepOk tcp l) :
    l.NotInterrupted := by
  cases l with
  | interrupt => exact h
  | _ => trivial

theorem PassInv.lt_length (h : PassInv tcp s) (hpc : ¬ s.pc.BeforeStart tcp.chanStartIndex)
    (hover : s.pc ≠ .kfree ∧ s.pc ≠ .returned) : tcp.chanStartIndex < s.tc.length :=
  (h.started.resolve_left hpc).resolve_right fun ⟨_, hpc⟩ => hpc.elim hover.1 hover.2

/-- The second loop has found a channel to start. -/
theorem PassInv.lt_length_of_start (h : PassInv tcp s) {i : ℕ} (hpc : s.pc = .start i)
    (hok : s.StepOk tcp .proc) : tcp.chanStartIndex < s.tc.length := by
  by_cases hi : i = tcp.chanStartIndex
  · exact hok (hi ▸ hpc)
  · exact h.lt_length (by simpa [hpc, ParallelPc.BeforeStart] using hi) (by simp [hpc])

/-- A step that leaves the channels alone, behind the start of the first of them. -/
theorem PassInv.of_pc (h : PassInv tcp s) (hs' : WaitInv tcp s') (htc : s'.tc = s.tc)
    (hlt : tcp.chanStartIndex < s.tc.length) : PassInv tcp s' :=
  ⟨hs', htc ▸ h.earlier, Or.inr (Or.inl (htc ▸ hlt))⟩

/-- A step that replaces channel `i`. -/
theorem PassInv.set (h : PassInv tcp s) (hs' : WaitInv tcp s') {i : ℕ} {t' : Transfer}
    (htc : s'.tc = s.tc.set i t') (ht' : EarlierChecksPass t'.log)
    (hstarted : s'.pc.BeforeStart tcp.chanStartIndex ∨ tcp.chanStartIndex < s.tc.length ∨
      (s'.err ≠ 0 ∧ (s'.pc = .kfree ∨ s'.pc = .returned))) : PassInv tcp s' where
  waitInv := hs'
  earlier u hu := by
    rw [htc] at hu
    rcases List.mem_or_eq_of_mem_set hu with hu | rfl
    · exact h.earlier u hu
    · exact ht'
  started := by rwa [htc, List.length_set]

/-- **Every step that keeps a zero meaningful keeps the invariant.** -/
theorem PassInv.next (h : PassInv tcp s) {l : ParallelLabel} (hok : s.StepOk tcp l)
    (hl : s.next tcp l = some s') : PassInv tcp s' := by
  have hs' := h.waitInv.next hok.notInterrupted hl
  cases parallelStep_of_next hl with
  | kzalloc ok pc hpc hpc' =>
    exact ⟨hs', h.earlier, Or.inl (by rcases hpc' with rfl | rfl <;> trivial)⟩
  | initOk hs wq granted src dst t hpc ht =>
    refine ⟨hs', fun u hu => ?_, Or.inl (by simp [hpc, ParallelPc.BeforeStart])⟩
    rcases List.mem_append.mp hu with hu | hu
    · exact h.earlier u hu
    · have hnone := (inv_tcTestInit ht).checks_of_notStarted (notStarted_of_tcTestInit ht)
      rw [List.mem_singleton.mp hu, EarlierChecksPass, hnone]
      simp
  | initNone _ hpc hnil =>
    have hne : -einval ≠ 0 := by decide
    exact ⟨hs', h.earlier, Or.inr (Or.inr ⟨hne, Or.inl rfl⟩)⟩
  | initDone _ hpc => exact ⟨hs', h.earlier, Or.inl rfl⟩
  | start i t hpc hi =>
    have ht : checks (tcTestRun t).log = checks t.log := by simp [tcTestRun, Transfer.queueWork]
    refine h.set hs' rfl ?_ (Or.inr (Or.inl (h.lt_length_of_start hpc hok)))
    rw [EarlierChecksPass, ht]
    exact h.earlier t (List.mem_of_getElem? hi)
  | startDone i hpc hi => exact h.of_pc hs' rfl (h.lt_length_of_start hpc hok)
  | wait i t hpc hi hdone =>
    exact h.set hs' rfl (h.earlier t (List.mem_of_getElem? hi))
      (Or.inr (Or.inl (h.lt_length (by simp [hpc, ParallelPc.BeforeStart]) (by simp [hpc]))))
  | interrupted => exact hok.elim
  | waitDone i hpc | destroyWorkqueue i hpc | destroyDone i hpc | buflistDestroy i hpc
  | collect hpc =>
    exact h.of_pc hs' rfl (h.lt_length (by simp [hpc, ParallelPc.BeforeStart]) (by simp [hpc]))
  | kfree hpc =>
    refine ⟨hs', h.earlier, ?_⟩
    rcases h.started with hbefore | hlt | ⟨herr, -⟩
    · simp [hpc, ParallelPc.BeforeStart] at hbefore
    · exact Or.inr (Or.inl hlt)
    · exact Or.inr (Or.inr ⟨herr, Or.inr rfl⟩)
  | chan i l t t' hi hd hstep =>
    have herr := hok t hi
    obtain ⟨sizes, hs, ht⟩ := h.waitInv.chanInv.inv t (List.mem_of_getElem? hi)
    exact h.set hs' rfl ((h.earlier t (List.mem_of_getElem? hi)).next ht herr hstep) h.started

theorem passInv_of_reachableVia
    (h : (parallelMachine tcp).ReachableVia (ParallelRun.StepOk tcp) s) : PassInv tcp s := by
  refine h.invariant (fun s hs => ?_) fun s l s' hI hok hl => hI.next hok hl
  obtain rfl := hs
  exact ⟨⟨⟨by simp, by simp, by simp⟩, by simp⟩, by simp, Or.inl trivial⟩

/-- **A zero of `tc_run_parallel`** means what it should, in such a run. -/
theorem parallelPasses_of_reachableVia
    (h : (parallelMachine tcp).ReachableVia (ParallelRun.StepOk tcp) s) : s.Passes tcp := by
  intro hpc herr
  have hinv := passInv_of_reachableVia h
  have hlt : tcp.chanStartIndex < s.tc.length := by
    rcases hinv.started with hbefore | hlt | ⟨hne, -⟩
    · simp [hpc, ParallelPc.BeforeStart] at hbefore
    · exact hlt
    · exact absurd herr hne
  have hreach : (parallelMachine tcp).Reachable s := h.mono fun _ _ _ => trivial
  have hlast : ∀ t ∈ s.tc, ¬ LastCheckFailed t.log := fun t ht hfail =>
    (err_ne_zero_iff hreach hpc (List.ne_nil_of_mem ht)).mpr ⟨t, ht, hfail⟩ herr
  refine ⟨fun hnil => ?_, fun t ht => ?_⟩
  · rw [ParallelRun.startedChannels, List.drop_eq_nil_iff] at hnil
    omega
  · obtain ⟨i, hi⟩ := List.getElem?_of_mem ht
    rw [ParallelRun.startedChannels, List.getElem?_drop] at hi
    have hmem := List.mem_of_mem_drop ht
    obtain ⟨sizes, hs, hchan⟩ := hinv.waitInv.chanInv.inv t hmem
    have hdone := hinv.waitInv.waited _ t hi (by simp [hpc, ParallelPc.Waited])
    refine ⟨hdone, hchan.checks_ne_nil rfl hdone, hchan.checks_eq_zero (hinv.earlier t hmem) ?_⟩
    by_contra hne
    exact hlast t hmem (hchan.err_ne_zero_iff.mp hne)

end Parallel

/-! ### `tc_link_core` -/

section Link

variable {cfg : TcLinkCfg} {s s' : LinkRun}

/-- A zero that is returned means what it should: there is a job, and every job has completed and
passed its check. -/
def LinkRun.Passes (s : LinkRun) : Prop :=
  s.pc = .returned → s.err = 0 → s.tc ≠ [] ∧
    ∀ t ∈ s.tc, t.desc = .completed ∧ payloadCheckErr t.buflist = 0

/-- The steps that keep a zero meaningful: the array is allocated, and no wait is interrupted. -/
def LinkLabel.StepOk : LinkLabel → Prop
  | .kmalloc ok => ok = true
  | .interrupt => False
  | _ => True

theorem LinkLabel.StepOk.notInterrupted {l : LinkLabel} (h : l.StepOk) : l.NotInterrupted := by
  cases l with
  | interrupt => exact h
  | _ => trivial

/-- The process has checked job `i`. -/
def LinkPc.Checked (i : ℕ) : LinkPc → Prop
  | .wait k | .check k => i < k
  | .destroy _ | .kfree | .returned => True
  | _ => False

theorem LinkPc.Checked.waited {i : ℕ} {pc : LinkPc} (h : pc.Checked i) : pc.Waited i := by
  cases pc with
  | wait k | destroy k | kfree | returned => exact h
  | check k => exact Nat.le_of_lt h
  | _ => exact h.elim

theorem isInt_payloadCheckErr (bf : Buflist) : IsInt (payloadCheckErr bf) := by
  rw [payloadCheckErr_eq]
  split_ifs <;> simp [IsInt]

/-- The invariant of such a run. -/
structure LinkPassInv (cfg : TcLinkCfg) (s : LinkRun) : Prop where
  linkInv : LinkInv s
  isInt_err : IsInt s.err
  /-- All jobs are created, unless the first one is refused a channel. -/
  created : s.pc = .kmalloc ∨ s.pc = .create ∨ cfg.jobs ≤ s.tc.length ∨
    (s.err ≠ 0 ∧ (s.pc = .kfree ∨ s.pc = .returned))
  checked : ∀ i t, s.tc[i]? = some t → s.pc.Checked i → s.err = 0 → payloadCheckErr t.buflist = 0

/-- What a step of the first loop does to the bound of the jobs. -/
theorem create_cases (hpc : s.pc = .create) {l : LinkLabel} (hl : s.next cfg l = some s') :
    (s'.pc = .create ∧ (s'.err = 0 ∨ s'.err = s.err)) ∨ (s'.pc = .kfree ∧ s'.err = -einval) ∨
      (s'.pc = .submit 0 ∧ s'.err = s.err ∧ s'.tc = s.tc ∧ cfg.jobs ≤ s.tc.length) := by
  cases l with
  | kmalloc ok => simp [LinkRun.next, hpc] at hl
  | create granted mem sizes src dst a b =>
    obtain ⟨-, hl⟩ := Option.ite_none_right_eq_some.mp hl
    obtain rfl := Option.some.inj hl
    cases hg : s.dmaChan || granted <;>
      simp [LinkRun.create, dmatestBuflistCreate, hg, hpc]
  | proc =>
    simp only [LinkRun.next, LinkRun.proc, hpc, Option.ite_none_left_eq_some,
      Option.some.injEq] at hl
    obtain ⟨hjobs, rfl⟩ := hl
    exact Or.inr (Or.inr ⟨rfl, rfl, rfl, Nat.not_lt.mp hjobs⟩)
  | interrupt => simp [LinkRun.next, hpc] at hl
  | completion i src dst =>
    cases hi : s.tc[i]? with
    | none => simp [LinkRun.next, hi] at hl
    | some t =>
      simp only [LinkRun.next, hi, Option.ite_none_right_eq_some, Option.some.injEq] at hl
      exact Or.inl (hl.2 ▸ ⟨hpc, Or.inr rfl⟩)

theorem pc_of_next_kmalloc (hl : s.next cfg (.kmalloc true) = some s') : s'.pc = .create := by
  obtain ⟨-, hl⟩ := Option.ite_none_right_eq_some.mp hl
  obtain rfl := Option.some.inj hl
  rfl

/-- The process is behind the first loop and has not given the array back. -/
def LinkPc.Working : LinkPc → Prop
  | .kmalloc | .create | .kfree | .returned => False
  | _ => True

theorem LinkPassInv.jobs_le (h : LinkPassInv cfg s) (hpc : s.pc.Working) :
    cfg.jobs ≤ s.tc.length := by
  rcases h.created with hpc' | hpc' | hjobs | ⟨-, hpc' | hpc'⟩
  · simp [hpc', LinkPc.Working] at hpc
  · simp [hpc', LinkPc.Working] at hpc
  · exact hjobs
  · simp [hpc', LinkPc.Working] at hpc
  · simp [hpc', LinkPc.Working] at hpc

/-- A step of the first loop. -/
theorem LinkPassInv.of_create (h : LinkPassInv cfg s) (hs' : LinkInv s') (hpc : s.pc = .create)
    {l : LinkLabel} (hl : s.next cfg l = some s') : LinkPassInv cfg s' := by
  rcases create_cases hpc hl with ⟨hpc', herr⟩ | ⟨hpc', herr⟩ | ⟨hpc', herr, htc, hjobs⟩
  · refine ⟨hs', ?_, Or.inr (Or.inl hpc'), by simp [hpc', LinkPc.Checked]⟩
    rcases herr with herr | herr
    · simp [herr, IsInt]
    · exact herr ▸ h.isInt_err
  · have hne : s'.err ≠ 0 := by simp [herr, einval]
    exact ⟨hs', by simp [herr, einval, IsInt], Or.inr (Or.inr (Or.inr ⟨hne, Or.inl hpc'⟩)),
      fun _ _ _ _ hzero => absurd hzero hne⟩
  · exact ⟨hs', herr ▸ h.isInt_err, Or.inr (Or.inr (Or.inl (htc ▸ hjobs))),
      by simp [hpc', LinkPc.Checked]⟩

/-- A step behind the first loop that leaves the lists and the result alone. -/
theorem LinkPassInv.of_buflist (h : LinkPassInv cfg s) (hs' : LinkInv s') (herr : s'.err = s.err)
    (hlen : s'.tc.length = s.tc.length) (hpc : s.pc.Working)
    (hchecked : ∀ i t, s'.tc[i]? = some t → s'.pc.Checked i →
      s.pc.Checked i ∧ ∃ u, s.tc[i]? = some u ∧ t.buflist = u.buflist) : LinkPassInv cfg s' where
  linkInv := hs'
  isInt_err := herr ▸ h.isInt_err
  created := Or.inr (Or.inr (Or.inl (hlen ▸ h.jobs_le hpc)))
  checked i t hi hpc hzero := by
    obtain ⟨hpc, u, hu, heq⟩ := hchecked i t hi hpc
    rw [heq]
    exact h.checked i u hu hpc (herr ▸ hzero)

/-- Such a step before the first check. -/
theorem LinkPassInv.of_unchecked (h : LinkPassInv cfg s) (hs' : LinkInv s')
    (herr : s'.err = s.err) (hlen : s'.tc.length = s.tc.length) (hpc : s.pc.Working)
    (hpc' : ∀ i, ¬ s'.pc.Checked i) : LinkPassInv cfg s' :=
  h.of_buflist hs' herr hlen hpc fun i _ _ hchecked => absurd hchecked (hpc' i)

theorem LinkPc.not_checked_wait_zero (i : ℕ) : ¬ (LinkPc.wait 0).Checked i := Nat.not_lt_zero i

/-- **Every step that keeps a zero meaningful keeps the invariant.** -/
theorem LinkPassInv.next (h : LinkPassInv cfg s) {l : LinkLabel} (hok : l.StepOk)
    (hl : s.next cfg l = some s') : LinkPassInv cfg s' := by
  have hs' := h.linkInv.next hok.notInterrupted hl
  by_cases hcreate : s.pc = .create
  · exact h.of_create hs' hcreate hl
  cases linkStep_of_next hl with
  | kmalloc ok pc hpc hpc' =>
    obtain rfl : ok = true := hok
    obtain rfl : pc = .create := pc_of_next_kmalloc hl
    exact ⟨hs', h.isInt_err, Or.inr (Or.inl rfl), fun _ _ _ hw => hw.elim⟩
  | createError _ err hpc | create _ t tc sizes a b hpc | createDone hpc =>
    exact absurd hpc hcreate
  | submit i t pc hpc hi hpc' =>
    refine h.of_unchecked hs' rfl (List.length_set ..) (hpc ▸ trivial) fun j => ?_
    rcases hpc' with rfl | rfl <;> exact id
  | submitDone i pc hpc hpc' =>
    refine h.of_unchecked hs' rfl rfl (hpc ▸ trivial) fun j => ?_
    rcases hpc' with rfl | rfl
    · exact LinkPc.not_checked_wait_zero j
    · exact id
  | issueOne i hpc =>
    exact h.of_unchecked hs' rfl (List.length_map _) (hpc ▸ trivial) fun _ => id
  | issueAll pc hpc hpc' =>
    refine h.of_unchecked hs' rfl (List.length_map _) (hpc ▸ trivial) fun j => ?_
    rcases hpc' with rfl | rfl
    · exact LinkPc.not_checked_wait_zero j
    · exact id
  | wait i t hpc hi hdone =>
    refine h.of_buflist hs' rfl (List.length_set ..) (hpc ▸ trivial) fun j u hj hw => ?_
    rcases getElem?_set_cases hj with ⟨rfl, rfl⟩ | ⟨-, hj⟩
    · exact absurd hw (Nat.lt_irrefl j)
    · exact ⟨by simpa [hpc, LinkPc.Checked] using hw, u, hj, rfl⟩
  | interrupted => exact hok.elim
  | waitDone i hpc hi =>
    refine h.of_buflist hs' rfl rfl (hpc ▸ trivial) fun j u hj _ => ⟨?_, u, hj, rfl⟩
    obtain ⟨hlt, -⟩ := List.getElem?_eq_some_iff.mp hj
    rw [hpc]
    exact Nat.lt_of_lt_of_le hlt hi
  | check i t hpc hi =>
    have hjobs := h.jobs_le (hpc ▸ trivial)
    refine ⟨hs', isInt_orInt _ _, Or.inr (Or.inr (Or.inl hjobs)), fun j u hj hw hzero => ?_⟩
    obtain ⟨herr, hcheck⟩ := (orInt_eq_zero_iff h.isInt_err (isInt_payloadCheckErr _)).mp hzero
    rcases Nat.lt_succ_iff_lt_or_eq.mp hw with hlt | rfl
    · exact h.checked j u hj (by simpa [hpc, LinkPc.Checked] using hlt) herr
    · rw [Option.some.inj (hj.symm.trans hi)]
      exact hcheck
  | destroy i hpc | destroyDone i hpc =>
    exact h.of_buflist hs' rfl rfl (hpc ▸ trivial) fun j u hj _ =>
      ⟨by simp [hpc, LinkPc.Checked], u, hj, rfl⟩
  | kfree hpc =>
    refine ⟨hs', h.isInt_err, ?_, fun j u hj _ => h.checked j u hj (by simp [hpc, LinkPc.Checked])⟩
    rcases h.created with hpc' | hpc' | hjobs | ⟨herr, -⟩
    · simp [hpc] at hpc'
    · simp [hpc] at hpc'
    · exact Or.inr (Or.inr (Or.inl hjobs))
    · exact Or.inr (Or.inr (Or.inr ⟨herr, Or.inr rfl⟩))
  | completion i t src dst hi hissued =>
    refine ⟨hs', h.isInt_err, ?_, fun j u hj hw hzero => ?_⟩
    · simpa only [List.length_set] using h.created
    · rcases getElem?_set_cases hj with ⟨rfl, rfl⟩ | ⟨-, hj⟩
      -- A job that has been checked has completed, so it does not complete once more.
      · have hcompleted := h.linkInv.waited j t hi hw.waited
        simp [hissued] at hcompleted
      · exact h.checked j u hj hw hzero

theorem linkPassInv_of_reachableVia
    (h : (linkMachine cfg).ReachableVia (fun _ l => l.StepOk) s) : LinkPassInv cfg s := by
  refine h.invariant (fun s hs => ?_) fun s l s' hI hok hl => hI.next hok hl
  obtain rfl := hs
  exact ⟨⟨by simp, by simp, by simp, by simp, by simp⟩, by simp [IsInt], Or.inl rfl, by simp⟩

/-- **A zero of `tc_link_core`** means what it should, in such a run. -/
theorem linkPasses_of_reachableVia (hjobs : 1 ≤ cfg.jobs)
    (h : (linkMachine cfg).ReachableVia (fun _ l => l.StepOk) s) : s.Passes := by
  intro hpc herr
  have hinv := linkPassInv_of_reachableVia h
  have hlen : cfg.jobs ≤ s.tc.length := by
    rcases hinv.created with hpc' | hpc' | hjobs | ⟨hne, -⟩
    · simp [hpc] at hpc'
    · simp [hpc] at hpc'
    · exact hjobs
    · exact absurd herr hne
  refine ⟨List.ne_nil_of_length_pos (hjobs.trans hlen), fun t ht => ?_⟩
  obtain ⟨i, hi⟩ := List.getElem?_of_mem ht
  exact ⟨hinv.linkInv.waited i t hi (by simp [hpc, LinkPc.Waited]),
    hinv.checked i t hi (by simp [hpc, LinkPc.Checked]) herr⟩

end Link

/-! ### Both functions -/

/-- **A zero means what it should**: in every run of `tc_run_parallel` and of `tc_link_core`, on one
job at least, whose every step keeps a zero meaningful. -/
theorem passes_of_reachableVia (tcp : TcParallel) (cfg : TcLinkCfg) (hjobs : 1 ≤ cfg.jobs) :
    (∀ s, (parallelMachine tcp).ReachableVia (ParallelRun.StepOk tcp) s → s.Passes tcp) ∧
    ∀ s, (linkMachine cfg).ReachableVia (fun _ l => l.StepOk) s → s.Passes :=
  ⟨fun _ h => parallelPasses_of_reachableVia h, fun _ h => linkPasses_of_reachableVia hjobs h⟩

/-- One lap of one buffer on one channel. -/
def oneLapOneChannel : TcParallel where
  maxChannels := 1
  laps := 1
  dmaFlags := dmaPrepInterrupt ||| dmaCtrlAck
  chanStartIndex := 0
  txAlign := 1
  constSize := 1
  listLen := 1
  timeout := defaultTimeout

/-- One job of one buffer. -/
def oneJob : TcLinkCfg where
  jobs := 1
  links := 1
  bufferSize := 1
  startInSequence := false
  minSize := 0
  maxSize := 0

/-- A channel and a job that copy their buffer. -/
theorem passes_one :
    (∃ s, (parallelMachine oneLapOneChannel).ReachableVia (ParallelRun.StepOk oneLapOneChannel) s ∧
      s.pc = .returned ∧ s.err = 0 ∧ s.startedChannels oneLapOneChannel ≠ []) ∧
    ∃ s, (linkMachine oneJob).ReachableVia (fun _ l => l.StepOk) s ∧ s.pc = .returned ∧
      s.err = 0 ∧ s.tc ≠ [] := by
  have hpasses := passes_of_reachableVia oneLapOneChannel oneJob (by decide)
  constructor
  · have hreach : (parallelMachine oneLapOneChannel).ReachableVia
        (ParallelRun.StepOk oneLapOneChannel) _ := .execVia (.init rfl)
      [.kzalloc true, .tcTestInit true true [1] pattern pattern, .proc, .proc, .proc,
        .chan 0 (.work 0 0), .chan 0 (.completion 0 pattern pattern),
        .proc, .proc, .proc, .proc, .proc, .proc, .proc] rfl
    exact ⟨_, hreach, rfl, rfl, (hpasses.1 _ hreach rfl rfl).1⟩
  · have hreach : (linkMachine oneJob).ReachableVia (fun _ l => l.StepOk) _ := .exec (.init rfl)
      [.kmalloc true, .create true [0, 0] [1] pattern pattern 1 1, .proc, .proc, .proc, .proc,
        .completion 0 pattern pattern, .proc, .proc, .proc, .proc, .proc, .proc] rfl
      (by simp [LinkLabel.StepOk])
    exact ⟨_, hreach, rfl, rfl, (hpasses.2 _ hreach rfl rfl).1⟩

/-- The parameters of test 50. -/
def tc50 : TcParallel where
  maxChannels := 5
  laps := 200
  dmaFlags := dmaPrepInterrupt ||| dmaCtrlAck
  chanStartIndex := 3
  txAlign := 4
  constSize := -1
  listLen := 30
  timeout := defaultTimeout

/-- Sizes that test 50 may draw. -/
def tc50Sizes : List ℤ := List.replicate 30 4

/-- With three channels test 50 starts none of them and returns zero, and so does a test of linked
jobs whose array cannot be allocated. -/
theorem not_passes_nothing_started :
    (∃ s, (parallelMachine tc50).Reachable s ∧ s.pc = .returned ∧ s.err = 0 ∧
      s.startedChannels tc50 = [] ∧ ¬ s.Passes tc50) ∧
    ∃ s, (linkMachine oneJob).Reachable s ∧ s.pc = .returned ∧ s.err = 0 ∧ s.tc = [] ∧
      ¬ s.Passes := by
  constructor
  · have hreach : (parallelMachine tc50).Reachable _ := .exec (.init rfl)
      [.kzalloc true, .tcTestInit true true tc50Sizes pattern pattern,
        .tcTestInit true true tc50Sizes pattern pattern,
        .tcTestInit true true tc50Sizes pattern pattern,
        .tcTestInit true false tc50Sizes pattern pattern, .proc, .proc,
        .proc, .proc, .proc, .proc, .proc, .proc, .proc, .proc, .proc] rfl
    exact ⟨_, hreach, rfl, rfl, rfl, fun h => (h rfl rfl).1 rfl⟩
  · have hreach : (linkMachine oneJob).Reachable _ :=
      .exec (.init rfl) [.kmalloc false, .proc] rfl
    exact ⟨_, hreach, rfl, rfl, rfl, fun h => (h rfl rfl).1 rfl⟩

end SnowballLtp.Dma
