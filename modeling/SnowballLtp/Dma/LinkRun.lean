import SnowballLtp.Dma.Transfer

/-!
# Linked jobs on one channel

`tc_link_core` creates one buffer list for each job, all of them on the channel that the first one
is granted, prepares one scatter-gather descriptor for each, submits and issues them, waits for
each job in turn, checks it, and destroys the lists in turn. The descriptors complete in any
order, and a signal may end each of the waits early.

A job has no work item, and its watchdog is never scheduled. When `min_size` and `max_size` are
given, the sizes are stored into the list of the first job, whatever the job at hand.

## Main definitions

* `TcLinkCfg`, `TcLink`, `LinkPc`, `LinkRun`, `LinkRun.next`, `linkMachine`.
* `TcLink.Quiescent`.

## Main results

* `linkStep_of_next`: what a step does.
* `LinkInv.next`, `linkInv_of_reachableVia`: the waits of a process that is not interrupted.
-/

namespace SnowballLtp.Dma

/-- `struct tc_link_cfg`. -/
structure TcLinkCfg where
  jobs : ℕ
  links : ℕ
  bufferSize : ℤ
  startInSequence : Bool
  minSize : ℕ
  maxSize : ℕ

/-- Where the descriptor of a job is. -/
inductive DescState where
  | prepared
  | submitted
  /-- Submitted, and issued by `dma_async_issue_pending`. -/
  | issued
  | completed
  deriving DecidableEq, Repr

/-- `struct tc_link`. -/
structure TcLink where
  buflist : Buflist
  /-- The counter of the completion `done`. -/
  done : ℕ
  desc : DescState
  timedOut : DelayedWork

namespace TcLink

variable (t : TcLink)

/-- `dmatest_sizelist_set` and `dmatest_sizelist_randomize` store sizes and the terminator. -/
def setSizes (sizes : List ℤ) : TcLink :=
  { t with buflist := { t.buflist with listSize := sizes ++ [-1] } }

/-- The rest of an iteration of the first loop: fill the buffers, map the scatter lists and
prepare the descriptor. -/
def prepare (sglSrcLen sglDstLen : ℕ) : TcLink :=
  { t with buflist := { (dmatestBuflistAlloc t.buflist).2 with
      sglSrcLen := sglSrcLen
      sglDstLen := sglDstLen } }

def submit : TcLink := { t with desc := .submitted }

/-- `dma_async_issue_pending` issues what has been submitted. -/
def issue : TcLink := { t with desc := if t.desc = .submitted then .issued else t.desc }

/-- The engine completes the descriptor and calls `tc_link_callback`. -/
def complete (src dst : Buffers) : TcLink :=
  { t with
    buflist := { t.buflist with listBufSrc := src, listBufDst := dst }
    desc := .completed
    done := t.done + 1 }

/-- Nothing of the job is outstanding. -/
structure Quiescent : Prop where
  desc : t.desc ≠ .submitted ∧ t.desc ≠ .issued
  timedOut : t.timedOut ≠ .pending ∧ t.timedOut ≠ .expired

end TcLink

/-- Where the process is in `tc_link_core`. -/
inductive LinkPc where
  | kmalloc
  /-- The first loop. Its index is the number of the jobs created so far. -/
  | create
  /-- At `tx_submit` of job `i`. -/
  | submit (i : ℕ)
  /-- At `dma_async_issue_pending` behind the submission of job `i`, in sequence. -/
  | issueOne (i : ℕ)
  /-- At `dma_async_issue_pending` behind all submissions. -/
  | issueAll
  /-- In `wait_for_completion_interruptible` for job `i`. -/
  | wait (i : ℕ)
  /-- At `dmatest_buflist_payload_check` of job `i`. -/
  | check (i : ℕ)
  /-- At `dmatest_buflist_destroy` of job `i`. -/
  | destroy (i : ℕ)
  | kfree
  | returned
  /-- The channel is a null pointer and has been used. -/
  | oops
  deriving DecidableEq, Repr

/-- `tc_link_core` with the jobs it has created. -/
structure LinkRun where
  pc : LinkPc
  tc : List TcLink
  /-- The variable `dma_chan` holds a channel. -/
  dmaChan : Bool
  err : ℤ

/-- The steps of the process, of the engine and of whoever sends the signals. -/
inductive LinkLabel where
  | kmalloc (ok : Bool)
  /-- The next iteration of the first loop. `mem` is the memory that `kmalloc` returns for
  `list_size`, `sizes` what `dmatest_sizelist_randomize` stores, and the lengths are what
  `dma_map_sg` returns. -/
  | create (granted : Bool) (mem sizes : List ℤ) (src dst : Buffers) (sglSrcLen sglDstLen : ℕ)
  /-- Any other step of the process. -/
  | proc
  /-- A signal makes `wait_for_completion_interruptible` return early. -/
  | interrupt
  /-- The engine completes the descriptor of job `i`. -/
  | completion (i : ℕ) (src dst : Buffers)

namespace LinkRun

variable (cfg : TcLinkCfg) (s : LinkRun)

/-- The jobs after the sizes of job `i`, the last one, are stored: with random sizes they go to
the list of the first job. -/
def storeSizes (tc : List TcLink) (i : ℕ) (sizes : List ℤ) : List TcLink :=
  if cfg.minSize ≠ 0 ∧ cfg.maxSize ≠ 0 then tc.modify 0 (TcLink.setSizes · sizes)
  else tc.modify i (TcLink.setSizes · (List.replicate cfg.links (align cfg.bufferSize txAlign)))

/-- One iteration of the first loop. The channel is requested for the first job only. -/
def create (granted : Bool) (mem sizes : List ℤ) (src dst : Buffers)
    (sglSrcLen sglDstLen : ℕ) : LinkRun :=
  match dmatestBuflistCreate (.zeroed src dst) cfg.links 0 (dmaPrepInterrupt ||| dmaCtrlAck)
      defaultTimeout (s.dmaChan || granted) with
  | .error err => { s with err := err, pc := .kfree }
  | .ok bf =>
    let i := s.tc.length
    let t : TcLink :=
      { buflist := { bf with listSize := mem }, done := 0, desc := .prepared, timedOut := .idle }
    { s with
      tc := (storeSizes cfg (s.tc ++ [t]) i sizes).modify i (TcLink.prepare · sglSrcLen sglDstLen)
      dmaChan := true
      err := 0 }

/-- The steps of the process that depend on nothing but the state. The channel is released with
the first list. -/
def proc : Option LinkRun :=
  match s.pc with
  | .create => if s.tc.length < cfg.jobs then none else some { s with pc := .submit 0 }
  | .submit i =>
    match s.tc[i]? with
    | some t =>
      some { s with
        tc := s.tc.set i t.submit
        pc := if cfg.startInSequence then .issueOne i else .submit (i + 1) }
    | none => some { s with pc := if cfg.startInSequence then .wait 0 else .issueAll }
  | .issueOne i => some { s with tc := s.tc.map TcLink.issue, pc := .submit (i + 1) }
  | .issueAll =>
    some { s with tc := s.tc.map TcLink.issue, pc := if s.dmaChan then .wait 0 else .oops }
  | .wait i =>
    match s.tc[i]? with
    | some t =>
      if 0 < t.done then
        some { s with tc := s.tc.set i { t with done := t.done - 1 }, pc := .check i }
      else none
    | none => some { s with pc := .destroy 0 }
  | .check i =>
    (s.tc[i]?).map fun t =>
      { s with err := orInt s.err (payloadCheckErr t.buflist), pc := .wait (i + 1) }
  | .destroy i =>
    some (if i < s.tc.length then { s with dmaChan := false, pc := .destroy (i + 1) }
      else { s with pc := .kfree })
  | .kfree => some { s with pc := .returned }
  | .kmalloc | .returned | .oops => none

/-- The state after a step, when the step is enabled. -/
def next (s : LinkRun) : LinkLabel → Option LinkRun
  | .kmalloc ok =>
    if s.pc = .kmalloc then some { s with pc := if ok then .create else .kfree } else none
  | .create granted mem sizes src dst sglSrcLen sglDstLen =>
    if s.pc = .create ∧ s.tc.length < cfg.jobs ∧ sizes.length = cfg.links then
      some (s.create cfg granted mem sizes src dst sglSrcLen sglDstLen)
    else none
  | .proc => s.proc cfg
  | .interrupt =>
    match s.pc with
    | .wait i => if i < s.tc.length then some { s with pc := .check i } else none
    | _ => none
  | .completion i src dst =>
    match s.tc[i]? with
    | some t =>
      if t.desc = .issued ∧ s.dmaChan = true then
        some { s with tc := s.tc.set i (t.complete src dst) }
      else none
    | none => none

end LinkRun

/-- The runs of `tc_link_core`. -/
def linkMachine (cfg : TcLinkCfg) : Machine LinkRun LinkLabel where
  init s := s = { pc := .kmalloc, tc := [], dmaChan := false, err := 0 }
  next := LinkRun.next cfg

/-- The steps by which the waiting process is not interrupted. -/
def LinkLabel.NotInterrupted : LinkLabel → Prop
  | .interrupt => False
  | _ => True

/-! ### What a step does -/

/-- The steps of `tc_link_core`, one constructor for each way it goes on. -/
inductive LinkStep (cfg : TcLinkCfg) (s : LinkRun) : LinkLabel → LinkRun → Prop
  | kmalloc (ok : Bool) (pc : LinkPc) (hpc : s.pc = .kmalloc) (hpc' : pc = .create ∨ pc = .kfree) :
      LinkStep cfg s (.kmalloc ok) { s with pc := pc }
  | createError (l : LinkLabel) (err : ℤ) (hpc : s.pc = .create) (hchan : s.dmaChan = false) :
      LinkStep cfg s l { s with err := err, pc := .kfree }
  | create (l : LinkLabel) (t : TcLink) (tc : List TcLink) (sizes : List ℤ) (a b : ℕ)
      (hpc : s.pc = .create)
      (ht : t.done = 0 ∧ t.timedOut = .idle ∧ t.desc = .prepared)
      (htc : tc = (LinkRun.storeSizes cfg (s.tc ++ [t]) s.tc.length sizes).modify s.tc.length
        (TcLink.prepare · a b)) :
      LinkStep cfg s l { s with tc := tc, dmaChan := true, err := 0 }
  | createDone (hpc : s.pc = .create) : LinkStep cfg s .proc { s with pc := .submit 0 }
  | submit (i : ℕ) (t : TcLink) (pc : LinkPc) (hpc : s.pc = .submit i) (hi : s.tc[i]? = some t)
      (hpc' : pc = .issueOne i ∨ pc = .submit (i + 1)) :
      LinkStep cfg s .proc { s with tc := s.tc.set i t.submit, pc := pc }
  | submitDone (i : ℕ) (pc : LinkPc) (hpc : s.pc = .submit i)
      (hpc' : pc = .wait 0 ∨ pc = .issueAll) : LinkStep cfg s .proc { s with pc := pc }
  | issueOne (i : ℕ) (hpc : s.pc = .issueOne i) :
      LinkStep cfg s .proc { s with tc := s.tc.map TcLink.issue, pc := .submit (i + 1) }
  | issueAll (pc : LinkPc) (hpc : s.pc = .issueAll) (hpc' : pc = .wait 0 ∨ pc = .oops) :
      LinkStep cfg s .proc { s with tc := s.tc.map TcLink.issue, pc := pc }
  | wait (i : ℕ) (t : TcLink) (hpc : s.pc = .wait i) (hi : s.tc[i]? = some t)
      (hdone : 0 < t.done) :
      LinkStep cfg s .proc
        { s with tc := s.tc.set i { t with done := t.done - 1 }, pc := .check i }
  | interrupted (i : ℕ) (hpc : s.pc = .wait i) :
      LinkStep cfg s .interrupt { s with pc := .check i }
  | waitDone (i : ℕ) (hpc : s.pc = .wait i) (hi : s.tc.length ≤ i) :
      LinkStep cfg s .proc { s with pc := .destroy 0 }
  | check (i : ℕ) (t : TcLink) (hpc : s.pc = .check i) (hi : s.tc[i]? = some t) :
      LinkStep cfg s .proc
        { s with err := orInt s.err (payloadCheckErr t.buflist), pc := .wait (i + 1) }
  | destroy (i : ℕ) (hpc : s.pc = .destroy i) :
      LinkStep cfg s .proc { s with dmaChan := false, pc := .destroy (i + 1) }
  | destroyDone (i : ℕ) (hpc : s.pc = .destroy i) (hi : s.tc.length ≤ i) :
      LinkStep cfg s .proc { s with pc := .kfree }
  | kfree (hpc : s.pc = .kfree) : LinkStep cfg s .proc { s with pc := .returned }
  | completion (i : ℕ) (t : TcLink) (src dst : Buffers) (hi : s.tc[i]? = some t)
      (hissued : t.desc = .issued) :
      LinkStep cfg s (.completion i src dst) { s with tc := s.tc.set i (t.complete src dst) }

section Inversion

variable {cfg : TcLinkCfg} {s s' : LinkRun}

private theorem linkStep_of_create {granted : Bool} {mem sizes : List ℤ} {src dst : Buffers}
    {a b : ℕ} (l : LinkLabel) (hpc : s.pc = .create) :
    LinkStep cfg s l (s.create cfg granted mem sizes src dst a b) := by
  cases hg : s.dmaChan || granted with
  | false =>
    simp only [LinkRun.create, dmatestBuflistCreate, hg, Bool.false_eq_true, ↓reduceIte]
    exact .createError l _ hpc (Bool.or_eq_false_iff.mp hg).1
  | true =>
    simp only [LinkRun.create, dmatestBuflistCreate, hg, ↓reduceIte]
    exact .create l _ _ sizes a b hpc ⟨rfl, rfl, rfl⟩ rfl

private theorem linkStep_of_proc (h : s.proc cfg = some s') : LinkStep cfg s .proc s' := by
  cases hpc : s.pc with
  | kmalloc => simp [LinkRun.proc, hpc] at h
  | create =>
    simp only [LinkRun.proc, hpc, Option.ite_none_left_eq_some, Option.some.injEq] at h
    exact h.2 ▸ .createDone hpc
  | submit i =>
    cases hi : s.tc[i]? with
    | none =>
      simp only [LinkRun.proc, hpc, hi, Option.some.injEq] at h
      exact h ▸ .submitDone i _ hpc (by split_ifs <;> simp)
    | some t =>
      simp only [LinkRun.proc, hpc, hi, Option.some.injEq] at h
      exact h ▸ .submit i t _ hpc hi (by split_ifs <;> simp)
  | issueOne i =>
    simp only [LinkRun.proc, hpc, Option.some.injEq] at h
    exact h ▸ .issueOne i hpc
  | issueAll =>
    simp only [LinkRun.proc, hpc, Option.some.injEq] at h
    exact h ▸ .issueAll _ hpc (by split_ifs <;> simp)
  | wait i =>
    cases hi : s.tc[i]? with
    | none =>
      simp only [LinkRun.proc, hpc, hi, Option.some.injEq] at h
      exact h ▸ .waitDone i hpc (List.getElem?_eq_none_iff.mp hi)
    | some t =>
      simp only [LinkRun.proc, hpc, hi, Option.ite_none_right_eq_some, Option.some.injEq] at h
      exact h.2 ▸ .wait i t hpc hi h.1
  | check i =>
    simp only [LinkRun.proc, hpc, Option.map_eq_some_iff] at h
    obtain ⟨t, hi, rfl⟩ := h
    exact .check i t hpc hi
  | destroy i =>
    simp only [LinkRun.proc, hpc, Option.some.injEq] at h
    subst h
    split_ifs with hi
    · exact .destroy i hpc
    · exact .destroyDone i hpc (by omega)
  | kfree =>
    simp only [LinkRun.proc, hpc, Option.some.injEq] at h
    exact h ▸ .kfree hpc
  | returned => simp [LinkRun.proc, hpc] at h
  | oops => simp [LinkRun.proc, hpc] at h

/-- **What a step does.** -/
theorem linkStep_of_next {l : LinkLabel} (h : s.next cfg l = some s') : LinkStep cfg s l s' := by
  cases l with
  | kmalloc ok =>
    obtain ⟨hpc, h⟩ := Option.ite_none_right_eq_some.mp h
    obtain rfl := Option.some.inj h
    exact .kmalloc ok _ hpc (by split_ifs <;> simp)
  | create granted mem sizes src dst a b =>
    obtain ⟨hpc, h⟩ := Option.ite_none_right_eq_some.mp h
    obtain rfl := Option.some.inj h
    exact linkStep_of_create _ hpc.1
  | proc => exact linkStep_of_proc h
  | interrupt =>
    cases hpc : s.pc with
    | wait i =>
      simp only [LinkRun.next, hpc, Option.ite_none_right_eq_some, Option.some.injEq] at h
      exact h.2 ▸ .interrupted i hpc
    | _ => simp [LinkRun.next, hpc] at h
  | completion i src dst =>
    cases hi : s.tc[i]? with
    | none => simp [LinkRun.next, hi] at h
    | some t =>
      simp only [LinkRun.next, hi, Option.ite_none_right_eq_some, Option.some.injEq] at h
      exact h.2 ▸ .completion i t src dst hi h.1.1

end Inversion

/-! ### The waits of a process that is not interrupted -/

/-- The process has waited for job `i`. -/
def LinkPc.Waited (i : ℕ) : LinkPc → Prop
  | .wait k => i < k
  | .check k => i ≤ k
  | .destroy _ | .kfree | .returned => True
  | _ => False

/-- The process has not submitted job `i` yet. -/
def LinkPc.Unsubmitted (i : ℕ) : LinkPc → Prop
  | .kmalloc | .create => True
  | .submit k => k ≤ i
  | .issueOne k => k < i
  | _ => False

/-- The watchdog of a job is idle, and its completion is signalled by its descriptor only. -/
structure TcLink.Ok (t : TcLink) : Prop where
  timedOut : t.timedOut = .idle
  completed : 0 < t.done → t.desc = .completed

namespace TcLink.Ok

variable {t : TcLink} (h : t.Ok)

include h

theorem setSizes (sizes : List ℤ) : (t.setSizes sizes).Ok := ⟨h.1, h.2⟩

theorem prepare (a b : ℕ) : (t.prepare a b).Ok := ⟨h.1, h.2⟩

theorem submit (ht : t.desc = .prepared) : t.submit.Ok :=
  ⟨h.1, fun hd => by simp [h.2 hd] at ht⟩

theorem issue : t.issue.Ok := ⟨h.1, fun hd => by simp [TcLink.issue, h.2 hd]⟩

theorem consume : Ok { t with done := t.done - 1 } :=
  ⟨h.1, fun hd => h.2 (Nat.lt_of_lt_of_le hd (Nat.sub_le _ _))⟩

theorem complete (src dst : Buffers) : (t.complete src dst).Ok := ⟨h.1, fun _ => rfl⟩

end TcLink.Ok

/-- The invariant of a process that is not interrupted: the jobs it has waited for have
completed. -/
structure LinkInv (s : LinkRun) : Prop where
  ok : ∀ t ∈ s.tc, t.Ok
  /-- Only the first job needs a channel. -/
  chan : s.pc = .create → s.tc ≠ [] → s.dmaChan = true
  /-- Before the first loop there is no job. -/
  kmalloc : s.pc = .kmalloc → s.tc = []
  prepared : ∀ i t, s.tc[i]? = some t → s.pc.Unsubmitted i → t.desc = .prepared
  waited : ∀ i t, s.tc[i]? = some t → s.pc.Waited i → t.desc = .completed

variable {cfg : TcLinkCfg} {s s' : LinkRun}

theorem forall_mem_storeSizes {P : TcLink → Prop} {tc : List TcLink} (h : ∀ t ∈ tc, P t)
    (hP : ∀ t sizes, P t → P (t.setSizes sizes)) (i : ℕ) (sizes : List ℤ) :
    ∀ t ∈ LinkRun.storeSizes cfg tc i sizes, P t := by
  unfold LinkRun.storeSizes
  split_ifs <;> exact forall_mem_modify h (fun t ht => hP t _ ht) _

/-- A step of the process behind the first loop that leaves the jobs alone. -/
theorem LinkInv.of_pc (h : LinkInv s) (htc : s'.tc = s.tc)
    (hstart : s'.pc ≠ .kmalloc ∧ s'.pc ≠ .create)
    (hprep : ∀ i < s.tc.length, s'.pc.Unsubmitted i → s.pc.Unsubmitted i)
    (hwait : ∀ i < s.tc.length, s'.pc.Waited i → s.pc.Waited i) : LinkInv s' where
  ok := htc ▸ h.ok
  chan hpc := absurd hpc hstart.2
  kmalloc hpc := absurd hpc hstart.1
  prepared i t hi hw := by
    rw [htc] at hi
    obtain ⟨hlt, -⟩ := List.getElem?_eq_some_iff.mp hi
    exact h.prepared i t hi (hprep i hlt hw)
  waited i t hi hw := by
    rw [htc] at hi
    obtain ⟨hlt, -⟩ := List.getElem?_eq_some_iff.mp hi
    exact h.waited i t hi (hwait i hlt hw)

/-- A step that adds a job. Before the first submission all jobs are prepared. -/
theorem LinkInv.create (h : LinkInv s) (hpc : s.pc = .create) {t : TcLink} {tc : List TcLink}
    {sizes : List ℤ} {a b : ℕ} (ht : t.done = 0 ∧ t.timedOut = .idle ∧ t.desc = .prepared)
    (htc : tc = (LinkRun.storeSizes cfg (s.tc ++ [t]) s.tc.length sizes).modify s.tc.length
      (TcLink.prepare · a b))
    (htc' : s'.tc = tc) (hpc' : s'.pc = .create) (hchan : s'.dmaChan = true) : LinkInv s' := by
  have hjobs : ∀ u ∈ s.tc ++ [t], u.Ok ∧ u.desc = .prepared := by
    intro u hu
    rcases List.mem_append.mp hu with hu | hu
    · obtain ⟨i, hi⟩ := List.getElem?_of_mem hu
      exact ⟨h.ok u hu, h.prepared i u hi (by simp [hpc, LinkPc.Unsubmitted])⟩
    · rw [List.mem_singleton.mp hu]
      exact ⟨⟨ht.2.1, by simp [ht.1]⟩, ht.2.2⟩
  have hsizes : ∀ u ∈ LinkRun.storeSizes cfg (s.tc ++ [t]) s.tc.length sizes,
      u.Ok ∧ u.desc = .prepared :=
    forall_mem_storeSizes hjobs (fun u sizes hu => ⟨hu.1.setSizes sizes, hu.2⟩) _ _
  have hall := forall_mem_modify hsizes (fun u hu => ⟨hu.1.prepare a b, hu.2⟩) s.tc.length
  rw [← htc, ← htc'] at hall
  exact ⟨fun u hu => (hall u hu).1, fun _ _ => hchan, by simp [hpc'],
    fun i u hi _ => (hall u (List.mem_of_getElem? hi)).2,
    fun i u _ hw => by simp [hpc', LinkPc.Waited] at hw⟩

/-- A step that replaces job `i`. -/
theorem LinkInv.set (h : LinkInv s) {i : ℕ} {t : TcLink} (t' : TcLink) (hi : s.tc[i]? = some t)
    (hok : t'.Ok) (htc : s'.tc = s.tc.set i t')
    (hcreate : s'.pc = .create → s.pc = .create ∧ s'.dmaChan = s.dmaChan)
    (hmalloc : s'.pc ≠ .kmalloc)
    (hprep : ∀ j, s'.pc.Unsubmitted j → j ≠ i ∧ s.pc.Unsubmitted j)
    (hwait : ∀ j, j ≠ i → s'.pc.Waited j → s.pc.Waited j)
    (ht' : s'.pc.Waited i → t'.desc = .completed) : LinkInv s' where
  ok u hu := by
    rw [htc] at hu
    rcases List.mem_or_eq_of_mem_set hu with hu | rfl
    · exact h.ok u hu
    · exact hok
  chan hpc' _ := by
    obtain ⟨hpc, hchan⟩ := hcreate hpc'
    exact hchan.trans (h.chan hpc (List.ne_nil_of_mem (List.mem_of_getElem? hi)))
  kmalloc hpc' := absurd hpc' hmalloc
  prepared j u hj hw := by
    obtain ⟨hne, hw⟩ := hprep j hw
    rw [htc, List.getElem?_set_ne hne.symm] at hj
    exact h.prepared j u hj hw
  waited j u hj hw := by
    rw [htc] at hj
    rcases getElem?_set_cases hj with ⟨rfl, rfl⟩ | ⟨hne, hj⟩
    · exact ht' hw
    · exact h.waited j u hj (hwait j hne hw)

/-- A step that issues the submitted descriptors. -/
theorem LinkInv.issue (h : LinkInv s) (htc : s'.tc = s.tc.map TcLink.issue)
    (hstart : s'.pc ≠ .kmalloc ∧ s'.pc ≠ .create)
    (hprep : ∀ j, s'.pc.Unsubmitted j → s.pc.Unsubmitted j) (hwait : ∀ j, ¬ s'.pc.Waited j) :
    LinkInv s' where
  ok u hu := by
    rw [htc] at hu
    obtain ⟨t, ht, rfl⟩ := List.mem_map.mp hu
    exact (h.ok t ht).issue
  chan hpc := absurd hpc hstart.2
  kmalloc hpc := absurd hpc hstart.1
  prepared j u hj hw := by
    rw [htc, List.getElem?_map] at hj
    obtain ⟨t, ht, rfl⟩ := Option.map_eq_some_iff.mp hj
    simp [TcLink.issue, h.prepared j t ht (hprep j hw)]
  waited j u _ hw := absurd hw (hwait j)

/-- **Every step but an interruption keeps the invariant of the waits.** -/
theorem LinkInv.next (h : LinkInv s) {l : LinkLabel} (hok : l.NotInterrupted)
    (hl : s.next cfg l = some s') : LinkInv s' := by
  cases linkStep_of_next hl with
  | kmalloc ok pc hpc hpc' =>
    have hnil := h.kmalloc hpc
    refine ⟨h.ok, fun _ hne => absurd hnil hne, fun _ => hnil, by simp [hnil], by simp [hnil]⟩
  | createError _ err hpc hchan =>
    have hnil : s.tc = [] := by
      by_contra hne
      simp [h.chan hpc hne] at hchan
    exact ⟨h.ok, by simp, by simp, by simp [hnil], by simp [hnil]⟩
  | create _ t tc sizes a b hpc ht htc =>
    exact h.create hpc ht htc rfl hpc rfl
  | createDone hpc =>
    exact h.of_pc rfl (by simp) (by simp [hpc, LinkPc.Unsubmitted]) fun i _ hw => hw.elim
  | submit i t pc hpc hi hpc' =>
    have ht := h.prepared i t hi (by simp [hpc, LinkPc.Unsubmitted])
    have hok' := (h.ok t (List.mem_of_getElem? hi)).submit ht
    rcases hpc' with rfl | rfl
    all_goals
      refine h.set t.submit hi hok' rfl (by simp) (by simp) (fun j hj => ?_)
        (fun _ _ hw => hw.elim) fun hw => hw.elim
      simp only [hpc, LinkPc.Unsubmitted] at hj ⊢
      omega
  | submitDone i pc hpc hpc' =>
    rcases hpc' with rfl | rfl
    · exact h.of_pc rfl (by simp) (fun j _ hj => hj.elim) (by simp [LinkPc.Waited])
    · exact h.of_pc rfl (by simp) (fun j _ hj => hj.elim) fun j _ hw => hw.elim
  | issueOne i hpc =>
    refine h.issue rfl (by simp) (fun j hj => ?_) fun j hw => hw.elim
    rw [hpc]
    exact hj
  | issueAll pc hpc hpc' =>
    rcases hpc' with rfl | rfl
    · exact h.issue rfl (by simp) (fun j hj => hj.elim) (by simp [LinkPc.Waited])
    · exact h.issue rfl (by simp) (fun j hj => hj.elim) fun j hw => hw.elim
  | wait i t hpc hi hdone =>
    have hcomp := (h.ok t (List.mem_of_getElem? hi)).completed hdone
    refine h.set _ hi (h.ok t (List.mem_of_getElem? hi)).consume rfl (by simp) (by simp)
      (fun j hj => hj.elim) (fun j hne hw => ?_) fun _ => hcomp
    simp only [hpc, LinkPc.Waited] at hw ⊢
    omega
  | interrupted => exact hok.elim
  | waitDone i hpc hi =>
    refine h.of_pc rfl (by simp) (fun j _ hj => hj.elim) fun j hj _ => ?_
    simp only [hpc, LinkPc.Waited]
    omega
  | check i t hpc hi =>
    refine h.of_pc rfl (by simp) (fun j _ hj => hj.elim) fun j _ hw => ?_
    simp only [hpc, LinkPc.Waited] at hw ⊢
    omega
  | destroy i hpc =>
    exact h.of_pc rfl (by simp) (fun j _ hj => hj.elim) (by simp [hpc, LinkPc.Waited])
  | destroyDone i hpc =>
    exact h.of_pc rfl (by simp) (fun j _ hj => hj.elim) (by simp [hpc, LinkPc.Waited])
  | kfree hpc =>
    exact h.of_pc rfl (by simp) (fun j _ hj => hj.elim) (by simp [hpc, LinkPc.Waited])
  | completion i t src dst hi hissued =>
    refine h.set _ hi ((h.ok t (List.mem_of_getElem? hi)).complete src dst) rfl
      (fun hpc => ⟨hpc, rfl⟩) (fun hpc => ?_) (fun j hj => ⟨fun hji => ?_, hj⟩) (fun _ _ hw => hw)
      fun _ => rfl
    · simp [h.kmalloc hpc] at hi
    · subst hji
      simp [h.prepared j t hi hj] at hissued

theorem linkInv_of_reachableVia
    (h : (linkMachine cfg).ReachableVia (fun _ l => l.NotInterrupted) s) : LinkInv s := by
  refine h.invariant (fun s hs => ?_) fun s l s' hI hok hl => hI.next hok hl
  obtain rfl := hs
  exact ⟨by simp, by simp, by simp, by simp, by simp⟩

/-- A job that the process has waited for has nothing outstanding. -/
theorem LinkInv.quiescent (h : LinkInv s) {i : ℕ} {t : TcLink} (hi : s.tc[i]? = some t)
    (hw : s.pc.Waited i) : t.Quiescent where
  desc := by simp [h.waited i t hi hw]
  timedOut := by simp [(h.ok t (List.mem_of_getElem? hi)).timedOut]

end SnowballLtp.Dma
