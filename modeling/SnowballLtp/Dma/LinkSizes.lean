import SnowballLtp.Dma.LinkRun
import SnowballLtp.Dma.SizelistRandomize

/-!
# The size lists of linked jobs

The first loop of `tc_link_core` creates the buffer list of a job, stores its sizes and allocates
its buffers. Between the allocation and the destruction the sizes say how long the buffers are, so
a list has to be filled, up to its terminator, before it is allocated, and must be left alone from
then on. Constant sizes are stored into the list of the job at hand; random ones are stored into
`tc->buflist`, the list of the first job.

## Main definitions

* `TcLinkCfg.Random`, `TcLinkCfg.Initialised`.
* `LinkRun.sizeLists`, `LinkLabel.SizesPossible`, `SizesKept`.

## Main results

* `sizeLists_of_next`: which steps write into a size list.
* `sizesKept_iff`: the configurations whose lists are filled in time and left alone.
* `initialised_of_reachableVia`: the lists along the runs of such a configuration.
-/

namespace SnowballLtp.Dma

namespace TcLinkCfg

variable (cfg : TcLinkCfg)

/-- The sizes are random. -/
def Random : Prop := cfg.minSize ≠ 0 ∧ cfg.maxSize ≠ 0

instance : Decidable cfg.Random := inferInstanceAs (Decidable (_ ∧ _))

/-- The fields `min_size` and `max_size`, of the type `u32`. -/
def min : BitVec 32 := BitVec.ofNat 32 cfg.minSize

def max : BitVec 32 := BitVec.ofNat 32 cfg.maxSize

/-- A size list with an entry for each of the links, followed by the terminator. -/
def Initialised (listSize : List ℤ) : Prop :=
  ∃ sizes, sizes.length = cfg.links ∧ listSize = sizes ++ [-1]

end TcLinkCfg

/-- The size lists of the jobs, in the order of the jobs. -/
def LinkRun.sizeLists (s : LinkRun) : List (List ℤ) := s.tc.map (·.buflist.listSize)

/-- Random sizes are what `dmatest_sizelist_randomize` stores for some random values. -/
def LinkLabel.SizesPossible (cfg : TcLinkCfg) : LinkLabel → Prop
  | .create _ _ sizes _ _ _ _ =>
    cfg.Random → ∃ random32,
      dmatestSizelistRandomize cfg.links cfg.min cfg.max txAlign random32 = .ok (sizes ++ [-1])
  | _ => True

/-- A step fills the list of the job it creates, before the buffers are allocated, and leaves the
lists of the other jobs alone. -/
structure SizesKept (cfg : TcLinkCfg) (s s' : LinkRun) : Prop where
  filled : ∀ listSize, s'.sizeLists[s.tc.length]? = some listSize → cfg.Initialised listSize
  kept : ∀ (i : ℕ) listSize, s.sizeLists[i]? = some listSize → s'.sizeLists[i]? = some listSize

/-! ### Which steps write into a size list -/

variable {cfg : TcLinkCfg} {s s' : LinkRun}

/-- Replacing a job by one with the same list. -/
private theorem map_set_listSize {tc : List TcLink} {i : ℕ} {t t' : TcLink} (hi : tc[i]? = some t)
    (ht : t'.buflist.listSize = t.buflist.listSize) :
    (tc.set i t').map (·.buflist.listSize) = tc.map (·.buflist.listSize) := by
  obtain ⟨hlt, rfl⟩ := List.getElem?_eq_some_iff.mp hi
  have hself : (tc.map (·.buflist.listSize)).set i _ = _ :=
    List.set_getElem_self (by simpa using hlt)
  rw [List.getElem_map] at hself
  rw [List.map_set, ht, hself]

private theorem map_modify_listSize (f : TcLink → TcLink) (g : List ℤ → List ℤ)
    (hf : ∀ t, (f t).buflist.listSize = g t.buflist.listSize) (tc : List TcLink) (i : ℕ) :
    (tc.modify i f).map (·.buflist.listSize) = (tc.map (·.buflist.listSize)).modify i g := by
  induction tc generalizing i with
  | nil => cases i <;> rfl
  | cons t tc ih => cases i <;> simp [hf, ih]

private theorem map_prepare_listSize (tc : List TcLink) (i a b : ℕ) :
    (tc.modify i (TcLink.prepare · a b)).map (·.buflist.listSize) =
      tc.map (·.buflist.listSize) := by
  rw [map_modify_listSize (TcLink.prepare · a b) id fun _ => rfl, List.modify_id]

private theorem map_issue_listSize (tc : List TcLink) :
    (tc.map TcLink.issue).map (·.buflist.listSize) = tc.map (·.buflist.listSize) := by
  rw [List.map_map]
  rfl

private theorem sizeLists_of_proc (h : s.proc cfg = some s') : s'.sizeLists = s.sizeLists := by
  cases hpc : s.pc with
  | kmalloc | returned | oops => simp [LinkRun.proc, hpc] at h
  | create =>
    simp only [LinkRun.proc, hpc, Option.ite_none_left_eq_some, Option.some.injEq] at h
    exact h.2 ▸ rfl
  | submit i =>
    cases hi : s.tc[i]? with
    | none =>
      simp only [LinkRun.proc, hpc, hi, Option.some.injEq] at h
      exact h ▸ rfl
    | some t =>
      simp only [LinkRun.proc, hpc, hi, Option.some.injEq] at h
      exact h ▸ map_set_listSize hi rfl
  | issueOne i | issueAll =>
    simp only [LinkRun.proc, hpc, Option.some.injEq] at h
    exact h ▸ map_issue_listSize s.tc
  | wait i =>
    cases hi : s.tc[i]? with
    | none =>
      simp only [LinkRun.proc, hpc, hi, Option.some.injEq] at h
      exact h ▸ rfl
    | some t =>
      simp only [LinkRun.proc, hpc, hi, Option.ite_none_right_eq_some, Option.some.injEq] at h
      exact h.2 ▸ map_set_listSize hi rfl
  | check i =>
    simp only [LinkRun.proc, hpc, Option.map_eq_some_iff] at h
    obtain ⟨t, -, rfl⟩ := h
    rfl
  | destroy i =>
    simp only [LinkRun.proc, hpc, Option.some.injEq] at h
    subst h
    split_ifs <;> rfl
  | kfree =>
    simp only [LinkRun.proc, hpc, Option.some.injEq] at h
    exact h ▸ rfl

/-- The lists after a job with the list `mem` has been created and the sizes stored. -/
def storedSizes (cfg : TcLinkCfg) (lists : List (List ℤ)) (mem sizes : List ℤ) : List (List ℤ) :=
  if cfg.Random then (lists ++ [mem]).modify 0 fun _ => sizes ++ [-1]
  else (lists ++ [mem]).modify lists.length fun _ =>
    List.replicate cfg.links (align cfg.bufferSize txAlign) ++ [-1]

private theorem map_storeSizes_listSize (tc : List TcLink) (t : TcLink) (sizes : List ℤ) :
    (LinkRun.storeSizes cfg (tc ++ [t]) tc.length sizes).map (·.buflist.listSize) =
      storedSizes cfg (tc.map (·.buflist.listSize)) t.buflist.listSize sizes := by
  have hset (cells : List ℤ) := map_modify_listSize (TcLink.setSizes · cells)
    (fun _ => cells ++ [-1]) fun _ => rfl
  unfold LinkRun.storeSizes storedSizes
  by_cases hrandom : cfg.minSize ≠ 0 ∧ cfg.maxSize ≠ 0
  · rw [if_pos hrandom, if_pos (show cfg.Random from hrandom), hset, List.map_append,
      List.map_singleton]
  · rw [if_neg hrandom, if_neg (show ¬ cfg.Random from hrandom), hset, List.map_append,
      List.map_singleton, List.length_map]

theorem sizeLists_create {granted : Bool} (hg : (s.dmaChan || granted) = true)
    (mem sizes : List ℤ) (src dst : Buffers) (a b : ℕ) :
    (s.create cfg granted mem sizes src dst a b).sizeLists =
      storedSizes cfg s.sizeLists mem sizes := by
  simp only [LinkRun.create, LinkRun.sizeLists, dmatestBuflistCreate, hg, ↓reduceIte]
  rw [map_prepare_listSize, map_storeSizes_listSize]

/-- What a step does to the size lists, one constructor for each way it goes on. -/
inductive SizesStep (cfg : TcLinkCfg) (s s' : LinkRun) : LinkLabel → Prop
  | same (l : LinkLabel) (h : s'.sizeLists = s.sizeLists) : SizesStep cfg s s' l
  | stored (granted : Bool) (mem sizes : List ℤ) (src dst : Buffers) (a b : ℕ)
      (hjobs : s.tc.length < cfg.jobs) (hlen : sizes.length = cfg.links)
      (h : s'.sizeLists = storedSizes cfg s.sizeLists mem sizes) :
      SizesStep cfg s s' (.create granted mem sizes src dst a b)

/-- **Which steps write into a size list.** Only the creation of a job does. -/
theorem sizeLists_of_next {l : LinkLabel} (h : s.next cfg l = some s') : SizesStep cfg s s' l := by
  cases l with
  | kmalloc ok =>
    obtain ⟨-, h⟩ := Option.ite_none_right_eq_some.mp h
    exact .same _ (Option.some.inj h ▸ rfl)
  | create granted mem sizes src dst a b =>
    obtain ⟨⟨-, hjobs, hlen⟩, h⟩ := Option.ite_none_right_eq_some.mp h
    obtain rfl := Option.some.inj h
    cases hg : s.dmaChan || granted with
    | false =>
      refine .same _ ?_
      simp [LinkRun.create, LinkRun.sizeLists, dmatestBuflistCreate, hg]
    | true =>
      exact .stored granted mem sizes src dst a b hjobs hlen
        (sizeLists_create hg mem sizes src dst a b)
  | proc => exact .same _ (sizeLists_of_proc h)
  | interrupt =>
    cases hpc : s.pc with
    | wait i =>
      simp only [LinkRun.next, hpc, Option.ite_none_right_eq_some, Option.some.injEq] at h
      exact .same _ (h.2 ▸ rfl)
    | _ => simp [LinkRun.next, hpc] at h
  | completion i src dst =>
    cases hi : s.tc[i]? with
    | none => simp [LinkRun.next, hi] at h
    | some t =>
      simp only [LinkRun.next, hi, Option.ite_none_right_eq_some, Option.some.injEq] at h
      exact .same _ (h.2 ▸ map_set_listSize hi rfl)

/-! ### Lists that are filled in time and left alone -/

private theorem modify_concat {α : Type*} (l : List α) (x : α) (f : α → α) :
    (l ++ [x]).modify l.length f = l ++ [f x] := by
  induction l with
  | nil => rfl
  | cons y l ih => simp [ih]

/-- Storing sizes adds an initialised list behind the others, when the sizes are constant or the
job is the first one. -/
theorem storedSizes_eq {lists : List (List ℤ)} (mem : List ℤ) {sizes : List ℤ}
    (hlen : sizes.length = cfg.links) (h : ¬ cfg.Random ∨ lists = []) :
    ∃ listSize, cfg.Initialised listSize ∧
      storedSizes cfg lists mem sizes = lists ++ [listSize] := by
  by_cases hrandom : cfg.Random
  · obtain rfl := h.resolve_left (not_not.mpr hrandom)
    exact ⟨sizes ++ [-1], ⟨sizes, hlen, rfl⟩, if_pos hrandom⟩
  · exact ⟨_, ⟨List.replicate cfg.links (align cfg.bufferSize txAlign), List.length_replicate, rfl⟩,
      (if_neg hrandom).trans (modify_concat lists mem _)⟩

/-- The sizes are constant, or there is one job at most, or the range is empty, so that the first
job stops the kernel. -/
def TcLinkCfg.OwnLists (cfg : TcLinkCfg) : Prop :=
  ¬ cfg.Random ∨ cfg.jobs ≤ 1 ∨ (cfg.links ≠ 0 ∧ cfg.min = cfg.max)

/-- From an empty range no list is stored. -/
theorem not_sizesPossible {granted : Bool} {mem sizes : List ℤ} {src dst : Buffers} {a b : ℕ}
    (hrandom : cfg.Random) (hlinks : cfg.links ≠ 0) (hrange : cfg.min = cfg.max) :
    ¬ (LinkLabel.create granted mem sizes src dst a b).SizesPossible cfg := by
  intro hl
  obtain ⟨random32, hok⟩ := hl hrandom
  obtain ⟨n, hn⟩ := Nat.exists_eq_succ_of_ne_zero hlinks
  rw [hn, hrange, sizelistRandomize_self] at hok
  cases hok

/-- **A step of such a configuration** adds at most one list, behind the others. -/
theorem SizesStep.sizeLists_eq {l : LinkLabel} (h : SizesStep cfg s s' l) (hcfg : cfg.OwnLists)
    (hl : l.SizesPossible cfg) :
    s'.sizeLists = s.sizeLists ∨
      ∃ listSize, cfg.Initialised listSize ∧ s'.sizeLists = s.sizeLists ++ [listSize] := by
  cases h with
  | same _ h => exact Or.inl h
  | stored granted mem sizes src dst a b hjobs hsizes h =>
    have hfirst : ¬ cfg.Random ∨ s.sizeLists = [] := by
      rcases hcfg with hconst | hone | ⟨hlinks, hrange⟩
      · exact Or.inl hconst
      · have hnil : s.tc = [] := List.length_eq_zero_iff.mp (by omega)
        exact Or.inr (by rw [LinkRun.sizeLists, hnil, List.map_nil])
      · exact Or.inl fun hrandom => not_sizesPossible hrandom hlinks hrange hl
    obtain ⟨listSize, hinit, heq⟩ := storedSizes_eq mem hsizes hfirst
    exact Or.inr ⟨listSize, hinit, h.trans heq⟩

theorem SizesStep.sizesKept {l : LinkLabel} (h : SizesStep cfg s s' l) (hcfg : cfg.OwnLists)
    (hl : l.SizesPossible cfg) : SizesKept cfg s s' := by
  have hlen : s.sizeLists.length = s.tc.length := List.length_map _
  rcases h.sizeLists_eq hcfg hl with heq | ⟨listSize, hinit, heq⟩
  · refine ⟨fun listSize hi => ?_, fun i listSize hi => heq ▸ hi⟩
    rw [heq, List.getElem?_eq_none hlen.le] at hi
    cases hi
  · refine ⟨fun listSize' hi => ?_, fun i listSize' hi => ?_⟩
    · rw [heq, ← hlen, List.getElem?_concat_length] at hi
      exact Option.some.inj hi ▸ hinit
    · obtain ⟨hlt, -⟩ := List.getElem?_eq_some_iff.mp hi
      rw [heq, List.getElem?_append_left hlt, hi]

/-- **The lists along a run** of such a configuration: each of them is initialised. -/
theorem initialised_of_reachableVia (hcfg : cfg.OwnLists)
    (h : (linkMachine cfg).ReachableVia (fun _ l => l.SizesPossible cfg) s) :
    ∀ listSize ∈ s.sizeLists, cfg.Initialised listSize := by
  refine h.invariant (I := fun s => ∀ listSize ∈ s.sizeLists, cfg.Initialised listSize)
    (fun s hs => ?_) fun s l s' hI hl hstep => ?_
  · obtain rfl := hs
    simp [LinkRun.sizeLists]
  · rcases (sizeLists_of_next hstep).sizeLists_eq hcfg hl with heq | ⟨listSize, hinit, heq⟩
    · rwa [heq]
    · rw [heq]
      exact List.forall_mem_append.mpr ⟨hI, List.forall_mem_singleton.mpr hinit⟩

/-! ### The second job with random sizes -/

/-- The state in which the first loop begins. -/
def LinkRun.beforeCreate : LinkRun := { pc := .create, tc := [], dmaChan := false, err := 0 }

/-- The cells of a list as `kmalloc` may return them. -/
def TcLinkCfg.zeroCells (cfg : TcLinkCfg) : List ℤ := List.replicate (cfg.links + 1) 0

theorem TcLinkCfg.not_initialised_zeroCells (cfg : TcLinkCfg) :
    ¬ cfg.Initialised cfg.zeroCells := by
  rintro ⟨sizes, -, h⟩
  have hmem : (-1 : ℤ) ∈ cfg.zeroCells := h ▸ List.mem_append_right _ (List.mem_singleton_self _)
  exact absurd (List.eq_of_mem_replicate hmem) (by decide)

/-- A job whose list comes from `kmalloc` with zeros in it. -/
def LinkLabel.createZeroed (cfg : TcLinkCfg) (sizes : List ℤ) : LinkLabel :=
  .create true cfg.zeroCells sizes pattern pattern 1 1

/-- Two jobs with random sizes leave the list of the second one as `kmalloc` returned it. -/
theorem secondList_of_random (hrandom : cfg.Random) (hjobs : 1 < cfg.jobs) {sizes : List ℤ}
    (hlen : sizes.length = cfg.links) :
    ∃ s s', LinkRun.next cfg .beforeCreate (.createZeroed cfg sizes) = some s ∧
      s.next cfg (.createZeroed cfg sizes) = some s' ∧ s.tc.length = 1 ∧
      s'.sizeLists[1]? = some cfg.zeroCells := by
  let s := LinkRun.beforeCreate.create cfg true cfg.zeroCells sizes pattern pattern 1 1
  have hs : s.sizeLists = [sizes ++ [-1]] :=
    (sizeLists_create rfl _ sizes pattern pattern 1 1).trans (if_pos hrandom)
  have hone : s.tc.length = 1 := by
    rw [← List.length_map (·.buflist.listSize), ← LinkRun.sizeLists, hs, List.length_singleton]
  refine ⟨s, s.create cfg true cfg.zeroCells sizes pattern pattern 1 1, ?_, ?_, hone, ?_⟩
  · exact if_pos ⟨rfl, Nat.zero_lt_of_lt hjobs, hlen⟩
  · exact if_pos ⟨rfl, hone ▸ hjobs, hlen⟩
  · rw [sizeLists_create (Bool.or_true _), hs, storedSizes, if_pos hrandom]
    rfl

/-- **The configurations whose size lists are filled in time and left alone**, in every run. -/
theorem sizesKept_iff (cfg : TcLinkCfg) :
    (∀ s l s', (linkMachine cfg).ReachableVia (fun _ l => l.SizesPossible cfg) s →
      l.SizesPossible cfg → s.next cfg l = some s' → SizesKept cfg s s') ↔ cfg.OwnLists := by
  constructor
  · intro h
    by_contra hnot
    simp only [TcLinkCfg.OwnLists] at hnot
    push Not at hnot
    obtain ⟨hrandom, hjobs, hrange⟩ := hnot
    obtain ⟨random32, sizes, hlen, hok⟩ : ∃ random32 sizes, sizes.length = cfg.links ∧
        dmatestSizelistRandomize cfg.links cfg.min cfg.max txAlign random32 =
          .ok (sizes ++ [-1]) := by
      rcases Nat.eq_zero_or_pos cfg.links with hzero | hpos
      · exact ⟨fun _ => 0, [], hzero.symm, by rw [hzero]; rfl⟩
      · exact exists_sizelistRandomize (hrange hpos.ne') cfg.links
    have hpossible : (LinkLabel.createZeroed cfg sizes).SizesPossible cfg :=
      fun _ => ⟨random32, hok⟩
    obtain ⟨s, s', hs, hs', hone, hsecond⟩ := secondList_of_random hrandom hjobs hlen
    have hreach : (linkMachine cfg).ReachableVia (fun _ l => l.SizesPossible cfg) s :=
      .step _ (.step (.kmalloc true) (.init rfl) trivial rfl) hpossible hs
    exact cfg.not_initialised_zeroCells
      ((h s _ s' hreach hpossible hs').filled _ (hone ▸ hsecond))
  · exact fun hcfg s l s' _ hl hstep => (sizeLists_of_next hstep).sizesKept hcfg hl

/-- Two jobs of one link each, with sizes from 1 to 4. -/
def twoRandomJobs : TcLinkCfg where
  jobs := 2
  links := 1
  bufferSize := 0
  startInSequence := false
  minSize := 1
  maxSize := 4

/-- The second job changes the size of the first buffer from 4 to 3, and has no sizes itself. -/
theorem not_sizesKept_twoRandomJobs :
    ∃ s l s', (linkMachine twoRandomJobs).ReachableVia
        (fun _ l => l.SizesPossible twoRandomJobs) s ∧
      l.SizesPossible twoRandomJobs ∧ s.next twoRandomJobs l = some s' ∧
      s.sizeLists = [[4, -1]] ∧ s'.sizeLists = [[3, -1], [0, 0]] ∧
      ¬ SizesKept twoRandomJobs s s' := by
  have hfour : (LinkLabel.createZeroed twoRandomJobs [4]).SizesPossible twoRandomJobs :=
    fun _ => ⟨fun _ => 4294967295, rfl⟩
  have hthree : (LinkLabel.createZeroed twoRandomJobs [3]).SizesPossible twoRandomJobs :=
    fun _ => ⟨fun _ => 2863311530, rfl⟩
  refine ⟨_, .createZeroed twoRandomJobs [3], _, .step (.createZeroed twoRandomJobs [4])
    (.step (.kmalloc true) (.init rfl) trivial rfl) hfour rfl, hthree, rfl, rfl, rfl, fun h => ?_⟩
  exact twoRandomJobs.not_initialised_zeroCells (h.filled _ rfl)

end SnowballLtp.Dma
