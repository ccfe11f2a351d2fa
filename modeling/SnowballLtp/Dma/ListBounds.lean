import SnowballLtp.Dma.SizelistRandomize

/-!
# The arrays behind a buffer list

`dmatest_buflist_create` allocates ten arrays for a list of `length` buffers, each with a size
expression of its own. The other functions of `dma_test_lib.c` go through them with an index and
know the length only from the terminator of `list_size`, which is stored behind the last size. All
arrays have `length` elements but `list_size`, which has one more; for that one the source adds one
byte instead of one element.

Memory is taken to behave beyond its end: what is stored there is read again. So the loops can be
followed to their ends, and the accesses outside an array are found in the trace.

## Main definitions

* `Arr`, `requested`, `Access.Within`: the arrays, the bytes asked for and the bytes accessed.
* `forSizes`: the loop `for (i = 0; list_size[i] != -1; i++)`.
* `Scenario`, `Scenario.run`: the life of one buffer list.

## Main results

* `Scenario.run_fine`: where the loops stop, and which elements are accessed.
* `not_within_terminator`: the terminator is not inside its array.
* `Scenario.not_keepsBounds`.
-/

namespace SnowballLtp.Dma.ListBounds

/-- The arrays that `struct buflist` points at. -/
inductive Arr where
  | listSize
  | listBufDst
  | listBufDstReal
  | listBufSrc
  | desc
  | cookie
  | listDstPhy
  | listSrcPhy
  | sglSrc
  | sglDst
  deriving DecidableEq, Repr

/-- The sizes of a pointer, an `int`, a `dma_addr_t` and a `dma_cookie_t` on the target. -/
def sizeofWord : ℕ := 4

/-- The size of an element; that of `struct scatterlist` depends on the configuration. -/
def Arr.elemSize (sizeofScatterlist : ℕ) : Arr → ℕ
  | sglSrc | sglDst => sizeofScatterlist
  | _ => sizeofWord

/-- The conversion to `size_t`. -/
def sizeT (x : ℕ) : ℕ := x % 2 ^ 32

/-- The bytes that `dmatest_buflist_create` asks `kmalloc` for. -/
def requested (sizeofScatterlist length : ℕ) : Arr → ℕ
  | .listSize => sizeT (sizeofWord * length + 1)
  | .sglSrc | .sglDst => sizeT (sizeofScatterlist * length)
  | _ => sizeT (sizeofWord * length)

/-- An element that is read or written. -/
structure Access where
  arr : Arr
  index : ℕ
  deriving DecidableEq, Repr

/-- The element lies within the bytes that were asked for. -/
def Access.Within (sizeofScatterlist length : ℕ) (a : Access) : Prop :=
  (a.index + 1) * a.arr.elemSize sizeofScatterlist ≤ requested sizeofScatterlist length a.arr

instance (sizeofScatterlist length : ℕ) (a : Access) :
    Decidable (a.Within sizeofScatterlist length) :=
  inferInstanceAs (Decidable (_ ≤ _))

/-- The elements accessed, and the indices at which the loops over `list_size` have stopped. -/
structure Trace where
  accesses : List Access
  stops : List ℕ
  deriving DecidableEq, Repr

instance : Append Trace := ⟨fun t u => ⟨t.accesses ++ u.accesses, t.stops ++ u.stops⟩⟩

@[simp] theorem accesses_append (t u : Trace) : (t ++ u).accesses = t.accesses ++ u.accesses := rfl

@[simp] theorem stops_append (t u : Trace) : (t ++ u).stops = t.stops ++ u.stops := rfl

/-- Accesses outside these loops. -/
def plain (accesses : List Access) : Trace := ⟨accesses, []⟩

/-- The elements of an array up to an index. -/
def Arr.firsts (arr : Arr) (n : ℕ) : List Access := (List.range n).map (⟨arr, ·⟩)

/-! ### The functions -/

/-- The loop `for (i = 0; list_size[i] != -1; i++)` from index `i` on, with a bound on its passes.
A pass accesses the elements that `body` lists. -/
def forSizes (cells : ℕ → ℤ) (body : ℕ → List Access) : (fuel i : ℕ) → Option Trace
  | 0, _ => none
  | fuel + 1, i =>
    if cells i = -1 then some ⟨[⟨.listSize, i⟩], [i]⟩
    else (forSizes cells body fuel (i + 1)).map fun t => plain (⟨.listSize, i⟩ :: body i) ++ t

/-- `dmatest_buflist_create`: the elements that `sg_init_table` clears. -/
def dmatestBuflistCreate (length : ℕ) : Trace :=
  plain (Arr.sglSrc.firsts length ++ Arr.sglDst.firsts length)

/-- `dmatest_sizelist_set`: what it leaves in `list_size`. -/
def dmatestSizelistSet (listLen : ℕ) (value : BitVec 32) (align : ℤ) : List ℤ :=
  List.replicate listLen (alignU32 value align).toInt ++ [-1]

/-- How the sizes are stored. -/
inductive Fill where
  | set (value : BitVec 32) (align : ℤ)
  | randomize (min max : BitVec 32) (align : ℤ) (random32 : ℕ → BitVec 32)

/-- What is left in `list_size`. -/
def Fill.cells (listLen : ℕ) : Fill → Except Trap (List ℤ)
  | set value align => .ok (dmatestSizelistSet listLen value align)
  | randomize min max align random32 => dmatestSizelistRandomize listLen min max align random32

/-- The elements stored, and read again by the `BUG_ON` of `dmatest_sizelist_randomize`. -/
def Fill.trace (listLen : ℕ) : Fill → Trace
  | set _ _ => plain (Arr.listSize.firsts listLen ++ [⟨.listSize, listLen⟩])
  | randomize .. => plain ((List.range listLen).flatMap (fun i =>
      [⟨.listSize, i⟩, ⟨.listSize, i⟩]) ++ [⟨.listSize, listLen⟩])

/-- `dmatest_buflist_alloc`. -/
def dmatestBuflistAlloc (cells : ℕ → ℤ) (fuel : ℕ) : Option Trace := do
  let buffers ← forSizes cells (fun i =>
    [⟨.listSize, i⟩, ⟨.listBufDstReal, i⟩, ⟨.listBufDst, i⟩, ⟨.listBufSrc, i⟩]) fuel 0
  let lists ← forSizes cells (fun i =>
    [⟨.sglSrc, i⟩, ⟨.listBufSrc, i⟩, ⟨.listSize, i⟩,
      ⟨.sglDst, i⟩, ⟨.listBufDst, i⟩, ⟨.listSize, i⟩]) fuel 0
  return buffers ++ lists

/-- `dmatest_buflist_start_single` on a list whose descriptors are not prepared. -/
def dmatestBuflistStartSingle (cells : ℕ → ℤ) (fuel : ℕ) : Option Trace := do
  let prepare ← forSizes cells (fun i =>
    [⟨.listBufSrc, i⟩, ⟨.listSize, i⟩, ⟨.listSrcPhy, i⟩,
      ⟨.listBufDst, i⟩, ⟨.listSize, i⟩, ⟨.listDstPhy, i⟩,
      ⟨.listDstPhy, i⟩, ⟨.listSrcPhy, i⟩, ⟨.listSize, i⟩, ⟨.desc, i⟩,
      ⟨.desc, i⟩, ⟨.desc, i⟩]) fuel 0
  let submit ← forSizes cells (fun i => [⟨.desc, i⟩, ⟨.desc, i⟩, ⟨.cookie, i⟩]) fuel 0
  return prepare ++ submit

/-- `dmatest_buflist_start_sg` on such a list. The lengths are what `dma_map_sg` returns. -/
def dmatestBuflistStartSg (listLen sglSrcLen sglDstLen : ℕ) : Trace :=
  plain (Arr.sglSrc.firsts listLen ++ Arr.sglDst.firsts listLen ++ Arr.sglDst.firsts sglDstLen ++
    Arr.sglSrc.firsts sglSrcLen ++ [⟨.desc, 0⟩, ⟨.cookie, 0⟩])

/-- `MAX_ERROR_PRINTS`. -/
def maxErrorPrints : ℕ := 16

/-- `dmatest_buflist_payload_printdiff`, for a buffer with the given number of bytes that differ. -/
def dmatestBuflistPayloadPrintdiff (bufIndex differing : ℕ) : List Access :=
  [⟨.listSize, bufIndex⟩, ⟨.listBufDst, bufIndex⟩, ⟨.listBufSrc, bufIndex⟩] ++
    (List.range (min differing maxErrorPrints)).flatMap fun _ =>
      [⟨.listBufDst, bufIndex⟩, ⟨.listDstPhy, bufIndex⟩]

/-- A pass of the loop of `dmatest_buflist_payload_check`. -/
def payloadCheckPass (sglSrcLen sglDstLen : ℕ) (differing : ℕ → ℕ) (i : ℕ) : List Access :=
  (if sglSrcLen = 0 then [⟨.listSrcPhy, i⟩, ⟨.listSize, i⟩] else []) ++
  (if sglDstLen = 0 then [⟨.listDstPhy, i⟩, ⟨.listSize, i⟩] else []) ++
  [⟨.listBufDst, i⟩, ⟨.listBufSrc, i⟩, ⟨.listSize, i⟩] ++
  if differing i = 0 then [] else dmatestBuflistPayloadPrintdiff i (differing i)

/-- `dmatest_buflist_payload_check`. -/
def dmatestBuflistPayloadCheck (cells : ℕ → ℤ) (fuel sglSrcLen sglDstLen : ℕ)
    (differing : ℕ → ℕ) : Option Trace := do
  let check ← forSizes cells (payloadCheckPass sglSrcLen sglDstLen differing) fuel 0
  return plain (Arr.sglSrc.firsts sglSrcLen ++ Arr.sglDst.firsts sglDstLen) ++ check

/-- `dmatest_buflist_free`, which `dmatest_buflist_destroy` calls. -/
def dmatestBuflistFree (cells : ℕ → ℤ) (fuel : ℕ) : Option Trace :=
  forSizes cells (fun i =>
    [⟨.listBufDstReal, i⟩, ⟨.listBufSrc, i⟩, ⟨.listBufDst, i⟩, ⟨.listBufSrc, i⟩]) fuel 0

/-! ### The life of a list -/

/-- How a transfer is started; `dma_map_sg` returns no more entries than it is given. -/
inductive Start (listLen : ℕ) where
  | single
  | sg (sglSrcLen sglDstLen : Fin (listLen + 1))

/-- `sgl_src_len` and `sgl_dst_len` after the start. -/
def Start.sglLens {listLen : ℕ} : Start listLen → ℕ × ℕ
  | single => (0, 0)
  | sg sglSrcLen sglDstLen => (sglSrcLen, sglDstLen)

def Start.trace {listLen : ℕ} (cells : ℕ → ℤ) (fuel : ℕ) : Start listLen → Option Trace
  | single => dmatestBuflistStartSingle cells fuel
  | sg sglSrcLen sglDstLen => some (dmatestBuflistStartSg listLen sglSrcLen sglDstLen)

/-- The life of a buffer list that is created, filled, allocated, started, checked and
destroyed. -/
structure Scenario where
  length : ℕ
  one_le_length : 1 ≤ length
  fill : Fill
  sizes : List ℤ
  filled : fill.cells length = .ok (sizes ++ [-1])
  sizes_range : ∀ v ∈ sizes, 1 ≤ v ∧ v ≤ 2 ^ 30
  /-- What the memory from `list_size` on holds before the sizes are stored. -/
  memory : ℕ → ℤ
  start : Start length
  /-- How many bytes of a buffer differ when the payload is checked. -/
  differing : ℕ → ℕ

namespace Scenario

variable (s : Scenario)

/-- The memory from `list_size` on, when the sizes have been stored. -/
def cells (i : ℕ) : ℤ := (s.sizes ++ [-1])[i]?.getD (s.memory i)

/-- The calls one after the other. -/
def run (fuel : ℕ) : Option Trace := do
  let alloc ← dmatestBuflistAlloc s.cells fuel
  let start ← s.start.trace s.cells fuel
  let check ← dmatestBuflistPayloadCheck s.cells fuel s.start.sglLens.1 s.start.sglLens.2
    s.differing
  let free ← dmatestBuflistFree s.cells fuel
  return dmatestBuflistCreate s.length ++ s.fill.trace s.length ++ alloc ++ start ++ check ++ free

/-- Every element that is accessed lies within the bytes asked for, and every loop stops behind the
last size. -/
def KeepsBounds (sizeofScatterlist : ℕ) : Prop :=
  ∀ fuel t, s.run fuel = some t →
    (∀ a ∈ t.accesses, a.Within sizeofScatterlist s.length) ∧ ∀ i ∈ t.stops, i = s.length

end Scenario

/-! ### Where the accesses are -/

section

variable {n fuel i : ℕ} {t u : Trace} {cells : ℕ → ℤ} {body : ℕ → List Access}

/-- Every loop stops at the index `n`, and apart from the terminator only elements in front of it
are accessed. -/
structure Trace.Fine (n : ℕ) (t : Trace) : Prop where
  stops : ∀ i ∈ t.stops, i = n
  accesses : ∀ a ∈ t.accesses, a.index < n ∨ a = ⟨.listSize, n⟩

theorem Trace.Fine.append (h : t.Fine n) (h' : u.Fine n) : (t ++ u).Fine n where
  stops := List.forall_mem_append.mpr ⟨h.stops, h'.stops⟩
  accesses := List.forall_mem_append.mpr ⟨h.accesses, h'.accesses⟩

theorem fine_plain {accesses : List Access}
    (h : ∀ a ∈ accesses, a.index < n ∨ a = ⟨.listSize, n⟩) : (plain accesses).Fine n :=
  ⟨by simp [plain], h⟩

theorem index_lt_of_mem_firsts {arr : Arr} {a : Access} (h : a ∈ arr.firsts n) : a.index < n := by
  obtain ⟨i, hi, rfl⟩ := List.mem_map.mp h
  exact List.mem_range.mp hi

/-- The memory holds `n` sizes and the terminator behind them. -/
structure Filled (cells : ℕ → ℤ) (n : ℕ) : Prop where
  sizes : ∀ i < n, cells i ≠ -1
  terminator : cells n = -1

/-- **The loop** passes over the sizes and stops at the terminator. -/
theorem forSizes_fine (h : Filled cells n) (hbody : ∀ i < n, ∀ a ∈ body i, a.index < n)
    (hi : i ≤ n) (hfuel : n < fuel + i) :
    ∃ t, forSizes cells body fuel i = some t ∧ t.Fine n := by
  induction fuel generalizing i with
  | zero => omega
  | succ fuel ih =>
    rcases Nat.lt_or_eq_of_le hi with hlt | rfl
    · obtain ⟨t, ht, hfine⟩ := ih (i := i + 1) hlt (by omega)
      refine ⟨_, by rw [forSizes, if_neg (h.sizes i hlt), ht]; rfl,
        (fine_plain fun a ha => .inl ?_).append hfine⟩
      rcases List.mem_cons.mp ha with rfl | ha
      · exact hlt
      · exact hbody i hlt a ha
    · exact ⟨_, by rw [forSizes, if_pos h.terminator], by simp, by simp⟩

/-- A loop whose body stays at its index. -/
theorem forSizes_fine_zero (h : Filled cells n) (body : ℕ → List Access)
    (hbody : ∀ i, ∀ a ∈ body i, a.index = i) :
    ∃ t, forSizes cells body (n + 1) 0 = some t ∧ t.Fine n :=
  forSizes_fine h (fun i hi a ha => (hbody i a ha).trans_lt hi) (Nat.zero_le n) (by omega)

/-! ### The functions, one by one -/

theorem create_fine (n : ℕ) : (dmatestBuflistCreate n).Fine n :=
  fine_plain fun _ ha => .inl <| (List.mem_append.mp ha).elim index_lt_of_mem_firsts
    index_lt_of_mem_firsts

theorem fill_fine (fill : Fill) (n : ℕ) : (fill.trace n).Fine n := by
  cases fill with
  | set value align =>
    refine fine_plain fun a ha => (List.mem_append.mp ha).imp index_lt_of_mem_firsts fun h => ?_
    exact List.mem_singleton.mp h
  | randomize min max align random32 =>
    refine fine_plain fun a ha => (List.mem_append.mp ha).imp (fun h => ?_) fun h => ?_
    · obtain ⟨i, hi, ha⟩ := List.mem_flatMap.mp h
      have hindex : a.index = i := by
        simp only [List.mem_cons, List.not_mem_nil, or_false, or_self] at ha
        rw [ha]
      exact hindex.trans_lt (List.mem_range.mp hi)
    · exact List.mem_singleton.mp h

theorem alloc_fine (h : Filled cells n) :
    ∃ t, dmatestBuflistAlloc cells (n + 1) = some t ∧ t.Fine n := by
  obtain ⟨t, ht, hfine⟩ := forSizes_fine_zero h (fun i =>
    [⟨.listSize, i⟩, ⟨.listBufDstReal, i⟩, ⟨.listBufDst, i⟩, ⟨.listBufSrc, i⟩]) (by simp)
  obtain ⟨u, hu, hfine'⟩ := forSizes_fine_zero h (fun i =>
    [⟨.sglSrc, i⟩, ⟨.listBufSrc, i⟩, ⟨.listSize, i⟩,
      ⟨.sglDst, i⟩, ⟨.listBufDst, i⟩, ⟨.listSize, i⟩]) (by simp)
  exact ⟨t ++ u, by simp [dmatestBuflistAlloc, ht, hu], hfine.append hfine'⟩

theorem startSingle_fine (h : Filled cells n) :
    ∃ t, dmatestBuflistStartSingle cells (n + 1) = some t ∧ t.Fine n := by
  obtain ⟨t, ht, hfine⟩ := forSizes_fine_zero h (fun i =>
    [⟨.listBufSrc, i⟩, ⟨.listSize, i⟩, ⟨.listSrcPhy, i⟩,
      ⟨.listBufDst, i⟩, ⟨.listSize, i⟩, ⟨.listDstPhy, i⟩,
      ⟨.listDstPhy, i⟩, ⟨.listSrcPhy, i⟩, ⟨.listSize, i⟩, ⟨.desc, i⟩,
      ⟨.desc, i⟩, ⟨.desc, i⟩]) (by simp)
  obtain ⟨u, hu, hfine'⟩ := forSizes_fine_zero h (fun i =>
    [⟨.desc, i⟩, ⟨.desc, i⟩, ⟨.cookie, i⟩]) (by simp)
  exact ⟨t ++ u, by simp [dmatestBuflistStartSingle, ht, hu], hfine.append hfine'⟩

theorem startSg_fine (hn : 1 ≤ n) {sglSrcLen sglDstLen : ℕ} (hsrc : sglSrcLen ≤ n)
    (hdst : sglDstLen ≤ n) : (dmatestBuflistStartSg n sglSrcLen sglDstLen).Fine n := by
  refine fine_plain fun a ha => .inl ?_
  simp only [List.mem_append, List.mem_cons, List.not_mem_nil, or_false] at ha
  rcases ha with (((ha | ha) | ha) | ha) | rfl | rfl
  · exact index_lt_of_mem_firsts ha
  · exact index_lt_of_mem_firsts ha
  · exact (index_lt_of_mem_firsts ha).trans_le hdst
  · exact (index_lt_of_mem_firsts ha).trans_le hsrc
  · exact hn
  · exact hn

theorem index_eq_of_mem_payloadPrintdiff {d : ℕ} {a : Access}
    (h : a ∈ dmatestBuflistPayloadPrintdiff i d) : a.index = i := by
  simp only [dmatestBuflistPayloadPrintdiff, List.mem_append, List.mem_flatMap, List.mem_cons,
    List.not_mem_nil, or_false] at h
  rcases h with (rfl | rfl | rfl) | ⟨-, -, rfl | rfl⟩ <;> rfl

theorem index_eq_of_mem_payloadCheckPass {sglSrcLen sglDstLen : ℕ} {differing : ℕ → ℕ}
    {a : Access} (h : a ∈ payloadCheckPass sglSrcLen sglDstLen differing i) : a.index = i := by
  simp only [payloadCheckPass, List.mem_append, List.mem_ite_nil_right, List.mem_ite_nil_left,
    List.mem_cons, List.not_mem_nil, or_false] at h
  rcases h with ((⟨-, rfl | rfl⟩ | ⟨-, rfl | rfl⟩) | rfl | rfl | rfl) | ⟨-, h⟩
  case inr => exact index_eq_of_mem_payloadPrintdiff h
  all_goals rfl

theorem payloadCheck_fine (h : Filled cells n) {sglSrcLen sglDstLen : ℕ} (hsrc : sglSrcLen ≤ n)
    (hdst : sglDstLen ≤ n) (differing : ℕ → ℕ) :
    ∃ t, dmatestBuflistPayloadCheck cells (n + 1) sglSrcLen sglDstLen differing = some t ∧
      t.Fine n := by
  obtain ⟨t, ht, hfine⟩ := forSizes_fine_zero h (payloadCheckPass sglSrcLen sglDstLen differing)
    fun i a ha => index_eq_of_mem_payloadCheckPass ha
  refine ⟨_, by rw [dmatestBuflistPayloadCheck, ht]; rfl, (fine_plain fun a ha => .inl ?_).append
    hfine⟩
  rcases List.mem_append.mp ha with ha | ha
  · exact (index_lt_of_mem_firsts ha).trans_le hsrc
  · exact (index_lt_of_mem_firsts ha).trans_le hdst

theorem free_fine (h : Filled cells n) :
    ∃ t, dmatestBuflistFree cells (n + 1) = some t ∧ t.Fine n :=
  forSizes_fine_zero h _ (by simp)

end

/-! ### The whole life -/

section

theorem length_of_randomizeFrom {min max : BitVec 32} {align : ℤ} {random32 : ℕ → BitVec 32}
    {n i : ℕ} {cells : List ℤ} (h : randomizeFrom min max align random32 n i = .ok cells) :
    cells.length = n + 1 := by
  induction n generalizing i cells with
  | zero =>
    cases h
    rfl
  | succ n ih =>
    rw [randomizeFrom] at h
    cases hsize : randomSize min max align (random32 i) with
    | error e => simp [hsize, bind, Except.bind] at h
    | ok size =>
      simp only [hsize, bind, Except.bind] at h
      split_ifs at h
      cases hrest : randomizeFrom min max align random32 n (i + 1) with
      | error e => simp [hrest] at h
      | ok rest =>
        simp only [hrest, pure, Except.pure, Except.ok.injEq] at h
        rw [← h, List.length_cons, ih hrest]

theorem length_of_fill {fill : Fill} {n : ℕ} {cells : List ℤ} (h : fill.cells n = .ok cells) :
    cells.length = n + 1 := by
  cases fill with
  | set value align =>
    cases h
    simp [dmatestSizelistSet]
  | randomize min max align random32 => exact length_of_randomizeFrom h

end

/-- The terminator needs `4 * n + 4` bytes of `4 * n + 1`, or of what is left of them when the
product overflows. -/
theorem not_within_terminator (n sizeofScatterlist : ℕ) :
    ¬ (⟨.listSize, n⟩ : Access).Within sizeofScatterlist n := by
  have hmod := Nat.mod_le (4 * n + 1) (2 ^ 32)
  simp only [Access.Within, Arr.elemSize, requested, sizeT, sizeofWord]
  omega

namespace Scenario

variable (s : Scenario)

theorem length_sizes : s.sizes.length = s.length := by
  simpa using length_of_fill s.filled

theorem cells_filled : Filled s.cells s.length where
  sizes i hi := by
    have hi' : i < s.sizes.length := by rwa [length_sizes]
    have hcell : s.cells i = s.sizes[i] := by
      simp [cells, List.getElem?_append_left hi', hi']
    have hrange := s.sizes_range _ (List.getElem_mem hi')
    omega
  terminator := by simp [cells, ← length_sizes]

theorem start_fine :
    ∃ t, s.start.trace s.cells (s.length + 1) = some t ∧ t.Fine s.length := by
  cases s.start with
  | single => exact startSingle_fine s.cells_filled
  | sg sglSrcLen sglDstLen =>
    exact ⟨_, rfl, startSg_fine s.one_le_length sglSrcLen.is_le sglDstLen.is_le⟩

theorem sglLens_le : s.start.sglLens.1 ≤ s.length ∧ s.start.sglLens.2 ≤ s.length := by
  cases s.start with
  | single => exact ⟨Nat.zero_le _, Nat.zero_le _⟩
  | sg sglSrcLen sglDstLen => exact ⟨sglSrcLen.is_le, sglDstLen.is_le⟩

/-- **Every life** comes to its end; its loops stop behind the last size, and the terminator is
among the elements that are accessed. -/
theorem run_fine :
    ∃ t, s.run (s.length + 1) = some t ∧ t.Fine s.length ∧ ⟨.listSize, s.length⟩ ∈ t.accesses := by
  have hfilled := s.cells_filled
  obtain ⟨alloc, halloc, hallocFine⟩ := alloc_fine hfilled
  obtain ⟨start, hstart, hstartFine⟩ := s.start_fine
  obtain ⟨check, hcheck, hcheckFine⟩ :=
    payloadCheck_fine hfilled s.sglLens_le.1 s.sglLens_le.2 s.differing
  obtain ⟨free, hfree, hfreeFine⟩ := free_fine hfilled
  have hfill := (create_fine s.length).append (fill_fine s.fill s.length)
  refine ⟨_, by simp only [run, halloc, hstart, hcheck, hfree]; rfl,
    (((hfill.append hallocFine).append hstartFine).append hcheckFine).append hfreeFine, ?_⟩
  have hmem : ⟨.listSize, s.length⟩ ∈ (s.fill.trace s.length).accesses := by
    cases s.fill <;> simp [Fill.trace, plain]
  simp only [accesses_append, List.mem_append, hmem, or_true, true_or]

/-- The bounds are not kept, whatever the length, the sizes and the way of the transfer. -/
theorem not_keepsBounds (sizeofScatterlist : ℕ) : ¬ s.KeepsBounds sizeofScatterlist := by
  intro h
  obtain ⟨t, hrun, -, hmem⟩ := s.run_fine
  exact not_within_terminator s.length sizeofScatterlist ((h _ t hrun).1 _ hmem)

/-- One buffer of four bytes. -/
def single : Scenario where
  length := 1
  one_le_length := le_rfl
  fill := .set 4 1
  sizes := [4]
  filled := rfl
  sizes_range := by simp
  memory := fun _ => 0
  start := .single
  differing := fun _ => 0

/-- Its list of sizes is an `int` and the terminator, in an array of five bytes. -/
theorem single_not_keepsBounds : ¬ single.KeepsBounds 16 := by
  obtain ⟨t, ht⟩ : ∃ t, single.run 2 = some t ∧ ⟨.listSize, 1⟩ ∈ t.accesses :=
    ⟨_, rfl, by decide⟩
  intro h
  exact absurd ((h 2 t ht.1).1 _ ht.2) (by decide)

end Scenario

end SnowballLtp.Dma.ListBounds
