import Mathlib.Data.Nat.Init
import Mathlib.Data.Int.Order.Basic

/-!
# Memory objects with bounds

A memory object is the list of its cells. The accesses of the C library are checked: one that
reaches outside its object, has a negative length or copies between overlapping parts of one
object is a `Fault` and has no result; so is a division by zero. A program that does not fault has
therefore stayed inside its objects.

`slice` and `overwrite` are the unchecked versions on natural numbers; the checked accesses agree
with them wherever they do not fault.

## Main definitions

* `Fault`, `slice`, `overwrite`.
* `cell`, `memcpy`, `memcpyWithin`, `memset`, `memcmp`.
* `CArray`: an array of a fixed number of cells.

## Main results

* `memcpy_eq_ok`, `memcpyWithin_eq_ok`, `memcmp_eq_ok`: the accesses inside the bounds.
* `memcpy_inv`: an access that is made is inside the bounds.
* `firstDifference_eq_zero_iff`.
-/

namespace SnowballLtp

variable {α : Type*}

/-- What goes wrong with an access or a division. -/
inductive Fault
  | negativeLength
  | outOfBounds
  | overlap
  | divisionByZero
  deriving DecidableEq, Repr

/-- The `len` cells from `pos` on. -/
def slice (obj : List α) (pos len : ℕ) : List α := (obj.drop pos).take len

/-- The object with `data` stored from `pos` on. -/
def overwrite (obj : List α) (pos : ℕ) (data : List α) : List α :=
  obj.take pos ++ data ++ obj.drop (pos + data.length)

theorem length_slice {obj : List α} {pos len : ℕ} (h : pos + len ≤ obj.length) :
    (slice obj pos len).length = len := by
  simp [slice]; omega

theorem getElem?_slice (obj : List α) (pos len i : ℕ) :
    (slice obj pos len)[i]? = if i < len then obj[pos + i]? else none := by
  simp [slice, List.getElem?_take]

theorem slice_append (obj : List α) (pos len more : ℕ) :
    slice obj pos len ++ slice obj (pos + len) more = slice obj pos (len + more) := by
  simp [slice, List.take_add, List.drop_drop]

theorem length_overwrite {obj data : List α} {pos : ℕ} (h : pos + data.length ≤ obj.length) :
    (overwrite obj pos data).length = obj.length := by
  simp [overwrite]; omega

theorem getElem?_overwrite {obj data : List α} {pos : ℕ} (h : pos + data.length ≤ obj.length)
    (i : ℕ) : (overwrite obj pos data)[i]? =
      if pos ≤ i ∧ i < pos + data.length then data[i - pos]? else obj[i]? := by
  have hpos : (obj.take pos).length = pos := List.length_take_of_le (by omega)
  rw [overwrite, List.append_assoc]
  by_cases hlow : i < pos
  · rw [List.getElem?_append_left (by omega), List.getElem?_take_of_lt hlow, if_neg (by omega)]
  · rw [List.getElem?_append_right (by omega), hpos]
    by_cases hmid : i < pos + data.length
    · rw [List.getElem?_append_left (by omega), if_pos ⟨by omega, hmid⟩]
    · rw [List.getElem?_append_right (by omega), List.getElem?_drop, if_neg (by omega)]
      congr 1
      omega

/-- Two pieces agree when their cells do. -/
theorem slice_eq_slice_iff (a b : List α) (apos bpos len : ℕ) :
    slice a apos len = slice b bpos len ↔ ∀ i < len, a[apos + i]? = b[bpos + i]? := by
  constructor
  · intro h i hi
    have hcell := congrArg (fun l => l[i]?) h
    simpa [getElem?_slice, hi] using hcell
  · intro h
    refine List.ext_getElem? fun i => ?_
    rw [getElem?_slice, getElem?_slice]
    by_cases hi : i < len
    · rw [if_pos hi, if_pos hi, h i hi]
    · rw [if_neg hi, if_neg hi]

/-- Storing data and then the data behind it. -/
theorem overwrite_overwrite_append (obj data more : List α) (pos : ℕ)
    (h : pos + (data ++ more).length ≤ obj.length) :
    overwrite (overwrite obj pos data) (pos + data.length) more =
      overwrite obj pos (data ++ more) := by
  rw [List.length_append] at h
  have hdata : pos + data.length ≤ obj.length := by omega
  have hlen := length_overwrite hdata
  refine List.ext_getElem? fun i => ?_
  rw [getElem?_overwrite (by omega), getElem?_overwrite hdata,
    getElem?_overwrite (by rw [List.length_append]; omega), List.length_append]
  by_cases hlow : i < pos + data.length
  · rw [if_neg (by omega)]
    by_cases hpos : pos ≤ i
    · rw [if_pos ⟨hpos, hlow⟩, if_pos (by omega), List.getElem?_append_left (by omega)]
    · rw [if_neg (by omega), if_neg (by omega)]
  · rw [List.getElem?_append_right (by omega)]
    rw [if_neg (show ¬ (pos ≤ i ∧ i < pos + data.length) by omega), Nat.sub_sub]
    exact if_congr (by omega) rfl rfl

/-- Data stored over data of the same length. -/
theorem overwrite_overwrite_self {obj data data' : List α} {pos : ℕ}
    (hlen : data.length = data'.length) (h : pos + data.length ≤ obj.length) :
    overwrite (overwrite obj pos data) pos data' = overwrite obj pos data' := by
  refine List.ext_getElem? fun i => ?_
  rw [getElem?_overwrite (by rw [length_overwrite h, ← hlen]; exact h), getElem?_overwrite h,
    getElem?_overwrite (by rw [← hlen]; exact h), hlen]
  split_ifs <;> rfl

@[simp] theorem overwrite_nil (obj : List α) (pos : ℕ) : overwrite obj pos [] = obj := by
  simp [overwrite]

theorem overwrite_all {obj data : List α} (h : data.length = obj.length) :
    overwrite obj 0 data = data := by
  simp [overwrite, h]

theorem slice_overwrite_self {obj data : List α} {pos : ℕ}
    (h : pos + data.length ≤ obj.length) :
    slice (overwrite obj pos data) pos data.length = data := by
  refine List.ext_getElem? fun i => ?_
  rw [getElem?_slice]
  by_cases hi : i < data.length
  · rw [if_pos hi, getElem?_overwrite h, if_pos (by omega), Nat.add_sub_cancel_left]
  · rw [if_neg hi, List.getElem?_eq_none (by omega)]

theorem slice_overwrite_of_apart {obj data : List α} {pos : ℕ} (spos len : ℕ)
    (h : pos + data.length ≤ obj.length) (hapart : spos + len ≤ pos ∨ pos + data.length ≤ spos) :
    slice (overwrite obj pos data) spos len = slice obj spos len := by
  rw [slice_eq_slice_iff]
  intro i hi
  rw [getElem?_overwrite h, if_neg (by omega)]

/-- A piece of a piece. -/
theorem slice_congr_of_le {a b : List α} {apos bpos len i n : ℕ}
    (h : slice a apos len = slice b bpos len) (hin : i + n ≤ len) :
    slice a (apos + i) n = slice b (bpos + i) n := by
  rw [slice_eq_slice_iff] at h ⊢
  intro j hj
  simpa only [Nat.add_assoc] using h (i + j) (by omega)

/-- The part between two others. -/
theorem slice_append_append (a b c : List α) : slice (a ++ b ++ c) a.length b.length = b := by
  rw [slice, List.append_assoc, List.drop_left, List.take_left]

/-- What is in front of the data, and the data. -/
theorem slice_overwrite_start (obj data : List α) (pos : ℕ)
    (h : pos + data.length ≤ obj.length) :
    slice (overwrite obj pos data) 0 (pos + data.length) = slice obj 0 pos ++ data := by
  rw [← slice_append, slice_overwrite_of_apart _ _ h (.inl (by omega)), Nat.zero_add,
    slice_overwrite_self h]

/-- Read `len` cells. -/
def load (obj : List α) (pos len : ℤ) : Except Fault (List α) :=
  if len < 0 then .error .negativeLength
  else if pos < 0 ∨ obj.length < pos + len then .error .outOfBounds
  else .ok (slice obj pos.toNat len.toNat)

/-- Write the cells of `data`. -/
def store (obj : List α) (pos : ℤ) (data : List α) : Except Fault (List α) :=
  if pos < 0 ∨ obj.length < pos + data.length then .error .outOfBounds
  else .ok (overwrite obj pos.toNat data)

/-- Read one cell. -/
def cell (obj : List α) (pos : ℤ) : Except Fault α :=
  if pos < 0 then .error .outOfBounds
  else
    match obj[pos.toNat]? with
    | some x => .ok x
    | none => .error .outOfBounds

/-- Set `len` cells to one value. -/
def memset (obj : List α) (pos : ℤ) (x : α) (len : ℤ) : Except Fault (List α) :=
  if len < 0 then .error .negativeLength else store obj pos (List.replicate len.toNat x)

/-- Copy between two objects. -/
def memcpy (dst : List α) (dpos : ℤ) (src : List α) (spos len : ℤ) : Except Fault (List α) :=
  match load src spos len with
  | .ok data => store dst dpos data
  | .error fault => .error fault

/-- Copy inside one object. -/
def memcpyWithin (obj : List α) (dpos spos len : ℤ) : Except Fault (List α) :=
  if dpos < spos + len ∧ spos < dpos + len then .error .overlap
  else memcpy obj dpos obj spos len

/-- The first two cells that differ, as their difference, and zero if none do. -/
def firstDifference : List UInt8 → List UInt8 → ℤ
  | x :: xs, y :: ys => if x = y then firstDifference xs ys else (x.toNat : ℤ) - y.toNat
  | _, _ => 0

/-- Compare `len` bytes. -/
def memcmp (a : List UInt8) (apos : ℤ) (b : List UInt8) (bpos len : ℤ) : Except Fault ℤ :=
  match load a apos len, load b bpos len with
  | .ok x, .ok y => .ok (firstDifference x y)
  | .error fault, _ => .error fault
  | _, .error fault => .error fault

/-! ### Accesses inside the bounds -/

theorem load_eq_ok (obj : List α) (pos len : ℕ) (h : pos + len ≤ obj.length) :
    load obj pos len = .ok (slice obj pos len) := by
  rw [load, if_neg (by omega), if_neg (by omega)]
  simp

theorem store_eq_ok (obj data : List α) (pos : ℕ) (h : pos + data.length ≤ obj.length) :
    store obj pos data = .ok (overwrite obj pos data) := by
  rw [store, if_neg (by omega)]
  simp

/-- Data stored behind the data that is there already. -/
theorem store_overwrite_append (obj data more : List α) (pos : ℕ)
    (h : pos + (data ++ more).length ≤ obj.length) :
    store (overwrite obj pos data) (pos + data.length : ℕ) more =
      .ok (overwrite obj pos (data ++ more)) := by
  rw [← overwrite_overwrite_append _ _ _ _ h]
  rw [List.length_append] at h
  exact store_eq_ok _ _ _ (by rw [length_overwrite (by omega)]; omega)

theorem cell_eq_ok {obj : List α} {pos : ℕ} {x : α} (h : obj[pos]? = some x) :
    cell obj pos = .ok x := by
  rw [cell, if_neg (by omega), Int.toNat_natCast, h]

theorem memset_eq_ok (obj : List α) (pos len : ℕ) (x : α) (h : pos + len ≤ obj.length) :
    memset obj pos x len = .ok (overwrite obj pos (List.replicate len x)) := by
  rw [memset, if_neg (by omega), Int.toNat_natCast]
  exact store_eq_ok _ _ _ (by rw [List.length_replicate]; exact h)

theorem memcpy_eq_ok (dst src : List α) (dpos spos len : ℕ) (hdst : dpos + len ≤ dst.length)
    (hsrc : spos + len ≤ src.length) :
    memcpy dst dpos src spos len = .ok (overwrite dst dpos (slice src spos len)) := by
  rw [memcpy, load_eq_ok _ _ _ hsrc]
  exact store_eq_ok _ _ _ (by rw [length_slice hsrc]; exact hdst)

/-- A copy that is made stays inside both objects. -/
theorem memcpy_inv {dst src obj : List α} {dpos spos len : ℤ}
    (h : memcpy dst dpos src spos len = .ok obj) :
    0 ≤ len ∧ 0 ≤ spos ∧ spos + len ≤ src.length ∧ 0 ≤ dpos ∧ dpos + len ≤ dst.length ∧
      obj = overwrite dst dpos.toNat (slice src spos.toNat len.toNat) := by
  rw [memcpy, load] at h
  split_ifs at h with hneg hsrc
  have hdata : (slice src spos.toNat len.toNat).length = len.toNat := length_slice (by omega)
  dsimp only at h
  rw [store, hdata] at h
  split_ifs at h with hdst
  exact ⟨by omega, by omega, by omega, by omega, by omega, (Except.ok.inj h).symm⟩

theorem memcpyWithin_eq_ok (obj : List α) (dpos spos len : ℕ) (hdst : dpos + len ≤ obj.length)
    (hsrc : spos + len ≤ obj.length) (hapart : dpos + len ≤ spos ∨ spos + len ≤ dpos) :
    memcpyWithin obj dpos spos len = .ok (overwrite obj dpos (slice obj spos len)) := by
  rw [memcpyWithin, if_neg (by omega)]
  exact memcpy_eq_ok _ _ _ _ _ hdst hsrc

theorem memcmp_eq_ok (a b : List UInt8) (apos bpos len : ℕ) (ha : apos + len ≤ a.length)
    (hb : bpos + len ≤ b.length) :
    memcmp a apos b bpos len = .ok (firstDifference (slice a apos len) (slice b bpos len)) := by
  rw [memcmp, load_eq_ok _ _ _ ha, load_eq_ok _ _ _ hb]

/-- A comparison of two pieces of one length is zero just when they agree. -/
theorem firstDifference_eq_zero_iff {x y : List UInt8} (h : x.length = y.length) :
    firstDifference x y = 0 ↔ x = y := by
  induction x generalizing y with
  | nil =>
    cases y with
    | nil => simp [firstDifference]
    | cons b y => simp at h
  | cons a x ih =>
    cases y with
    | nil => simp at h
    | cons b y =>
      have hlen : x.length = y.length := by simpa using h
      by_cases hab : a = b
      · simp [firstDifference, hab, ih hlen]
      · have hne : a.toNat ≠ b.toNat := fun heq => hab (UInt8.toNat_inj.mp heq)
        rw [firstDifference, if_neg hab]
        simp only [List.cons.injEq, hab, false_and, iff_false]
        omega

/-! ### Arrays of a fixed size -/

/-- An array of `n` cells. -/
@[ext] structure CArray (α : Type*) (n : ℕ) where
  cells : List α
  length_eq : cells.length = n

namespace CArray

variable {n : ℕ}

/-- An array with one value in every cell. -/
def fill (n : ℕ) (x : α) : CArray α n := ⟨List.replicate n x, List.length_replicate⟩

/-- The array that starts with `l`, with `x` in the cells behind it. -/
def pad (n : ℕ) (x : α) (l : List α) : CArray α n :=
  ⟨(l ++ List.replicate n x).take n, by simp⟩

theorem pad_nil (n : ℕ) (x : α) : pad n x [] = fill n x := by
  simp [pad, fill]

/-- Copy to the start of an array. -/
def memcpy (dst : CArray α n) (src : List α) (spos len : ℤ) : Except Fault (CArray α n) :=
  match load src spos len with
  | .ok data =>
    if h : data.length ≤ n then
      .ok ⟨overwrite dst.cells 0 data, by
        rw [length_overwrite (by rw [dst.length_eq]; omega), dst.length_eq]⟩
    else .error .outOfBounds
  | .error fault => .error fault

theorem memcpy_fill {x : α} {src : List α} {spos len : ℕ} (hdst : len ≤ n)
    (hsrc : spos + len ≤ src.length) :
    (fill n x).memcpy src spos len = .ok (pad n x (slice src spos len)) := by
  have hlen := length_slice hsrc
  rw [memcpy, load_eq_ok _ _ _ hsrc]
  dsimp only
  rw [dif_pos (by omega)]
  congr 2
  rw [List.take_append, hlen, List.take_of_length_le (by omega)]
  simp [overwrite, fill, hlen]

end CArray

end SnowballLtp
