import SnowballLtp.Machine.CInt
import SnowballLtp.Machine.Strided

/-!
# Bounds of a strided request

`stride_bounds` computes the first and the last byte of a strided request and the number of bytes
from one to the other. All three come from one count, `abs(stride) * (nstrides - 1) +
bytes_per_stride`, which is right when the request has bytes. Of a request without bytes it is the
number of bytes only in special cases; it may be any number, also the `-1` that stands for an error.

## Main definitions

* `Request`, `Request.bytes`: a request and its bytes.
* `strideBounds`.
* `BoundsBytes`: what the bounds should be.

## Main results

* `strideBounds_eq`: the bounds that are computed.
* `strideBounds_boundsBytes_iff`.
-/

namespace SnowballLtp

namespace Lio

/-- A strided request, with the values of type `int` that are accepted. -/
structure Request where
  offset : ℤ
  stride : ℤ
  nstrides : ℤ
  bytesPerStride : ℤ
  offset_inInt32 : InInt32 offset
  stride_inInt32 : InInt32 stride
  nstrides_inInt32 : InInt32 nstrides
  bytesPerStride_inInt32 : InInt32 bytesPerStride
  nstrides_nonneg : 0 ≤ nstrides
  bytesPerStride_nonneg : 0 ≤ bytesPerStride

/-- What a call leaves: the value returned, and `*min` and `*max` if there are such. -/
structure Bounds where
  ret : ℤ
  min : Option ℤ
  max : Option ℤ
  deriving DecidableEq, Repr

/-- `abs`. -/
def cabs (x : ℤ) : ℤ := int32 x.natAbs

/-- `stride_bounds`. -/
def strideBounds (offset stride nstrides bytesPerStride : ℤ) (min max : Option ℤ) : Bounds :=
  if nstrides < 0 ∨ bytesPerStride < 0 then { ret := -1, min, max }
  else
    let stride := if stride = 0 then bytesPerStride else stride
    let nbytes := int32 (int32 (cabs stride * int32 (nstrides - 1)) + bytesPerStride)
    let (minByte, maxByte) :=
      if stride < 0 then
        let maxByte := int32 (int32 (offset + bytesPerStride) - 1)
        (int32 (int32 (maxByte - nbytes) + 1), maxByte)
      else
        let minByte := offset
        (minByte, int32 (int32 (minByte + nbytes) - 1))
    { ret := nbytes, min := min.map fun _ => minByte, max := max.map fun _ => maxByte }

namespace Request

variable (r : Request)

/-- The distance of the blocks; zero stands for contiguous blocks. -/
def step : ℤ := if r.stride = 0 then r.bytesPerStride else r.stride

/-- The bytes of the request. -/
def bytes : Set ℤ := strided r.offset r.step r.nstrides r.bytesPerStride

/-- The first byte. -/
def low : ℤ := lowest r.offset r.step r.nstrides

/-- The last byte. -/
def high : ℤ := highest r.offset r.step r.nstrides r.bytesPerStride

/-- The distance of the first and the last block. -/
def span : ℤ := r.step.natAbs * (r.nstrides - 1)

/-- The bounds of the request. -/
def bounds (min max : Option ℤ) : Bounds :=
  strideBounds r.offset r.stride r.nstrides r.bytesPerStride min max

/-- The request has bytes; all of them and the sum of the product and the length of a block are
values of type `int`. -/
def HasBytes : Prop :=
  (0 < r.nstrides ∧ 0 < r.bytesPerStride) ∧
    (∀ x ∈ r.bytes, InInt32 x) ∧ InInt32 (r.span + r.bytesPerStride)

/-- A request without bytes for which the count is zero. -/
def Degenerate : Prop :=
  r.nstrides = 0 ∧ (r.stride = 0 ∨ (r.stride.natAbs : ℤ) = r.bytesPerStride) ∨
    r.bytesPerStride = 0 ∧ (r.stride = 0 ∨ r.nstrides = 1)

end Request

/-- What the bounds of a request should be: its least and its greatest byte and the number of bytes
from one to the other, and zero for a request without bytes. -/
def BoundsBytes (r : Request) (res : Bounds) : Prop :=
  (r.bytes.Nonempty → ∃ low high, IsLeast r.bytes low ∧ IsGreatest r.bytes high ∧
    res = { ret := high - low + 1, min := some low, max := some high }) ∧
    (¬r.bytes.Nonempty → res.ret = 0)

variable {r : Request}

/-- The count covers the blocks from the lowest to the highest. -/
theorem Request.high_sub_low (r : Request) : r.high - r.low + 1 = r.span + r.bytesPerStride := by
  rw [high, highest, low, lowest, span]
  split
  · next h =>
    rw [Int.ofNat_natAbs_of_nonpos (by omega), Int.neg_mul, Int.mul_comm]
    omega
  · next h =>
    rw [Int.natAbs_of_nonneg (by omega), Int.mul_comm]
    omega

/-- **The bounds that are computed**, as far as 32 bits keep them. -/
theorem strideBounds_eq (r : Request) (min max : Option ℤ) :
    r.bounds min max = { ret := int32 (r.span + r.bytesPerStride),
                         min := min.map fun _ => int32 r.low,
                         max := max.map fun _ => int32 r.high } := by
  have hn := r.nstrides_nonneg
  have hb := r.bytesPerStride_nonneg
  have hcount := r.high_sub_low
  have hlow : ¬r.step < 0 → r.low = r.offset := fun h => if_neg h
  have hhigh : r.step < 0 → r.high = r.offset + r.bytesPerStride - 1 := fun h => if_pos h
  have hstep : (if r.stride = 0 then r.bytesPerStride else r.stride) = r.step := rfl
  have hspan : r.step.natAbs * (r.nstrides - 1) = r.span := rfl
  rw [Request.bounds, strideBounds, if_neg (by omega)]
  simp only [hstep, cabs, int32_int32_mul, int32_mul_int32, int32_int32_add, int32_add_int32,
    int32_int32_sub, int32_sub_int32, hspan]
  split
  · next h =>
    rw [← hhigh h, show r.high - (r.span + r.bytesPerStride) + 1 = r.low by omega]
  · next h =>
    have hkept : int32 r.low = r.low := int32_eq_self ((hlow h).symm ▸ r.offset_inInt32)
    rw [← hlow h, hkept, show r.low + (r.span + r.bytesPerStride) - 1 = r.high by omega]

/-- Of a request without bytes the count is zero in the degenerate cases. -/
theorem Request.count_eq_zero_iff (hnone : ¬(0 < r.nstrides ∧ 0 < r.bytesPerStride)) :
    r.span + r.bytesPerStride = 0 ↔ r.Degenerate := by
  have hn := r.nstrides_nonneg
  have hb := r.bytesPerStride_nonneg
  rw [span, step, Degenerate]
  by_cases hzero : r.nstrides = 0
  · rw [hzero]
    split <;> omega
  · have hbytes : r.bytesPerStride = 0 := by omega
    rw [hbytes, Int.add_zero, Int.mul_eq_zero]
    split <;> omega

private theorem not_degenerate (hsome : 0 < r.nstrides ∧ 0 < r.bytesPerStride) :
    ¬r.Degenerate := by
  rw [Request.Degenerate]
  omega

/-- Without bytes the count is a value of type `int`. -/
private theorem inInt32_count (hproduct : InInt32 r.span)
    (hnone : ¬(0 < r.nstrides ∧ 0 < r.bytesPerStride)) :
    InInt32 (r.span + r.bytesPerStride) := by
  have hn := r.nstrides_nonneg
  have hb := r.bytesPerStride_nonneg
  obtain ⟨-, hmax⟩ := r.bytesPerStride_inInt32
  by_cases hzero : r.nstrides = 0
  · rw [InInt32, Request.span, hzero] at hproduct ⊢
    omega
  · rw [show r.bytesPerStride = 0 by omega, Int.add_zero]
    exact hproduct

/-- **Bounds of a strided request.** The bounds are right for a request with bytes, as far as they
are values of type `int`, and in the degenerate cases. -/
theorem strideBounds_boundsBytes_iff (r : Request) (min max : ℤ)
    (hproduct : InInt32 (r.step.natAbs * (r.nstrides - 1))) :
    BoundsBytes r (r.bounds (some min) (some max)) ↔ r.HasBytes ∨ r.Degenerate := by
  have hn := r.nstrides_nonneg
  have hb := r.bytesPerStride_nonneg
  have hbytes : r.bytes.Nonempty ↔ 0 < r.nstrides ∧ 0 < r.bytesPerStride := strided_nonempty_iff
  rw [strideBounds_eq, BoundsBytes]
  by_cases hsome : 0 < r.nstrides ∧ 0 < r.bytesPerStride
  · have hleast : IsLeast r.bytes r.low := isLeast_strided hsome.1 hsome.2
    have hgreatest : IsGreatest r.bytes r.high := isGreatest_strided hsome.1 hsome.2
    rw [or_iff_left (not_degenerate hsome), Request.HasBytes, ← r.high_sub_low]
    constructor
    · rintro ⟨h, -⟩
      obtain ⟨low, high, hlow, hhigh, heq⟩ := h (hbytes.mpr hsome)
      obtain rfl := hlow.unique hleast
      obtain rfl := hhigh.unique hgreatest
      simp only [Option.map_some, Bounds.mk.injEq, Option.some.injEq, int32_eq_self_iff] at heq
      obtain ⟨hcount, ⟨hmin, -⟩, -, hmax⟩ := heq
      refine ⟨hsome, fun x hx => ⟨?_, ?_⟩, hcount⟩
      · exact le_trans hmin (hleast.2 hx)
      · exact le_trans (hgreatest.2 hx) hmax
    · rintro ⟨-, hall, hcount⟩
      have hlow : InInt32 r.low := hall _ hleast.1
      have hhigh : InInt32 r.high := hall _ hgreatest.1
      refine ⟨fun _ => ⟨r.low, r.high, hleast, hgreatest, ?_⟩, fun h => absurd (hbytes.mpr hsome) h⟩
      rw [int32_eq_self hlow, int32_eq_self hhigh, int32_eq_self hcount]
      rfl
  · have hempty : ¬r.bytes.Nonempty := fun h => hsome (hbytes.mp h)
    have hcount : InInt32 (r.span + r.bytesPerStride) := inInt32_count hproduct hsome
    rw [or_iff_right fun h => hsome h.1, ← r.count_eq_zero_iff hsome, int32_eq_self hcount]
    exact ⟨fun h => h.2 hempty, fun h => ⟨fun hne => absurd hne hempty, fun _ => h⟩⟩

/-- Three blocks of two bytes, one every four bytes downwards. -/
def backwardRequest : Request where
  offset := 10
  stride := -4
  nstrides := 3
  bytesPerStride := 2
  offset_inInt32 := by decide
  stride_inInt32 := by decide
  nstrides_inInt32 := by decide
  bytesPerStride_inInt32 := by decide
  nstrides_nonneg := by decide
  bytesPerStride_nonneg := by decide

theorem strideBounds_boundsBytes_iff_backward :
    InInt32 (backwardRequest.step.natAbs * (backwardRequest.nstrides - 1)) ∧
      (BoundsBytes backwardRequest (backwardRequest.bounds (some 0) (some 0)) ↔
        backwardRequest.HasBytes ∨ backwardRequest.Degenerate) :=
  ⟨by decide, strideBounds_boundsBytes_iff backwardRequest 0 0 (by decide)⟩

/-- No block, with a stride one larger than a block would be long. -/
def emptyRequest : Request where
  offset := 0
  stride := 4
  nstrides := 0
  bytesPerStride := 3
  offset_inInt32 := by decide
  stride_inInt32 := by decide
  nstrides_inInt32 := by decide
  bytesPerStride_inInt32 := by decide
  nstrides_nonneg := by decide
  bytesPerStride_nonneg := by decide

/-- The number of bytes of a request without bytes is the value for an error. -/
theorem emptyRequest_not_boundsBytes :
    InInt32 (emptyRequest.step.natAbs * (emptyRequest.nstrides - 1)) ∧
      (emptyRequest.bounds (some 0) (some 0)).ret = -1 ∧
      ¬BoundsBytes emptyRequest (emptyRequest.bounds (some 0) (some 0)) := by
  refine ⟨by decide, by decide, fun h => ?_⟩
  have hempty : ¬emptyRequest.bytes.Nonempty := by
    rw [Request.bytes, strided_nonempty_iff]
    decide
  exact absurd (h.2 hempty) (by decide)

end Lio

end SnowballLtp
