import Mathlib.Data.Int.Order.Basic
import Mathlib.Order.Bounds.Basic

/-!
# Strided ranges

Blocks of one length whose first elements are one stride apart. The stride has either sign, and
blocks may overlap or leave gaps; the least and the greatest element only depend on the sign.

## Main definitions

* `strided`: the elements of the blocks.
* `lowest`, `highest`: the first element of the lowest block and the last one of the highest.

## Main results

* `strided_nonempty_iff`, `isLeast_strided`, `isGreatest_strided`.
-/

namespace SnowballLtp

/-- The elements of `count` blocks of length `len`, of which the first one starts at `offset` and
every other one `stride` behind the one before. -/
def strided (offset stride count len : ℤ) : Set ℤ :=
  {x | ∃ i j, (0 ≤ i ∧ i < count) ∧ (0 ≤ j ∧ j < len) ∧ x = offset + i * stride + j}

/-- The start of the lowest block. -/
def lowest (offset stride count : ℤ) : ℤ :=
  if stride < 0 then offset + (count - 1) * stride else offset

/-- The end of the highest block. -/
def highest (offset stride count len : ℤ) : ℤ :=
  if stride < 0 then offset + len - 1 else offset + (count - 1) * stride + len - 1

variable {offset stride count len : ℤ}

theorem strided_nonempty_iff :
    (strided offset stride count len).Nonempty ↔ 0 < count ∧ 0 < len := by
  constructor
  · rintro ⟨x, i, j, hi, hj, -⟩
    exact ⟨by omega, by omega⟩
  · rintro ⟨hcount, hlen⟩
    exact ⟨offset + 0 * stride + 0, 0, 0, ⟨le_rfl, hcount⟩, ⟨le_rfl, hlen⟩, rfl⟩

/-- The start of a block lies between the starts of the first and of the last one. -/
private theorem between_mul (stride : ℤ) {i : ℤ} (hi : 0 ≤ i ∧ i < count) :
    (0 ≤ stride → 0 ≤ i * stride ∧ i * stride ≤ (count - 1) * stride) ∧
      (stride < 0 → (count - 1) * stride ≤ i * stride ∧ i * stride ≤ 0) := by
  have hlast : i ≤ count - 1 := by omega
  refine ⟨fun h => ?_, fun h => ?_⟩
  · exact ⟨Int.mul_nonneg hi.1 h, Int.mul_le_mul_of_nonneg_right hlast h⟩
  · have hle : stride ≤ 0 := by omega
    exact ⟨Int.mul_le_mul_of_nonpos_right hlast hle, Int.mul_nonpos_of_nonneg_of_nonpos hi.1 hle⟩

theorem isLeast_strided (hcount : 0 < count) (hlen : 0 < len) :
    IsLeast (strided offset stride count len) (lowest offset stride count) := by
  rw [lowest]
  constructor
  · split
    · exact ⟨count - 1, 0, by omega, ⟨le_rfl, hlen⟩, (Int.add_zero _).symm⟩
    · exact ⟨0, 0, ⟨le_rfl, hcount⟩, ⟨le_rfl, hlen⟩, by omega⟩
  · rintro x ⟨i, j, hi, hj, rfl⟩
    obtain ⟨hforward, hbackward⟩ := between_mul stride hi
    split
    · next h =>
      have := hbackward h
      omega
    · next h =>
      have := hforward (by omega)
      omega

theorem isGreatest_strided (hcount : 0 < count) (hlen : 0 < len) :
    IsGreatest (strided offset stride count len) (highest offset stride count len) := by
  rw [highest]
  constructor
  · split
    · exact ⟨0, len - 1, ⟨le_rfl, hcount⟩, by omega, by omega⟩
    · exact ⟨count - 1, len - 1, by omega, by omega, by omega⟩
  · rintro x ⟨i, j, hi, hj, rfl⟩
    obtain ⟨hforward, hbackward⟩ := between_mul stride hi
    split
    · next h =>
      have := hbackward h
      omega
    · next h =>
      have := hforward (by omega)
      omega

end SnowballLtp
