import Mathlib.Data.List.Basic

/-!
# One bit of a mask

A choice from a mask keeps one of its bits and clears the others. Bits that are kept beside a choice
spoil it, unless the choice was from nothing and they are one bit themselves.

## Main definitions

* `IsBitOf`: one of the bits of a mask.
* `Picks`: a choice of one bit, if there is one.

## Main results

* `and_twoPow_ne_zero_iff`: the test of a bit.
* `picks_or_iff`: a choice beside bits that are kept.
-/

namespace SnowballLtp

variable {w : ℕ} {x mask kept pool chosen : BitVec w} {i : ℕ}

/-- The value is a bit of the mask. -/
def IsBitOf (x mask : BitVec w) : Prop :=
  ∃ i, i < w ∧ mask.getLsbD i = true ∧ x = BitVec.twoPow w i

/-- The value is one bit of the mask, and zero if the mask has none. -/
def Picks (x mask : BitVec w) : Prop := (mask = 0#w → x = 0#w) ∧ (mask ≠ 0#w → IsBitOf x mask)

theorem getLsbD_twoPow_iff {j : ℕ} (hi : i < w) : (BitVec.twoPow w i).getLsbD j = true ↔ i = j := by
  simp [BitVec.getLsbD_twoPow, hi]

/-- The condition `mask & (1 << i)`. -/
theorem and_twoPow_ne_zero_iff (mask : BitVec w) (hi : i < w) :
    mask &&& BitVec.twoPow w i ≠ 0#w ↔ mask.getLsbD i = true := by
  rw [BitVec.and_twoPow]
  split_ifs with hbit
  · refine iff_of_true (fun hzero => ?_) hbit
    have hself := (getLsbD_twoPow_iff (j := i) hi).mpr rfl
    rw [hzero] at hself
    simp at hself
  · exact iff_of_false (not_not_intro rfl) hbit

/-- A value that is not zero has a bit. -/
theorem exists_getLsbD (h : x ≠ 0#w) : ∃ i, i < w ∧ x.getLsbD i = true := by
  by_contra hnone
  refine h (BitVec.eq_of_getLsbD_eq fun i hi => ?_)
  have hbit : ¬x.getLsbD i = true := fun hbit => hnone ⟨i, hi, hbit⟩
  simpa using hbit

theorem IsBitOf.getLsbD (h : IsBitOf x mask) (hbit : x.getLsbD i = true) :
    mask.getLsbD i = true := by
  obtain ⟨j, hj, hmask, rfl⟩ := h
  obtain rfl := (getLsbD_twoPow_iff hj).mp hbit
  exact hmask

/-- A bit is one of the bits that the mask has in a wider type, and the other way round. -/
theorem IsBitOf.setWidth {v : ℕ} {x : BitVec v} (h : IsBitOf x (mask.setWidth v)) :
    IsBitOf (x.setWidth w) mask := by
  obtain ⟨i, hi, hbit, rfl⟩ := h
  rw [BitVec.getLsbD_setWidth, Bool.and_eq_true] at hbit
  refine ⟨i, BitVec.lt_of_getLsbD hbit.2, hbit.2, ?_⟩
  have hiw := BitVec.lt_of_getLsbD hbit.2
  refine BitVec.eq_of_getLsbD_eq fun j hj => ?_
  simp only [BitVec.getLsbD_setWidth, BitVec.getLsbD_twoPow, hi, hiw, hj, decide_true,
    Bool.true_and]

theorem Picks.setWidth {v : ℕ} {x : BitVec v} (hle : w ≤ v) (h : Picks x (mask.setWidth v)) :
    Picks (x.setWidth w) mask := by
  constructor
  · rintro rfl
    rw [h.1 (BitVec.setWidth_zero v w), BitVec.setWidth_zero]
  · refine fun hmask => (h.2 fun hzero => hmask ?_).setWidth
    rw [← BitVec.setWidth_eq mask, ← BitVec.setWidth_setWidth_of_le mask hle, hzero,
      BitVec.setWidth_zero]

/-- What is chosen is in every mask that has the pool. -/
theorem Picks.and_eq (h : Picks x mask) : x &&& mask = x := by
  by_cases hmask : mask = 0#w
  · rw [h.1 hmask, BitVec.zero_and]
  · refine BitVec.eq_of_getLsbD_eq fun i hi => ?_
    rw [BitVec.getLsbD_and]
    cases hbit : x.getLsbD i with
    | false => rfl
    | true => rw [(h.2 hmask).getLsbD hbit, Bool.and_true]

theorem Picks.and_of_covers {pool other : BitVec w} (h : Picks x (mask &&& pool))
    (hother : pool &&& other = pool) : x &&& other = x := by
  calc x &&& other = x &&& (mask &&& pool) &&& other := by rw [h.and_eq]
    _ = x &&& (mask &&& pool) := by rw [BitVec.and_assoc, BitVec.and_assoc, hother]
    _ = x := h.and_eq

theorem Picks.and_of_apart {pool other : BitVec w} (h : Picks x (mask &&& pool))
    (hother : pool &&& other = 0#w) : x &&& other = 0#w := by
  calc x &&& other = x &&& (mask &&& pool) &&& other := by rw [h.and_eq]
    _ = 0#w := by rw [BitVec.and_assoc, BitVec.and_assoc, hother, BitVec.and_zero, BitVec.and_zero]

/-- **A choice beside bits that are kept** is a choice from both if and only if nothing is kept, or
there is nothing to choose and one bit is kept. -/
theorem picks_or_iff (hdisj : kept &&& pool = 0#w) (hchosen : Picks chosen pool) :
    Picks (kept ||| chosen) (kept ||| pool) ↔
      kept = 0#w ∨ pool = 0#w ∧ ∃ i, i < w ∧ kept = BitVec.twoPow w i := by
  constructor
  · intro h
    by_contra hnot
    obtain ⟨hkept, hnone⟩ := not_or.mp hnot
    obtain ⟨j, hj, hjkept⟩ := exists_getLsbD hkept
    have hmask : kept ||| pool ≠ 0#w := fun hzero => by
      have hor : (kept ||| pool).getLsbD j = true := by simp [hjkept]
      rw [hzero] at hor
      simp at hor
    obtain ⟨i, hi, -, hor⟩ := h.2 hmask
    have honly : ∀ k, (kept ||| chosen).getLsbD k = true → i = k := fun k hk => by
      rw [hor] at hk
      exact (getLsbD_twoPow_iff hi).mp hk
    by_cases hpool : pool = 0#w
    · rw [hchosen.1 hpool, BitVec.or_zero] at hor
      exact hnone ⟨hpool, i, hi, hor⟩
    · -- the bit that is chosen would be the one that is kept
      obtain ⟨k, hk, hkpool, rfl⟩ := hchosen.2 hpool
      obtain rfl := honly j (by simp [hjkept])
      obtain rfl := honly k (by simp [hk])
      have hboth : (kept &&& pool).getLsbD i = true := by simp [hjkept, hkpool]
      rw [hdisj] at hboth
      simp at hboth
  · rintro (rfl | ⟨rfl, i, hi, rfl⟩)
    · rwa [BitVec.zero_or, BitVec.zero_or]
    · rw [hchosen.1 rfl, BitVec.or_zero]
      have hself := (getLsbD_twoPow_iff (j := i) hi).mpr rfl
      refine ⟨fun hzero => hzero, fun _ => ⟨i, hi, hself, rfl⟩⟩

end SnowballLtp
