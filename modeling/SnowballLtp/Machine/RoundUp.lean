import Mathlib.Data.Nat.Bitwise

/-!
# Rounding up to a multiple

The least multiple of a number that is not below a given one, and the way machines compute it when
the number is a power of two: add the mask of the low bits and clear them.

## Main definitions

* `roundUp`, `maskUp`.

## Main results

* `roundUp_le_iff`: the least multiple.
* `toNat_maskUp`: masking rounds up, unless the sum overflows.
-/

namespace SnowballLtp

/-! ### Natural numbers -/

/-- The least multiple of `a` from `x` on. -/
def roundUp (x a : ℕ) : ℕ := (x + (a - 1)) / a * a

variable {x y a : ℕ}

theorem dvd_roundUp : a ∣ roundUp x a := Dvd.intro_left _ rfl

theorem le_roundUp (ha : 0 < a) : x ≤ roundUp x a := by
  have hlt := Nat.lt_div_mul_add (a := x + (a - 1)) ha
  unfold roundUp
  omega

theorem roundUp_lt (ha : 0 < a) : roundUp x a < x + a := by
  have hle := Nat.div_mul_le_self (x + (a - 1)) a
  unfold roundUp
  omega

/-- **The least multiple.** A multiple of `a` that is not below `x` is not below `x` rounded
up. -/
theorem roundUp_le_iff (ha : 0 < a) (hy : a ∣ y) : roundUp x a ≤ y ↔ x ≤ y := by
  refine ⟨(le_roundUp ha).trans, fun h => ?_⟩
  obtain ⟨m, rfl⟩ := hy
  obtain ⟨n, hn⟩ := dvd_roundUp (x := x) (a := a)
  have hlt : a * n < a * (m + 1) := by
    calc a * n = roundUp x a := hn.symm
      _ < x + a := roundUp_lt ha
      _ ≤ a * m + a := Nat.add_le_add_right h a
      _ = a * (m + 1) := (Nat.mul_succ a m).symm
  rw [hn]
  exact Nat.mul_le_mul_left a (Nat.lt_succ_iff.mp (Nat.lt_of_mul_lt_mul_left hlt))

/-! ### Bit vectors -/

/-- Rounding up with the mask of the low bits. -/
def maskUp {w : ℕ} (x mask : BitVec w) : BitVec w := (x + mask) &&& ~~~mask

/-- Clearing the low bits rounds down. -/
theorem toNat_and_not_mask {w k : ℕ} (x : BitVec w) (hk : k ≤ w) :
    (x &&& ~~~ BitVec.ofNat w (2 ^ k - 1)).toNat = x.toNat / 2 ^ k * 2 ^ k := by
  have hpow : 2 ^ k ≤ 2 ^ w := Nat.pow_le_pow_right Nat.two_pos hk
  have hmask : (BitVec.ofNat w (2 ^ k - 1)).toNat = 2 ^ k - 1 := by
    rw [BitVec.toNat_ofNat]
    exact Nat.mod_eq_of_lt (by have := Nat.two_pow_pos k; omega)
  refine Nat.eq_of_testBit_eq fun i => ?_
  rw [BitVec.toNat_and, BitVec.toNat_not, hmask, Nat.testBit_and, Nat.sub_sub, Nat.add_comm 1,
    Nat.testBit_two_pow_sub_succ (by have := Nat.two_pow_pos k; omega),
    Nat.testBit_two_pow_sub_one, Nat.testBit_mul_two_pow, Nat.testBit_div_two_pow]
  by_cases hik : k ≤ i
  · rw [Nat.sub_add_cancel hik]
    by_cases hiw : i < w
    · simp [hik, hiw, Nat.not_lt.mpr hik]
    · have hx : x.toNat.testBit i = false :=
        Nat.testBit_lt_two_pow (x.isLt.trans_le (Nat.pow_le_pow_right Nat.two_pos (by omega)))
      simp [hx]
  · simp [hik, Nat.lt_of_not_le hik]

/-- **Masking rounds up**, unless the sum overflows. -/
theorem toNat_maskUp {w k : ℕ} {x : BitVec w} (hx : x.toNat + (2 ^ k - 1) < 2 ^ w) (hk : k ≤ w) :
    (maskUp x (BitVec.ofNat w (2 ^ k - 1))).toNat = roundUp x.toNat (2 ^ k) := by
  have hmask : (2 ^ k - 1) % 2 ^ w = 2 ^ k - 1 := Nat.mod_eq_of_lt (by omega)
  rw [maskUp, toNat_and_not_mask _ hk, BitVec.toNat_add, BitVec.toNat_ofNat, hmask,
    Nat.mod_eq_of_lt hx, roundUp]

end SnowballLtp
