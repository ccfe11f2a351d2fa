import Mathlib.Algebra.Group.Nat.Defs
import Mathlib.Data.Nat.Basic

/-!
# Halving by the bits of a number

A width is halved again and again; the bits of a number, from the lowest on, say whether the halves
are rounded up or down. The width after some halvings has a closed form.

## Main definitions

* `halved`.
* `Depth`: the number of halvings until the width is below a limit.

## Main results

* `halved_succ`: one halving.
* `Depth.unique`.
-/

namespace SnowballLtp

/-- The width `d` after `n` halvings, which a bit of `r` rounds up. -/
def halved (d r n : ℕ) : ℕ := (d + r % 2 ^ n) / 2 ^ n

/-- The width is below the limit after `n` halvings and not before. -/
structure Depth (limit d r n : ℕ) : Prop where
  le : ∀ m < n, limit ≤ halved d r m
  lt : halved d r n < limit

section Halved

variable {limit d r n m : ℕ}

@[simp] theorem halved_zero (d r : ℕ) : halved d r 0 = d := by
  simp [halved, Nat.mod_one]

/-- **One halving.** -/
theorem halved_succ (d r n : ℕ) :
    halved d r (n + 1) = (halved d r n + (r.testBit n).toNat) / 2 := by
  have hpos : 0 < 2 ^ n := Nat.two_pow_pos n
  rw [halved, halved, Nat.mod_pow_succ, ← Nat.toNat_testBit, Nat.pow_succ,
    ← Nat.div_div_eq_div_mul, ← Nat.add_assoc, Nat.add_mul_div_left _ _ hpos]

theorem halved_succ_of_testBit (h : r.testBit n = true) :
    halved d r (n + 1) = (halved d r n + 1) / 2 := by
  rw [halved_succ, h, Bool.toNat_true]

theorem halved_succ_of_not_testBit (h : ¬r.testBit n = true) :
    halved d r (n + 1) = halved d r n / 2 := by
  rw [halved_succ, Bool.eq_false_iff.mpr h, Bool.toNat_false, Nat.add_zero]

/-- There is at most one such number. -/
theorem Depth.unique (hn : Depth limit d r n) (hm : Depth limit d r m) : n = m := by
  obtain hlt | rfl | hgt := Nat.lt_trichotomy n m
  · exact absurd hn.lt (Nat.not_lt.mpr (hm.le n hlt))
  · rfl
  · exact absurd hm.lt (Nat.not_lt.mpr (hn.le m hgt))

end Halved

end SnowballLtp
