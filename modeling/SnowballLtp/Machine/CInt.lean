import Mathlib.Data.Int.Order.Basic
import SnowballLtp.Machine.Bytes

/-!
# Integers of a C program

Values of type `int` are integers; an operation whose result may not fit is followed by `int32`,
which keeps the low 32 bits in two's complement, and likewise for 64 bits. The remainder and the
quotient of C truncate, and by zero they are faults. A plain `char` is a byte whose value depends
on the signedness that the target gives it. The programs of the user space are taken for a target
on which `long`, `size_t` and pointers have 64 bits; the kernel module is taken for its own board,
where they have 32.

## Main definitions

* `InInt32`, `int32`, `int64`, `uint32`, `uint64`, `crem`, `cdiv`, `charValue`.
* `wrap`: what a type of any width keeps.
* `octal`: a number in the format `%#o`.

## Main results

* `int32_eq_self`, `int32_uint32`, `charValue_injective`.
* `int32_int32_add`, `int32_int32_mul`: a sum or a product of values that were kept.
* `int32_lt_int32_iff`: the order of values that were kept.
* `wrap_eq_self`, `wrap_eq_sub`, `wrap_add_wrap`.
-/

namespace SnowballLtp

/-- The value fits into 32 bits. -/
def InInt32 (x : ℤ) : Prop := -2147483648 ≤ x ∧ x ≤ 2147483647

instance : DecidablePred InInt32 := fun _ => inferInstanceAs (Decidable (_ ∧ _))

/-- The value that 32 bits keep. -/
def int32 (x : ℤ) : ℤ := (x + 2147483648) % 4294967296 - 2147483648

/-- The value that 64 bits keep. -/
def int64 (x : ℤ) : ℤ := (x + 9223372036854775808) % 18446744073709551616 - 9223372036854775808

theorem int32_eq_self {x : ℤ} (h : InInt32 x) : int32 x = x := by
  obtain ⟨hlow, hhigh⟩ := h
  rw [int32]
  omega

theorem int32_eq_self_iff {x : ℤ} : int32 x = x ↔ InInt32 x := by
  refine ⟨fun h => ?_, int32_eq_self⟩
  rw [int32] at h
  exact ⟨by omega, by omega⟩

theorem inInt32_int32 (x : ℤ) : InInt32 (int32 x) := by
  rw [int32]
  exact ⟨by omega, by omega⟩

theorem int64_eq_self {x : ℤ} (h : InInt32 x) : int64 x = x := by
  obtain ⟨hlow, hhigh⟩ := h
  rw [int64]
  omega

section Modular

/-! An operation may keep 32 bits of its operands first. -/

theorem exists_int32_eq (x : ℤ) : ∃ k, int32 x = x + 4294967296 * k :=
  ⟨-((x + 2147483648) / 4294967296), by rw [int32]; omega⟩

theorem int32_add_mul (x k : ℤ) : int32 (x + 4294967296 * k) = int32 x := by
  rw [int32, int32]
  omega

@[simp] theorem int32_int32_add (x y : ℤ) : int32 (int32 x + y) = int32 (x + y) := by
  obtain ⟨k, hk⟩ := exists_int32_eq x
  rw [hk, ← int32_add_mul (x + y) k]
  congr 1
  omega

@[simp] theorem int32_add_int32 (x y : ℤ) : int32 (x + int32 y) = int32 (x + y) := by
  rw [Int.add_comm, int32_int32_add, Int.add_comm]

@[simp] theorem int32_int32_sub (x y : ℤ) : int32 (int32 x - y) = int32 (x - y) := by
  rw [Int.sub_eq_add_neg, int32_int32_add, Int.sub_eq_add_neg]

@[simp] theorem int32_sub_int32 (x y : ℤ) : int32 (x - int32 y) = int32 (x - y) := by
  obtain ⟨k, hk⟩ := exists_int32_eq y
  rw [hk, ← int32_add_mul (x - y) (-k)]
  congr 1
  omega

@[simp] theorem int32_int32_mul (x y : ℤ) : int32 (int32 x * y) = int32 (x * y) := by
  obtain ⟨k, hk⟩ := exists_int32_eq x
  rw [hk, Int.add_mul, Int.mul_assoc, int32_add_mul]

@[simp] theorem int32_mul_int32 (x y : ℤ) : int32 (x * int32 y) = int32 (x * y) := by
  rw [Int.mul_comm, int32_int32_mul, Int.mul_comm]

/-- The number of times that the values of type `int` have come round. -/
def rounds (x : ℤ) : ℤ := (x + 2147483648) / 4294967296

theorem int32_eq_sub_rounds (x : ℤ) : int32 x = x - 4294967296 * rounds x := by
  rw [int32, rounds]
  omega

/-- **Order of kept values.** Values less than half a round apart are kept in their order just when
they are in the same round. -/
theorem int32_lt_int32_iff {x y : ℤ} (hlow : y - 2147483648 < x) (hhigh : x < y + 2147483648) :
    (int32 x < int32 y ↔ x < y) ↔ rounds x = rounds y := by
  have hx : int32 x = x - 4294967296 * rounds x := int32_eq_sub_rounds x
  have hy : int32 y = y - 4294967296 * rounds y := int32_eq_sub_rounds y
  rw [hx, hy, rounds, rounds]
  omega

end Modular

/-- The value that a type keeps whose values are those from `-half` up to `half`. -/
def wrap (half x : ℤ) : ℤ := (x + half) % (2 * half) - half

/-- The value is one of a type whose values are those from `-half` up to `half`. -/
def InType (half x : ℤ) : Prop := -half ≤ x ∧ x < half

instance (half : ℤ) : DecidablePred (InType half) := fun _ => inferInstanceAs (Decidable (_ ∧ _))

theorem int32_eq_wrap (x : ℤ) : int32 x = wrap 2147483648 x := rfl

theorem int64_eq_wrap (x : ℤ) : int64 x = wrap 9223372036854775808 x := rfl

section Wrap

variable {half x : ℤ}

theorem wrap_eq_self (h : InType half x) : wrap half x = x := by
  obtain ⟨hlow, hhigh⟩ := h
  rw [wrap, Int.emod_eq_of_lt (by omega) (by omega)]
  omega

/-- A value above the type wraps once. -/
theorem wrap_eq_sub (hlow : half ≤ x) (hhigh : x < 3 * half) : wrap half x = x - 2 * half := by
  rw [wrap, show x + half = x - half + 2 * half by omega, Int.add_emod_right,
    Int.emod_eq_of_lt (by omega) (by omega)]
  omega

theorem wrap_add_wrap (half x y : ℤ) : wrap half (x + wrap half y) = wrap half (x + y) := by
  rw [wrap, wrap, wrap, show x + ((y + half) % (2 * half) - half) + half =
    (y + half) % (2 * half) + x by omega, Int.emod_add_emod]
  congr 2
  omega

end Wrap

/-- The conversion to `unsigned int`. -/
def uint32 (x : ℤ) : ℕ := (x % 4294967296).toNat

/-- The conversion to `size_t`. -/
def uint64 (x : ℤ) : ℕ := (x % 18446744073709551616).toNat

/-- A value survives the conversion to `unsigned int` and back. -/
theorem int32_uint32 {x : ℤ} (h : InInt32 x) : int32 (uint32 x) = x := by
  obtain ⟨hlow, hhigh⟩ := h
  rw [int32, uint32]
  omega

/-- The operator `%`. -/
def crem (x y : ℤ) : Except Fault ℤ :=
  if y = 0 then .error .divisionByZero else .ok (x.tmod y)

/-- The operator `/`. -/
def cdiv (x y : ℤ) : Except Fault ℤ :=
  if y = 0 then .error .divisionByZero else .ok (x.tdiv y)

theorem crem_eq_ok {x y : ℤ} (h : y ≠ 0) : crem x y = .ok (x.tmod y) := if_neg h

theorem cdiv_eq_ok {x y : ℤ} (h : y ≠ 0) : cdiv x y = .ok (x.tdiv y) := if_neg h

/-- The value of a plain `char`. -/
def charValue (signedChar : Bool) (b : UInt8) : ℤ :=
  if signedChar ∧ 128 ≤ b.toNat then b.toNat - 256 else b.toNat

theorem charValue_injective (signedChar : Bool) {a b : UInt8}
    (h : charValue signedChar a = charValue signedChar b) : a = b := by
  have ha := a.toNat_lt
  have hb := b.toNat_lt
  refine UInt8.toNat_inj.mp ?_
  simp only [charValue] at h
  split_ifs at h <;> omega

/-- The format `%#o` of an argument of 32 bits. -/
def octal (x : ℤ) : String :=
  if x = 0 then "0" else "0" ++ String.ofList (Nat.toDigits 8 (x % 4294967296).toNat)

end SnowballLtp
