import SnowballLtp.Machine.Decimal
import Mathlib.Data.List.TakeWhile

/-!
# Scanned integers

`sscanf` with the conversion `%i` reads an integer as it is written in a C program: spaces, a sign,
and a numeral whose prefix decides the base. `scanInt` reads as far as it goes; `IsInteger` says
which strings are integers from their start to their end.

## Main definitions

* `scanInt`, `sscanfIntChar`: the conversion, and the format `%i%c`.
* `IsNumeral`, `IsInteger`.

## Main results

* `scanInt_eq_some_nil_iff`: what is read to the end is an integer.
* `sscanfIntChar_eq_one_iff`.
-/

namespace SnowballLtp

/-! ### The conversion -/

/-- The value of a digit, and 16 for other characters. -/
def digitValue (c : Char) : ℕ :=
  if '0' ≤ c ∧ c ≤ '9' then c.toNat - '0'.toNat
  else if 'a' ≤ c ∧ c ≤ 'f' then c.toNat - 'a'.toNat + 10
  else if 'A' ≤ c ∧ c ≤ 'F' then c.toNat - 'A'.toNat + 10
  else 16

/-- The digits of a base of at most 16. -/
def isDigitOf (base : ℕ) (c : Char) : Bool := decide (digitValue c < base)

/-- The number with some digits. -/
def numberOf (base : ℕ) (ds : List Char) : ℕ := ds.foldl (fun n c => base * n + digitValue c) 0

/-- A numeral starts with a prefix for the base 16. -/
def HexPrefix (s : List Char) : Prop :=
  s.head? = some '0' ∧ (s.tail.head? = some 'x' ∨ s.tail.head? = some 'X')

instance : DecidablePred HexPrefix := fun _ => inferInstanceAs (Decidable (_ ∧ _))

/-- The base of a numeral, and the string from its digits on. -/
def radix (s : List Char) : ℕ × List Char :=
  if HexPrefix s then (16, s.drop 2) else if s.head? = some '0' then (8, s) else (10, s)

/-- A numeral at the start of a string, and what stands behind it. -/
def scanNumeral (s : List Char) : Option (ℕ × List Char) :=
  let (base, digits) := radix s
  if digits.takeWhile (isDigitOf base) = [] then none
  else some (numberOf base (digits.takeWhile (isDigitOf base)), digits.dropWhile (isDigitOf base))

/-- The conversion `%i`: the integer, and what stands behind it. -/
def scanInt (s : List Char) : Option (ℤ × List Char) :=
  let (sgn, body) := sign (s.dropWhile isSpace)
  (scanNumeral body).map fun p => (sgn * p.1, p.2)

/-- `sscanf` with the format `%i%c`: the number of conversions, `-1` standing for the end of the
string, and what is stored in the `int`. A `long` is read and converted. -/
def sscanfIntChar (s : List Char) : ℤ × Option ℤ :=
  match scanInt s with
  | none => (if s.dropWhile isSpace = [] then -1 else 0, none)
  | some (x, []) => (1, some (int32 (clampLong x)))
  | some (x, _ :: _) => (2, some (int32 (clampLong x)))

/-! ### Integers -/

/-- The numerals of a C program, with their values. -/
inductive IsNumeral : List Char → ℕ → Prop
  | hex {x : Char} {ds : List Char} (hx : x = 'x' ∨ x = 'X') (hne : ds ≠ [])
      (hds : ∀ d ∈ ds, digitValue d < 16) : IsNumeral ('0' :: x :: ds) (numberOf 16 ds)
  | octal {ds : List Char} (hds : ∀ d ∈ ds, digitValue d < 8) :
      IsNumeral ('0' :: ds) (numberOf 8 ('0' :: ds))
  | decimal {d : Char} {ds : List Char} (hd : d ≠ '0') (hds : ∀ e ∈ d :: ds, digitValue e < 10) :
      IsNumeral (d :: ds) (numberOf 10 (d :: ds))

/-- The string is an integer: a numeral behind spaces and a sign. -/
def IsInteger (s : List Char) (x : ℤ) : Prop :=
  ∃ spaces body n, (∀ c ∈ spaces, isSpace c = true) ∧ IsNumeral body n ∧
    (s = spaces ++ body ∧ x = n ∨ s = spaces ++ '+' :: body ∧ x = n ∨
      s = spaces ++ '-' :: body ∧ x = -n)

variable {s : List Char} {n : ℕ} {x : ℤ} {base : ℕ}

/-! ### Numerals -/

private theorem forall_isDigitOf_iff {ds : List Char} :
    (∀ d ∈ ds, isDigitOf base d = true) ↔ ∀ d ∈ ds, digitValue d < base := by
  simp only [isDigitOf, decide_eq_true_eq]

/-- Digits are read to the end if there is nothing but digits. -/
private theorem scanDigits_iff {ds : List Char} :
    (if ds.takeWhile (isDigitOf base) = [] then none
      else some (numberOf base (ds.takeWhile (isDigitOf base)),
        ds.dropWhile (isDigitOf base))) = some (n, []) ↔
      ds ≠ [] ∧ (∀ d ∈ ds, digitValue d < base) ∧ n = numberOf base ds := by
  rw [← forall_isDigitOf_iff]
  constructor
  · intro h
    split at h
    · cases h
    · next hne =>
      obtain ⟨rfl, hdrop⟩ := Prod.mk.inj (Option.some.inj h)
      have hall := List.dropWhile_eq_nil_iff.mp hdrop
      rw [List.takeWhile_eq_self_iff.mpr hall] at hne ⊢
      exact ⟨hne, hall, rfl⟩
  · rintro ⟨hne, hall, rfl⟩
    rw [List.takeWhile_eq_self_iff.mpr hall, List.dropWhile_eq_nil_iff.mpr hall, if_neg hne]

private theorem scanNumeral_iff_digits :
    scanNumeral s = some (n, []) ↔ (radix s).2 ≠ [] ∧
      (∀ d ∈ (radix s).2, digitValue d < (radix s).1) ∧ n = numberOf (radix s).1 (radix s).2 :=
  scanDigits_iff

theorem radix_hex {c : Char} (hx : c = 'x' ∨ c = 'X') (ds : List Char) :
    radix ('0' :: c :: ds) = (16, ds) := by
  have hprefix : HexPrefix ('0' :: c :: ds) := ⟨rfl, by simpa using hx⟩
  rw [radix, if_pos hprefix]
  rfl

theorem radix_octal {s : List Char} (h : ¬HexPrefix ('0' :: s)) :
    radix ('0' :: s) = (8, '0' :: s) := by
  rw [radix, if_neg h]
  rfl

theorem radix_decimal (h : s.head? ≠ some '0') : radix s = (10, s) := by
  have hprefix : ¬HexPrefix s := fun hex => h hex.1
  rw [radix, if_neg hprefix, if_neg h]

/-- The second character of a prefix is no digit. -/
private theorem not_hexPrefix_of_digits {ds : List Char} (hds : ∀ d ∈ ds, digitValue d < 8) :
    ¬HexPrefix ('0' :: ds) := by
  rintro ⟨-, hx⟩
  cases ds with
  | nil => simp at hx
  | cons d ds =>
    have hd := hds d List.mem_cons_self
    simp only [List.tail_cons, List.head?_cons, Option.some.injEq] at hx
    rcases hx with rfl | rfl
    · exact absurd hd (by decide)
    · exact absurd hd (by decide)

theorem scanNumeral_eq_some_nil_iff : scanNumeral s = some (n, []) ↔ IsNumeral s n := by
  rw [scanNumeral_iff_digits]
  constructor
  · by_cases hhex : HexPrefix s
    · obtain ⟨c, ds, rfl, hx⟩ : ∃ c ds, s = '0' :: c :: ds ∧ (c = 'x' ∨ c = 'X') := by
        obtain ⟨hzero, hx⟩ := hhex
        obtain ⟨t, rfl⟩ := List.head?_eq_some_iff.mp hzero
        rw [List.tail_cons] at hx
        rcases hx with hx | hx <;> obtain ⟨ds, rfl⟩ := List.head?_eq_some_iff.mp hx
        · exact ⟨'x', ds, rfl, .inl rfl⟩
        · exact ⟨'X', ds, rfl, .inr rfl⟩
      rw [radix_hex hx]
      rintro ⟨hne, hds, rfl⟩
      exact .hex hx hne hds
    · by_cases hzero : s.head? = some '0'
      · obtain ⟨ds, rfl⟩ := List.head?_eq_some_iff.mp hzero
        rw [radix_octal hhex]
        rintro ⟨-, hds, rfl⟩
        exact .octal fun d hd => hds d (List.mem_cons_of_mem _ hd)
      · rw [radix_decimal hzero]
        rintro ⟨hne, hds, rfl⟩
        obtain ⟨d, ds, rfl⟩ := List.exists_cons_of_ne_nil hne
        exact .decimal (fun h => hzero (h ▸ rfl)) hds
  · intro h
    cases h with
    | hex hx hne hds =>
      rw [radix_hex hx]
      exact ⟨hne, hds, rfl⟩
    | octal hds =>
      have hzero : digitValue '0' < 8 := by decide
      rw [radix_octal (not_hexPrefix_of_digits hds)]
      exact ⟨List.cons_ne_nil _ _, List.forall_mem_cons.mpr ⟨hzero, hds⟩, rfl⟩
    | decimal hd hds =>
      rw [radix_decimal (by simpa using hd)]
      exact ⟨List.cons_ne_nil _ _, hds, rfl⟩

/-! ### Integers -/

/-- A numeral starts with a digit. -/
private theorem IsNumeral.head {s : List Char} (h : IsNumeral s n) :
    ∃ c t, s = c :: t ∧ c.isDigit = true := by
  cases h with
  | hex hx hne hds => exact ⟨'0', _, rfl, by decide⟩
  | octal hds => exact ⟨'0', _, rfl, by decide⟩
  | @decimal d ds hd hds =>
    refine ⟨d, ds, rfl, isDigit_iff.mpr ?_⟩
    have hlt := hds d List.mem_cons_self
    rw [digitValue] at hlt
    split at hlt
    · assumption
    · split at hlt
      · omega
      · split at hlt <;> omega

/-- The sign of a string. -/
private theorem sign_cases (s : List Char) :
    (∃ t, s = '-' :: t ∧ sign s = (-1, t)) ∨ (∃ t, s = '+' :: t ∧ sign s = (1, t)) ∨
      sign s = (1, s) := by
  unfold sign
  split
  · exact .inl ⟨_, rfl, rfl⟩
  · exact .inr (.inl ⟨_, rfl, rfl⟩)
  · exact .inr (.inr rfl)

/-- What stands behind some spaces. -/
private theorem dropWhile_spaces {spaces : List Char} (h : ∀ c ∈ spaces, isSpace c = true)
    {c : Char} (hc : isSpace c = false) (s : List Char) :
    (spaces ++ c :: s).dropWhile isSpace = c :: s := by
  rw [List.dropWhile_append_of_pos h, List.dropWhile_cons_of_neg (by simp [hc])]

theorem scanInt_eq_some_iff {rest : List Char} :
    scanInt s = some (x, rest) ↔ ∃ m, scanNumeral (sign (s.dropWhile isSpace)).2 = some (m, rest) ∧
      x = (sign (s.dropWhile isSpace)).1 * m := by
  rw [scanInt]
  simp only [Option.map_eq_some_iff, Prod.exists, Prod.mk.injEq]
  constructor
  · rintro ⟨m, t, h, rfl, rfl⟩
    exact ⟨m, h, rfl⟩
  · rintro ⟨m, h, rfl⟩
    exact ⟨m, rest, h, rfl, rfl⟩

/-- **Integers.** A string is read to its end just when it is an integer. -/
theorem scanInt_eq_some_nil_iff : scanInt s = some (x, []) ↔ IsInteger s x := by
  rw [scanInt_eq_some_iff]
  simp only [scanNumeral_eq_some_nil_iff]
  constructor
  · rintro ⟨m, hm, rfl⟩
    have hspaces : ∀ c ∈ s.takeWhile isSpace, isSpace c = true := fun c hc =>
      List.mem_takeWhile_imp hc
    refine ⟨s.takeWhile isSpace, _, m, hspaces, hm, ?_⟩
    have hs : s = s.takeWhile isSpace ++ s.dropWhile isSpace := List.takeWhile_append_dropWhile.symm
    obtain ⟨t, ht, hsign⟩ | ⟨t, ht, hsign⟩ | hsign := sign_cases (s.dropWhile isSpace)
    · rw [hsign, ← ht]
      exact .inr (.inr ⟨hs, by simp⟩)
    · rw [hsign, ← ht]
      exact .inr (.inl ⟨hs, by simp⟩)
    · rw [hsign]
      exact .inl ⟨hs, by simp⟩
  · rintro ⟨spaces, body, m, hspaces, hm, h⟩
    obtain ⟨c, t, rfl, hdigit⟩ := hm.head
    obtain ⟨hspace, hsign⟩ := sign_of_isDigit hdigit t
    obtain ⟨rfl, rfl⟩ | ⟨rfl, rfl⟩ | ⟨rfl, rfl⟩ := h
    · rw [dropWhile_spaces hspaces hspace, hsign]
      exact ⟨m, hm, by simp⟩
    · rw [dropWhile_spaces hspaces (by decide)]
      exact ⟨m, hm, by simp [sign]⟩
    · rw [dropWhile_spaces hspaces (by decide)]
      exact ⟨m, hm, by simp [sign]⟩

/-- One conversion is made just when the string is an integer. -/
theorem sscanfIntChar_eq_one_iff {stored : Option ℤ} :
    sscanfIntChar s = (1, stored) ↔ ∃ x, IsInteger s x ∧ stored = some (int32 (clampLong x)) := by
  simp only [← scanInt_eq_some_nil_iff, sscanfIntChar]
  cases h : scanInt s with
  | none =>
    simp only [Prod.mk.injEq]
    constructor
    · rintro ⟨hret, -⟩
      split at hret <;> omega
    · rintro ⟨x, hx, -⟩
      cases hx
  | some p =>
    obtain ⟨y, t⟩ := p
    cases t with
    | nil => simp [eq_comm]
    | cons c t => simp

end SnowballLtp
