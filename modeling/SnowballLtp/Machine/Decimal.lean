import SnowballLtp.Machine.CInt

/-!
# Decimal numbers

`decimal` is the format `%d`, and `strtol` reads a number in base ten and leaves what stands
behind it. A number printed and read again is the same, whatever stands behind it that does not
start with a digit.

## Main definitions

* `decimal`, `strtol`, `atoi`.

## Main results

* `strtol_decimal_append`, `atoi_decimal_append`.
* `atoi_decimal`, `length_decimal_le`: a number of any size, and the length of an `int`.
-/

namespace SnowballLtp

/-- The format `%d`. -/
def decimal : ℤ → List Char
  | .ofNat n => Nat.toDigits 10 n
  | .negSucc n => '-' :: Nat.toDigits 10 (n + 1)

/-- `isspace`. -/
def isSpace (c : Char) : Bool := decide (c = ' ' ∨ '\t' ≤ c ∧ c ≤ '\r')

/-- The sign in front of a number and the string behind it. -/
def sign : List Char → ℤ × List Char
  | '-' :: s => (-1, s)
  | '+' :: s => (1, s)
  | s => (1, s)

/-- The values of type `long`, which a number that is read saturates at. -/
def clampLong (x : ℤ) : ℤ := max (-9223372036854775808) (min x 9223372036854775807)

/-- `strtol` in base ten: the value and what stands behind the number. Without a digit nothing is
read. -/
def strtol (s : List Char) : ℤ × List Char :=
  let (sgn, body) := sign (s.dropWhile isSpace)
  let digits := body.takeWhile Char.isDigit
  if digits = [] then (0, s)
  else (clampLong (sgn * Nat.ofDigitChars 10 digits 0), body.dropWhile Char.isDigit)

/-- `atoi`. -/
def atoi (s : List Char) : ℤ := int32 (strtol s).1

/-- What follows does not continue a number. -/
def NoDigit (rest : List Char) : Prop := ∀ c ∈ rest.head?, c.isDigit = false

theorem noDigit_nil : NoDigit [] := by simp [NoDigit]

theorem noDigit_cons {c : Char} (h : c.isDigit = false) (s : List Char) : NoDigit (c :: s) := by
  simpa [NoDigit] using h

theorem clampLong_eq_self {x : ℤ} (h : InInt32 x) : clampLong x = x := by
  obtain ⟨hlow, hhigh⟩ := h
  rw [clampLong]
  omega

/-! ### The digits -/

theorem isDigit_iff {c : Char} : c.isDigit = true ↔ '0' ≤ c ∧ c ≤ '9' := by
  simp [Char.isDigit, Char.le_def]

/-- A digit is neither a space nor a sign. -/
theorem sign_of_isDigit {c : Char} (h : c.isDigit = true) (s : List Char) :
    isSpace c = false ∧ sign (c :: s) = (1, c :: s) := by
  have hne {d : Char} (hd : d.isDigit = false) : c ≠ d := by
    rintro rfl
    rw [h] at hd
    cases hd
  refine ⟨?_, ?_⟩
  · obtain ⟨hlow, -⟩ := isDigit_iff.mp h
    refine decide_eq_false ?_
    rintro (rfl | ⟨-, hhigh⟩)
    · exact absurd h (by decide)
    · exact absurd (Char.le_trans hlow hhigh) (by decide)
  · unfold sign
    split
    · next heq => exact absurd (List.cons.inj heq).1 (hne (by decide))
    · next heq => exact absurd (List.cons.inj heq).1 (hne (by decide))
    · rfl

theorem takeWhile_toDigits_append (n : ℕ) {rest : List Char} (hrest : NoDigit rest) :
    (Nat.toDigits 10 n ++ rest).takeWhile Char.isDigit = Nat.toDigits 10 n := by
  rw [List.takeWhile_append_of_pos fun c hc =>
    Nat.isDigit_of_mem_toDigits (by decide) (by decide) hc]
  cases rest with
  | nil => simp
  | cons c rest => simp [hrest c rfl]

theorem dropWhile_toDigits_append (n : ℕ) {rest : List Char} (hrest : NoDigit rest) :
    (Nat.toDigits 10 n ++ rest).dropWhile Char.isDigit = rest := by
  rw [List.dropWhile_append_of_pos fun c hc =>
    Nat.isDigit_of_mem_toDigits (by decide) (by decide) hc]
  cases rest with
  | nil => rfl
  | cons c rest => simp [hrest c rfl]

/-- The first of the digits. -/
theorem exists_toDigits_eq_cons (n : ℕ) :
    ∃ c s, Nat.toDigits 10 n = c :: s ∧ c.isDigit = true := by
  obtain ⟨c, s, hcons⟩ := List.exists_cons_of_ne_nil (Nat.toDigits_ne_nil (n := n) (b := 10))
  refine ⟨c, s, hcons, ?_⟩
  exact Nat.isDigit_of_mem_toDigits (by decide) (by decide) (hcons ▸ List.mem_cons_self)

/-! ### Reading a number back -/

/-- A number that was printed is read as far as it is a value of type `long`. -/
theorem strtol_decimal_append_clamp (x : ℤ) {rest : List Char} (hrest : NoDigit rest) :
    strtol (decimal x ++ rest) = (clampLong x, rest) := by
  cases x with
  | ofNat n =>
    obtain ⟨c, s, hcons, hdigit⟩ := exists_toDigits_eq_cons n
    obtain ⟨hspace, hsign⟩ := sign_of_isDigit hdigit (s ++ rest)
    have htake := takeWhile_toDigits_append n hrest
    have hdrop := dropWhile_toDigits_append n hrest
    rw [hcons, List.cons_append] at htake hdrop
    rw [decimal, hcons, List.cons_append, strtol, List.dropWhile_cons_of_neg (by simp [hspace])]
    simp only [hsign, htake, hdrop]
    rw [if_neg (List.cons_ne_nil c s), ← hcons, Nat.ofDigitChars_ten_toDigits, Int.one_mul]
    rfl
  | negSucc n =>
    have htake := takeWhile_toDigits_append (n + 1) hrest
    have hdrop := dropWhile_toDigits_append (n + 1) hrest
    rw [decimal, List.cons_append, strtol, List.dropWhile_cons_of_neg (by decide)]
    simp only [sign, htake, hdrop]
    rw [if_neg Nat.toDigits_ne_nil, Nat.ofDigitChars_ten_toDigits, Int.neg_one_mul]
    rfl

/-- **Reading back.** A number that was printed is read again, up to what stands behind it. -/
theorem strtol_decimal_append {x : ℤ} (hx : InInt32 x) {rest : List Char} (hrest : NoDigit rest) :
    strtol (decimal x ++ rest) = (x, rest) := by
  rw [strtol_decimal_append_clamp x hrest, clampLong_eq_self hx]

theorem atoi_decimal (x : ℤ) : atoi (decimal x) = int32 (clampLong x) := by
  have h := strtol_decimal_append_clamp x noDigit_nil
  rw [List.append_nil] at h
  rw [atoi, h]

theorem inInt32_atoi (s : List Char) : InInt32 (atoi s) := inInt32_int32 _

theorem atoi_decimal_append {x : ℤ} (hx : InInt32 x) {rest : List Char} (hrest : NoDigit rest) :
    atoi (decimal x ++ rest) = x := by
  rw [atoi, strtol_decimal_append hx hrest, int32_eq_self hx]

/-- A number that was printed has no character but digits and a sign. -/
theorem mem_decimal {x : ℤ} {c : Char} (h : c ∈ decimal x) : c = '-' ∨ c.isDigit = true := by
  cases x with
  | ofNat n => exact .inr (Nat.isDigit_of_mem_toDigits (by decide) (by decide) h)
  | negSucc n =>
    rcases List.mem_cons.mp h with rfl | h
    · exact .inl rfl
    · exact .inr (Nat.isDigit_of_mem_toDigits (by decide) (by decide) h)

/-- The number of characters of a value of type `int`. -/
theorem length_decimal_le {x : ℤ} (hx : InInt32 x) : (decimal x).length ≤ 11 := by
  obtain ⟨hlow, hhigh⟩ := hx
  cases x with
  | ofNat n =>
    rw [Int.ofNat_eq_natCast] at hhigh
    have hlen : (Nat.toDigits 10 n).length ≤ 10 :=
      (Nat.length_toDigits_le_iff (by decide) (by decide)).mpr (by omega)
    exact Nat.le_succ_of_le hlen
  | negSucc n =>
    have hlen : (Nat.toDigits 10 (n + 1)).length ≤ 10 :=
      (Nat.length_toDigits_le_iff (by decide) (by decide)).mpr (by omega)
    exact Nat.succ_le_succ hlen

theorem decimal_ne_nil (x : ℤ) : decimal x ≠ [] := by
  cases x with
  | ofNat n => exact Nat.toDigits_ne_nil
  | negSucc n => exact List.cons_ne_nil _ _

end SnowballLtp
