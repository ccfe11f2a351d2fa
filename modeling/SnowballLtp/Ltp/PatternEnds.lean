import SnowballLtp.Ltp.Pattern

/-!
# Patterns without bytes

Both functions of the pattern module compute the remainder of `patshift` only when `patlen` is not
zero, and go on with an empty pattern. Nothing is copied or compared then in front of the loop, and
a pass of the loop treats as much as is done already, which is nothing: the loop does not end. A
`patshift` that is left over from an empty pattern makes the first length negative.

## Main definitions

* `EndsWell`, `FillEnds`, `CheckEnds`.

## Main results

* `ends_iff`: when both functions end.
* `emptyPattern_not_ends`: a buffer of one byte.
-/

namespace SnowballLtp

namespace Pattern

/-- A run comes to its end, and no length on the way is negative. -/
def EndsWell {α : Type} (run : ℕ → Option (Except Fault α)) : Prop :=
  ∃ fuel r, run fuel = some r ∧ r ≠ .error .negativeLength

/-- `pattern_fill` ends on every buffer and every pattern with these lengths. -/
def FillEnds (buflen patlen patshift : ℤ) : Prop :=
  ∀ buf pat : List UInt8, buflen ≤ buf.length → patlen = pat.length →
    EndsWell (patternFill · buf buflen pat patlen patshift)

/-- `pattern_check` ends on every buffer and every pattern with these lengths. -/
def CheckEnds (buflen patlen patshift : ℤ) : Prop :=
  ∀ buf pat : List UInt8, buflen ≤ buf.length → patlen = pat.length →
    EndsWell (patternCheck · buf buflen pat patlen patshift)

/-- The pattern has a byte, or there is nothing to do with it. -/
def HasPeriod (buflen patlen patshift : ℤ) : Prop := 1 ≤ patlen ∨ buflen = 0 ∧ patshift = 0

theorem endsWell_of_eq_ok {α : Type} {run : ℕ → Option (Except Fault α)} {fuel : ℕ} {a : α}
    (h : run fuel = some (.ok a)) : EndsWell run :=
  ⟨fuel, .ok a, h, fun h => nomatch h⟩

theorem not_endsWell_of_negative {α : Type} {run : ℕ → Option (Except Fault α)}
    (h : ∀ fuel, run fuel = some (.error .negativeLength)) : ¬EndsWell run := by
  rintro ⟨fuel, r, hr, hne⟩
  exact hne (Option.some.inj ((h fuel).symm.trans hr)).symm

theorem not_endsWell_of_none {α : Type} {run : ℕ → Option (Except Fault α)}
    (h : ∀ fuel, run fuel = none) : ¬EndsWell run := by
  rintro ⟨fuel, r, hr, -⟩
  cases (h fuel).symm.trans hr

/-! ### Empty patterns -/

section Empty

variable (buf pat : List UInt8) {buflen patshift : ℤ}

theorem load_zero (obj : List UInt8) : load obj 0 0 = .ok [] :=
  (load_eq_ok obj 0 0 (Nat.zero_le _)).trans (by simp [slice])

theorem memcpy_zero : memcpy buf 0 pat 0 0 = .ok buf := by
  rw [memcpy, load_zero]
  exact (store_eq_ok buf [] 0 (Nat.zero_le _)).trans (by rw [overwrite_nil])

theorem memcmp_zero : memcmp buf 0 pat 0 0 = .ok 0 := by
  rw [memcmp, load_zero, load_zero]
  rfl

theorem patternFill_eq_fillRest (hbuflen : 0 ≤ buflen) (fuel : ℕ) :
    patternFill fuel buf buflen pat 0 0 = fillRest fuel buf buflen 0 buflen := by
  simp only [patternFill, ne_eq, not_true_eq_false, if_false, Int.sub_zero, if_neg hbuflen.not_gt,
    memcpy_zero, fillSecond, lt_irrefl]

theorem patternCheck_eq_checkRest (hbuflen : 0 ≤ buflen) (fuel : ℕ) :
    patternCheck fuel buf buflen pat 0 0 = checkRest fuel buf buflen 0 buflen := by
  simp only [patternCheck, ne_eq, not_true_eq_false, if_false, Int.sub_zero, if_neg hbuflen.not_gt,
    memcmp_zero, checkSecond, lt_irrefl]

/-- A pass of the fill copies nothing. -/
theorem fillRest_eq_none (hbuflen : 0 < buflen) (fuel : ℕ) :
    fillRest fuel buf buflen 0 buflen = none := by
  refine iterate_eq_none (fun s => s = ⟨buf, 0, 0, buflen⟩) ?_ fuel rfl
  rintro s rfl
  refine ⟨_, ?_, rfl⟩
  have hcopy : memcpyWithin buf 0 0 0 = .ok buf := by
    rw [memcpyWithin, if_neg (by omega), memcpy_zero]
  simp only [fillStep, if_pos hbuflen, hcopy, Int.add_zero, Int.sub_zero]

/-- A pass of the check compares nothing. -/
theorem checkRest_eq_none (hbuflen : 0 < buflen) (fuel : ℕ) :
    checkRest fuel buf buflen 0 buflen = none := by
  refine iterate_eq_none (fun s => s = ⟨0, 0, buflen⟩) ?_ fuel rfl
  rintro s rfl
  refine ⟨_, ?_, rfl⟩
  simp only [checkStep, if_pos hbuflen, memcmp_zero, Int.add_zero, Int.sub_zero, ne_eq,
    not_true_eq_false, if_false]

theorem patternFill_negative (hbuflen : 0 ≤ buflen) (hshift : 0 < patshift) (fuel : ℕ) :
    patternFill fuel buf buflen pat 0 patshift = some (.error .negativeLength) := by
  have hcopy : memcpy buf 0 pat patshift (0 - patshift) = .error .negativeLength := by
    rw [memcpy, load, if_pos (by omega)]
  simp only [patternFill, ne_eq, not_true_eq_false, if_false, hcopy]
  rw [if_neg (by omega)]

theorem patternCheck_negative (hbuflen : 0 ≤ buflen) (hshift : 0 < patshift) (fuel : ℕ) :
    patternCheck fuel buf buflen pat 0 patshift = some (.error .negativeLength) := by
  have hcmp : memcmp buf 0 pat patshift (0 - patshift) = .error .negativeLength := by
    rw [memcmp, load, if_pos (by omega)]
  simp only [patternCheck, ne_eq, not_true_eq_false, if_false, hcmp]
  rw [if_neg (by omega)]

/-- Neither function ends on an empty pattern, unless there is nothing to do. -/
theorem not_endsWell_of_empty (hbuflen : 0 ≤ buflen) (hshift : 0 ≤ patshift)
    (hwork : ¬(buflen = 0 ∧ patshift = 0)) :
    ¬EndsWell (patternFill · buf buflen pat 0 patshift) ∧
      ¬EndsWell (patternCheck · buf buflen pat 0 patshift) := by
  obtain hpos | rfl := Int.lt_or_eq_of_le hshift
  · exact ⟨not_endsWell_of_negative (patternFill_negative buf pat hbuflen hpos),
      not_endsWell_of_negative (patternCheck_negative buf pat hbuflen hpos)⟩
  · have hlen : 0 < buflen := by omega
    refine ⟨not_endsWell_of_none fun fuel => ?_, not_endsWell_of_none fun fuel => ?_⟩
    · rw [patternFill_eq_fillRest buf pat hbuflen]
      exact fillRest_eq_none buf hlen fuel
    · rw [patternCheck_eq_checkRest buf pat hbuflen]
      exact checkRest_eq_none buf hlen fuel

theorem endsWell_of_nothing :
    EndsWell (patternFill · buf 0 pat 0 0) ∧ EndsWell (patternCheck · buf 0 pat 0 0) := by
  refine ⟨@endsWell_of_eq_ok _ _ 1 (0, buf) ?_, @endsWell_of_eq_ok _ _ 1 0 ?_⟩
  · rw [patternFill_eq_fillRest buf pat (Int.le_refl 0)]
    rfl
  · rw [patternCheck_eq_checkRest buf pat (Int.le_refl 0)]
    rfl

end Empty

/-! ### All lengths -/

section Lengths

variable {buflen patlen patshift : ℤ}

/-- Both functions end when the pattern has a byte. -/
theorem endsWell_of_hasPeriod {buf pat : List UInt8} (hbuflen : 0 ≤ buflen)
    (hbuf : buflen ≤ buf.length) (hpat : patlen = pat.length) (hshift : 0 ≤ patshift)
    (h : HasPeriod buflen patlen patshift) :
    EndsWell (patternFill · buf buflen pat patlen patshift) ∧
      EndsWell (patternCheck · buf buflen pat patlen patshift) := by
  by_cases hpatlen : 1 ≤ patlen
  · have hfuel : buflen < (buflen.toNat + 1 : ℕ) := by omega
    obtain ⟨out, hout, -⟩ := patternFill_spec hbuflen hbuf hpatlen hpat hshift hfuel
    obtain ⟨ret, hret, -⟩ := patternCheck_spec hbuflen hbuf hpatlen hpat hshift hfuel
    exact ⟨endsWell_of_eq_ok hout, endsWell_of_eq_ok hret⟩
  · obtain ⟨rfl, rfl⟩ := h.resolve_left hpatlen
    obtain rfl : patlen = 0 := by omega
    exact endsWell_of_nothing buf pat

/-- **The end of both functions.** They end on all buffers and patterns with the given lengths if
and only if the pattern has a byte or there is nothing to do. -/
theorem ends_iff (hbuflen : 0 ≤ buflen) (hpatlen : 0 ≤ patlen) (hshift : 0 ≤ patshift) :
    (FillEnds buflen patlen patshift ↔ HasPeriod buflen patlen patshift) ∧
      (CheckEnds buflen patlen patshift ↔ HasPeriod buflen patlen patshift) := by
  by_cases h : HasPeriod buflen patlen patshift
  · exact ⟨iff_of_true (fun _ _ hbuf hpat =>
      (endsWell_of_hasPeriod hbuflen hbuf hpat hshift h).1) h, iff_of_true (fun _ _ hbuf hpat =>
      (endsWell_of_hasPeriod hbuflen hbuf hpat hshift h).2) h⟩
  · obtain ⟨hempty, hwork⟩ := not_or.mp h
    obtain rfl : patlen = 0 := by omega
    have hbuf : buflen ≤ (List.replicate buflen.toNat (0 : UInt8)).length := by
      rw [List.length_replicate]
      omega
    obtain ⟨hfill, hcheck⟩ :=
      not_endsWell_of_empty (List.replicate buflen.toNat 0) [] hbuflen hshift hwork
    exact ⟨iff_of_false (fun hends => hfill (hends _ [] hbuf rfl)) h,
      iff_of_false (fun hends => hcheck (hends _ [] hbuf rfl)) h⟩

theorem ends_threeBytes : FillEnds 4 3 1 ∧ CheckEnds 4 3 1 := by
  obtain ⟨hfill, hcheck⟩ := @ends_iff 4 3 1 (by decide) (by decide) (by decide)
  exact ⟨hfill.mpr (.inl (by decide)), hcheck.mpr (.inl (by decide))⟩

/-- An empty pattern and a buffer of one byte. -/
theorem emptyPattern_not_ends : ¬FillEnds 1 0 0 ∧ ¬CheckEnds 1 0 0 := by
  obtain ⟨hfill, hcheck⟩ := not_endsWell_of_empty [0] [] Int.one_nonneg (Int.le_refl 0)
    (fun h => absurd h.1 Int.one_ne_zero)
  exact ⟨fun hends => hfill (hends [0] [] (Int.le_refl 1) rfl),
    fun hends => hcheck (hends [0] [] (Int.le_refl 1) rfl)⟩

end Lengths

end Pattern

end SnowballLtp
