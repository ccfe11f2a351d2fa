import SnowballLtp.Machine.Decimal
import SnowballLtp.Machine.Separated

/-!
# Comparing kernel versions

`tst_kvercmp` folds the three numbers of a version into one, eight bits for each of the last two,
and returns the difference between the running kernel and a given version. From the number 256
on, a part runs over into the one in front of it: the difference has the sign of the comparison
just when the lower parts do not outweigh the first part that differs.

## Main definitions

* `strsep`, `getKver`, `tstKvercmp`.
* `Compares`: what the returned value should say. `LowerFit`.

## Main results

* `tstKvercmp_release`: the returned value.
* `compares_tstKvercmp_iff`.
-/

namespace SnowballLtp

namespace KernelVersion

/-- `strsep` with one separator: the next piece, which is null when the string is. -/
def strsep (sep : Char) : Option (List Char) → Option (List Char) × Option (List Char)
  | none => (none, none)
  | some s => (some (cut sep s).1, (cut sep s).2)

/-- `get_kver`: the three numbers at the start of a release. Without a third part, `atoi` is
called with a null pointer. -/
def getKver (release : List Char) : Option (ℤ × ℤ × ℤ) :=
  let (r1, kver) := strsep '.' (some release)
  let (r2, kver) := strsep '.' kver
  let (r3, _) := strsep '.' kver
  match r1, r2, r3 with
  | some r1, some r2, some r3 => some (atoi r1, atoi r2, atoi r3)
  | _, _, _ => none

/-- The number that stands for a version. -/
def fold (r1 r2 r3 : ℤ) : ℤ :=
  int32 (int32 (int32 (r1 * 65536) + int32 (r2 * 256)) + r3)

/-- `tst_kvercmp`, for the release that `uname` reports. -/
def tstKvercmp (release : List Char) (r1 r2 r3 : ℤ) : Option ℤ :=
  match getKver release with
  | some (a1, a2, a3) => some (int32 (fold a1 a2 a3 - fold r1 r2 r3))
  | none => none

/-! ### The release string -/

/-- The release of a kernel: three numbers, and what stands behind them. -/
def release (a1 a2 a3 : ℕ) (suffix : List Char) : List Char :=
  decimal a1 ++ '.' :: (decimal a2 ++ '.' :: (decimal a3 ++ suffix))

/-- The numbers of a version fit into an `int` when they are folded. -/
def Foldable (a1 a2 a3 : ℕ) : Prop := a1 * 65536 + a2 * 256 + a3 < 2147483648

theorem dot_notMem_decimal (x : ℤ) : '.' ∉ decimal x := by
  intro h
  rcases mem_decimal h with h | h <;> exact absurd h (by decide)

private theorem noDigit_cut {suffix : List Char} (h : NoDigit suffix) :
    NoDigit (cut '.' suffix).1 := by
  cases suffix with
  | nil => exact noDigit_nil
  | cons c s =>
    by_cases hc : c = '.'
    · rw [hc, cut_cons_self]
      exact noDigit_nil
    · rw [cut_cons_of_ne hc]
      exact noDigit_cons (h c rfl) _

theorem getKver_release {a1 a2 a3 : ℕ} {suffix : List Char} (ha : Foldable a1 a2 a3)
    (hsuffix : NoDigit suffix) :
    getKver (release a1 a2 a3 suffix) = some ((a1 : ℤ), (a2 : ℤ), (a3 : ℤ)) := by
  rw [Foldable] at ha
  have hatoi {n : ℕ} (hn : n < 2147483648) {rest : List Char} (hrest : NoDigit rest) :
      atoi (decimal n ++ rest) = n :=
    atoi_decimal_append ⟨by omega, by omega⟩ hrest
  have hwhole {n : ℕ} (hn : n < 2147483648) : atoi (decimal n) = n := by
    simpa using hatoi hn noDigit_nil
  simp only [getKver, release, strsep, cut_append_cons (dot_notMem_decimal _),
    cut_append (dot_notMem_decimal a3)]
  rw [hwhole (by omega), hwhole (by omega), hatoi (by omega) (noDigit_cut hsuffix)]

/-- **The returned value.** Nothing overflows for versions that can be folded. -/
theorem tstKvercmp_release {a1 a2 a3 r1 r2 r3 : ℕ} {suffix : List Char}
    (ha : Foldable a1 a2 a3) (hr : Foldable r1 r2 r3) (hsuffix : NoDigit suffix) :
    tstKvercmp (release a1 a2 a3 suffix) r1 r2 r3 =
      some (65536 * ((a1 : ℤ) - r1) + (256 * ((a2 : ℤ) - r2) + ((a3 : ℤ) - r3))) := by
  have hfold {b1 b2 b3 : ℕ} (hb : Foldable b1 b2 b3) :
      fold b1 b2 b3 = (b1 : ℤ) * 65536 + b2 * 256 + b3 := by
    rw [Foldable] at hb
    rw [fold, int32_eq_self (x := b1 * 65536) ⟨by omega, by omega⟩,
      int32_eq_self (x := b2 * 256) ⟨by omega, by omega⟩,
      int32_eq_self (x := (b1 : ℤ) * 65536 + b2 * 256) ⟨by omega, by omega⟩,
      int32_eq_self ⟨by omega, by omega⟩]
  rw [tstKvercmp, getKver_release ha hsuffix]
  dsimp only
  rw [hfold ha, hfold hr]
  rw [Foldable] at ha hr
  rw [int32_eq_self ⟨by omega, by omega⟩]
  congr 1
  omega

/-! ### The comparison -/

/-- The order of versions: the first part that differs decides. -/
def Older : ℕ × ℕ × ℕ → ℕ × ℕ × ℕ → Prop :=
  Prod.Lex (· < ·) (Prod.Lex (· < ·) (· < ·))

/-- What a returned value `v` should say about the running kernel `a` and a version `r`. -/
def Compares (a r : ℕ × ℕ × ℕ) (v : ℤ) : Prop :=
  (v = 0 ↔ a = r) ∧ (v < 0 ↔ Older a r) ∧ (0 < v ↔ Older r a)

/-- A difference `d` of weight `w` is not made up for by the difference `lower` of the lower
parts. -/
def LowerFit (w d lower : ℤ) : Prop := (0 < d → -lower < w * d) ∧ (d < 0 → lower < w * -d)

/-- The lower parts do not outweigh the first part that differs. -/
def PartsFit (a r : ℕ × ℕ × ℕ) : Prop :=
  let d1 : ℤ := a.1 - r.1
  let d2 : ℤ := a.2.1 - r.2.1
  let d3 : ℤ := a.2.2 - r.2.2
  LowerFit 65536 d1 (256 * d2 + d3) ∧ (d1 = 0 → LowerFit 256 d2 d3)

/-- Parts that fit into their eight bits. -/
theorem partsFit_of_lt {a r : ℕ × ℕ × ℕ} (ha : a.2.1 < 256 ∧ a.2.2 < 256)
    (hr : r.2.1 < 256 ∧ r.2.2 < 256) : PartsFit a r := by
  simp only [PartsFit, LowerFit]
  omega

theorem older_iff (a r : ℕ × ℕ × ℕ) :
    Older a r ↔ a.1 < r.1 ∨ a.1 = r.1 ∧ (a.2.1 < r.2.1 ∨ a.2.1 = r.2.1 ∧ a.2.2 < r.2.2) := by
  simp only [Older, Prod.lex_def]

/-- **Comparing versions.** For versions that can be folded, the returned value says how the
running kernel compares with the given version if and only if the lower parts do not outweigh the
first part that differs. -/
theorem compares_tstKvercmp_iff {a1 a2 a3 r1 r2 r3 : ℕ} {suffix : List Char}
    (ha : Foldable a1 a2 a3) (hr : Foldable r1 r2 r3) (hsuffix : NoDigit suffix) :
    (∃ v, tstKvercmp (release a1 a2 a3 suffix) r1 r2 r3 = some v ∧
      Compares (a1, a2, a3) (r1, r2, r3) v) ↔ PartsFit (a1, a2, a3) (r1, r2, r3) := by
  rw [tstKvercmp_release ha hr hsuffix]
  simp only [Option.some.injEq, exists_eq_left']
  simp only [Compares, older_iff, PartsFit, LowerFit, Prod.mk.injEq]
  omega

theorem compares_tstKvercmp_two_six :
    ∃ v, tstKvercmp (release 2 6 35 "-rc1".toList) 3 0 0 = some v ∧
      Compares (2, 6, 35) (3, 0, 0) v :=
  (compares_tstKvercmp_iff (by simp [Foldable]) (by simp [Foldable])
    (noDigit_cons (by decide) _)).mpr (partsFit_of_lt (by decide) (by decide))

/-- The kernel 2.6.256 is taken for 2.7.0. -/
theorem not_compares_sublevel_256 :
    tstKvercmp "2.6.256".toList 2 7 0 = some 0 ∧ ¬Compares (2, 6, 256) (2, 7, 0) 0 := by
  refine ⟨by decide +kernel, fun h => ?_⟩
  have heq := h.1.mp rfl
  simp at heq

end KernelVersion

end SnowballLtp
