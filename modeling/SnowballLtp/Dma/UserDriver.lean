import Mathlib.Data.Int.Notation
import Mathlib.Data.List.Basic
import Mathlib.Data.Nat.GCD.Basic

/-!
# The user-space driver

`main` of the program `dma` makes as many passes as `TEST_LOOPING` allows. In a pass it runs
`dma_test` for the ids of the table `test_cases` and reports each result with `tst_resm`. The
library's counter `Tst_count` is the index into the table; the driver sets it to the test number
less one in front of each report, and the report advances it by one. The bound of the loop is
`TST_TOTAL`, the size of the table in bytes.

## Main definitions

* `Driver`, `Driver.tstTotal`, `Driver.testIteration`, `Driver.runPass`, `Driver.main`.
* `RunsTable`: every pass runs the table.

## Main results

* `Driver.length_executed`: the number of tests of a pass.
* `runsTable_iff`: no pass runs the table.
-/

namespace SnowballLtp.Dma

/-- The result types of `tst_resm`. -/
inductive TType where
  | tpass
  | tfail
  | tbrok
  | twarn
  | tretr
  | tinfo
  | tconf
  deriving DecidableEq, Repr

/-- `Tst_count` after `tst_res`: warnings and information are not counted. -/
def tstResCount (ttype : TType) (tstCount : ℤ) : ℤ :=
  if ttype = .twarn ∨ ttype = .tinfo then tstCount else tstCount + 1

/-- What the program runs with: the table, its options, and what `dma_test` returns in iteration
`count` of pass `lc`. -/
structure Driver where
  testCases : List ℤ
  /-- The number given with `-n`. -/
  nOpt : Option ℤ
  /-- `STD_FUNCTIONAL_TEST`, cleared by `-f`. -/
  stdFunctionalTest : Bool
  dmaTest : (lc count : ℕ) → (id : ℤ) → ℤ

/-- A pass: `Tst_count`, the tests executed with what was reported for them, and whether the table
was indexed outside its bounds. Nothing is known of the program after that. -/
structure Pass where
  tstCount : ℤ
  executed : List (ℤ × TType)
  outside : Bool

namespace Driver

variable (d : Driver)

/-- `TST_TOTAL`: an `int` holding `sizeof (test_cases)`, or one when a test is given. -/
def tstTotal : ℤ :=
  match d.nOpt with
  | some _ => 1
  | none => (BitVec.ofNat 32 (4 * d.testCases.length)).toInt

/-- `test_cases[i]`, inside the bounds. -/
def testCase (i : ℤ) : Option ℤ := if 0 ≤ i then d.testCases[i.toNat]? else none

/-- The number of the next test. -/
def num (tstCount : ℤ) : Option ℤ :=
  if d.tstTotal = 1 then some (d.nOpt.getD 0) else d.testCase tstCount

/-- One iteration of the loop over the tests. -/
def testIteration (lc : ℕ) (s : Pass) (count : ℕ) : Pass :=
  if s.outside then s else
  match d.num s.tstCount with
  | none => { s with outside := true }
  | some num =>
    let ttype := if d.dmaTest lc count num = 0 then TType.tpass else .tfail
    { s with tstCount := tstResCount ttype (num - 1), executed := s.executed ++ [(num, ttype)] }

/-- One pass of the outer loop. -/
def runPass (lc : ℕ) (tstCount : ℤ) : Pass :=
  let s : Pass := { tstCount := tstCount, executed := [], outside := false }
  if d.stdFunctionalTest then (List.range d.tstTotal.toNat).foldl (d.testIteration lc) s else s

/-- The passes that `main` makes, `Tst_count` being `tstCount` in front of pass `lc`. -/
def mainLoop : (passes lc : ℕ) → (tstCount : ℤ) → List Pass
  | 0, _, _ => []
  | passes + 1, lc, tstCount =>
    let s := d.runPass lc tstCount
    s :: if s.outside then [] else mainLoop passes (lc + 1) s.tstCount

/-- `main`, for a number of passes. -/
def main (passes : ℕ) : List Pass := d.mainLoop passes 0 0

/-! ### The number of tests of a pass -/

variable {d}

theorem testIteration_of_outside {lc count : ℕ} {s : Pass} (h : s.outside = true) :
    d.testIteration lc s count = s := if_pos h

/-- An iteration that stays inside the table executes one test. -/
theorem length_executed_testIteration {lc count : ℕ} {s : Pass}
    (h : (d.testIteration lc s count).outside = false) :
    s.outside = false ∧
      (d.testIteration lc s count).executed.length = s.executed.length + 1 := by
  cases hs : s.outside with
  | true => simp [testIteration_of_outside hs, hs] at h
  | false =>
    refine ⟨rfl, ?_⟩
    cases hnum : d.num s.tstCount with
    | none => simp [testIteration, hs, hnum] at h
    | some num => simp [testIteration, hs, hnum]

theorem length_executed_foldl {lc : ℕ} (counts : List ℕ) {s : Pass}
    (h : (counts.foldl (d.testIteration lc) s).outside = false) :
    s.outside = false ∧
      (counts.foldl (d.testIteration lc) s).executed.length =
        s.executed.length + counts.length := by
  induction counts generalizing s with
  | nil => exact ⟨h, rfl⟩
  | cons count counts ih =>
    obtain ⟨hout, hlen⟩ := ih h
    obtain ⟨hout', hlen'⟩ := length_executed_testIteration hout
    refine ⟨hout', ?_⟩
    rw [List.foldl_cons, hlen, hlen', List.length_cons]
    omega

/-- A pass that stays inside the table executes as many tests as `TST_TOTAL` tells, or none without
functional tests. -/
theorem length_executed {lc : ℕ} {tstCount : ℤ} (h : (d.runPass lc tstCount).outside = false) :
    (d.runPass lc tstCount).executed.length =
      if d.stdFunctionalTest then d.tstTotal.toNat else 0 := by
  unfold runPass at h ⊢
  split_ifs at h ⊢
  · simpa using (length_executed_foldl _ h).2
  · rfl

/-- Four times a number is not congruent to that number, modulo a number prime to three. -/
private theorem toNat_bmod_ne {n N : ℕ} (hn : 0 < n) (hN : Nat.Coprime N 3) (hpos : 0 < N) :
    (((4 * n : ℕ) : ℤ).bmod N).toNat ≠ n := by
  intro hb
  have hlt : ((4 * n : ℕ) : ℤ).bmod N < ((N : ℤ) + 1) / 2 := Int.bmod_lt hpos
  have hdvd : (N : ℤ) ∣ ((4 * n : ℕ) : ℤ).bmod N - (4 * n : ℕ) := Int.dvd_bmod_sub_self
  have heq : ((4 * n : ℕ) : ℤ).bmod N = n := by omega
  rw [heq] at hlt hdvd
  have h3 : N ∣ 3 * n := by
    rw [← Int.natCast_dvd_natCast, show ((3 * n : ℕ) : ℤ) = -((n : ℤ) - (4 * n : ℕ)) by omega]
    exact Int.dvd_neg.mpr hdvd
  have hle := Nat.le_of_dvd hn (hN.dvd_of_dvd_mul_left h3)
  omega

/-- The size in bytes, as an `int`, is not the number of the entries. -/
theorem toNat_tstTotal_ne (hn : d.nOpt = none) (hne : d.testCases ≠ []) :
    d.tstTotal.toNat ≠ d.testCases.length := by
  rw [tstTotal, hn, BitVec.toInt_ofNat']
  exact toNat_bmod_ne (List.length_pos_iff.mpr hne) (Nat.Coprime.pow_left 32 (by decide))
    (Nat.two_pow_pos 32)

end Driver

/-- Every pass executes the tests of the table, in order, and indexes the table inside its bounds
only. -/
def RunsTable (d : Driver) (passes : List Pass) : Prop :=
  ∀ s ∈ passes, s.executed.map Prod.fst = d.testCases ∧ s.outside = false

/-- **No pass runs the table.** Without `-n` and for every non-empty table, whatever the outcomes of
the tests, every pass executes the table only if there is no pass. -/
theorem runsTable_iff {d : Driver} (hn : d.nOpt = none) (hne : d.testCases ≠ []) (passes : ℕ) :
    RunsTable d (d.main passes) ↔ passes = 0 := by
  constructor
  · intro h
    by_contra hpasses
    obtain ⟨n, rfl⟩ := Nat.exists_eq_succ_of_ne_zero hpasses
    obtain ⟨hex, hout⟩ := h (d.runPass 0 0) List.mem_cons_self
    have hlen := Driver.length_executed hout
    rw [← List.length_map (f := Prod.fst), hex] at hlen
    split_ifs at hlen
    · exact Driver.toNat_tstTotal_ne hn hne hlen.symm
    · exact hne (List.length_eq_zero_iff.mp hlen)
  · rintro rfl
    exact fun s hs => absurd hs List.not_mem_nil

/-- The program with its own table, every test passing. -/
def dmaProgram : Driver where
  testCases := [
    22, 23, 24, 25, 1, 2, 3, 4, 6, 7, 8,
    21, 15, 16, 17, 18, 19, 20, 21, 55, 56,
    57, 58, 59, 60, 61, 62, 63, 64, 65, 66,
    67, 68,
    26, 7, 32, 33, 5, 34, 27, 28, 29]
  nOpt := none
  stdFunctionalTest := true
  dmaTest _ _ _ := 0

/-- One pass over its own table executes tests 22 and 58, then indexes the table outside. -/
theorem not_runsTable_dmaProgram :
    (dmaProgram.main 1).map (fun s => (s.executed.map Prod.fst, s.outside)) =
      [([22, 58], true)] ∧ ¬ RunsTable dmaProgram (dmaProgram.main 1) := by
  refine ⟨by decide +kernel, fun h => ?_⟩
  have hout := (h (dmaProgram.runPass 0 0) List.mem_cons_self).2
  exact absurd hout (by decide +kernel)

/-- Without a pass there is nothing to run. -/
theorem runsTable_dmaProgram_zero : RunsTable dmaProgram (dmaProgram.main 0) :=
  (runsTable_iff rfl (by decide) 0).mpr rfl

end SnowballLtp.Dma
