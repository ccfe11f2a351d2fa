import Mathlib.Algebra.Group.Int.Defs
import Mathlib.Algebra.Group.Nat.Defs
import SnowballLtp.Ltp.RandomRange

/-!
# Random multiples in wide ranges

`random_rangel` and `random_rangell` are `random_range` for wider types. In all three the bounds are
moved to multiples and the multiples between them are counted, in the arithmetic of the type: the
number of multiples is the divisor of the draw. Where the lower bound is moved out of the type, or
the distance of the moved bounds does not fit into it, this number can wrap to zero.

`random_rangell` draws from `divider` when the upper bound has more than 31 bits. `divider` chooses
a half of the range by a bit of its random number until the half is narrow, and adds the random
number to where that half begins. The sum is a place in the range, not an offset.

## Main definitions

* `randomRangel`, `randomRangell`, `divider`.
* `RangeFn.Sound`, `Countable`.
* `DrawsBetween`.

## Main results

* `RangeFn.sound_iff`: when none of the functions divides by zero.
* `divider_spec`: what the divider gives.
* `drawsBetween_iff`: when `random_rangell` stays in its range.
* `allInts_not_sound`, `belowZero_not_drawsBetween`.
-/

namespace SnowballLtp

namespace RandomRange

/-! ### The functions -/

/-- `random_rangel`, for the value that `lrand48` has and an `errp` that is null or not. -/
def randomRangel (lrand48 : ℤ) (errp : Bool) (min max mult : ℤ) : Except Fault Drawn :=
  randomIn 9223372036854775808 (fun lo _ n => drawFrom lrand48 mult lo n) errp min max mult

/-- The condition `rand & (1<<cnt)`. A shift that leaves the `int` gives 0, as on the target. -/
def bitOfRand (rand : ℤ) (cnt : ℕ) : Prop :=
  BitVec.ofInt 64 rand &&& BitVec.ofInt 64 (int32 (2 ^ cnt)) ≠ 0

instance (rand : ℤ) (cnt : ℕ) : Decidable (bitOfRand rand cnt) :=
  inferInstanceAs (Decidable (_ ≠ _))

/-- `divider`, for the values that `lrand48` has at the depths of the recursion. -/
def divider (lrand48 : ℕ → ℤ) (min max : ℤ) (cnt : ℕ) (rand : ℤ) : ℤ :=
  if 32 < cnt then -1
  else
    let rand := if cnt = 0 ∨ rand < -1 then lrand48 cnt else rand
    let diff := int64 (max - min)
    if diff ≤ 2147483647 then int64 (min + rand)
    else
      let half := diff.tdiv 2
      let med := int64 (min + half)
      if half ≤ 2147483647 then
        if bitOfRand rand cnt then int64 (med + rand) else int64 (min + rand)
      else
        if bitOfRand rand cnt then divider lrand48 med max (cnt + 1) rand
        else divider lrand48 min med (cnt + 1) rand
termination_by 33 - cnt

/-- `random_rangell`, for the values that `lrand48` has. -/
def randomRangell (lrand48 : ℕ → ℤ) (errp : Bool) (min max mult : ℤ) : Except Fault Drawn :=
  randomIn 9223372036854775808 (fun lo hi n =>
    if hi ≤ 2147483647 then drawFrom (lrand48 0) mult lo n
    else drawFrom (divider lrand48 lo hi 0 (-1)) mult lo n) errp min max mult

/-! ### Where the bounds are moved -/

/-- Two multiples have a distance that does not fit into the type, and from the one to the other
there are as many multiples as numbers of the type fit above each other. -/
def CountWraps (half mult dist : ℤ) : Prop :=
  half ≤ dist ∧ dist + mult ≤ 2 * half ∧ 2 * half < dist + 2 * mult

/-- The lower bound is not moved out of the type, and the multiples can be counted in it. -/
def Countable (half mult lo hi : ℤ) : Prop :=
  lowest mult lo < half ∧ ¬CountWraps half mult (highest mult hi - lowest mult lo)

instance (half mult dist : ℤ) : Decidable (CountWraps half mult dist) :=
  inferInstanceAs (Decidable (_ ∧ _))

instance (half mult lo hi : ℤ) : Decidable (Countable half mult lo hi) :=
  inferInstanceAs (Decidable (_ ∧ _))

section Moving

variable {half mult lo hi : ℤ}

/-- A lower bound is moved up, below 0 by less than two multiples and not beyond the first one above
0, from 0 on by less than one. -/
theorem lowest_bounds (hmult : 0 < mult) (lo : ℤ) :
    lo ≤ lowest mult lo ∧ (lowest mult lo < lo + mult ∨ lo < 0 ∧ lowest mult lo ≤ mult) := by
  have hle := natAbs_tmod_le lo mult
  obtain ⟨-, hcases⟩ := tmod_cases hmult lo
  rw [lowest]
  split_ifs
  all_goals omega

/-- An upper bound is moved towards 0, by less than one multiple. -/
theorem highest_bounds (hmult : 0 < mult) (hi : ℤ) :
    0 ≤ hi ∧ 0 ≤ highest mult hi ∧ highest mult hi ≤ hi ∧ hi < highest mult hi + mult ∨
      hi < 0 ∧ highest mult hi ≤ 0 ∧ hi ≤ highest mult hi ∧ highest mult hi < hi + mult := by
  have hle := natAbs_tmod_le hi mult
  obtain ⟨-, hcases⟩ := tmod_cases hmult hi
  rw [highest]
  omega

/-- Where the moved bounds are ordered there is a multiple between the bounds. -/
theorem exists_between (hmult : 0 < mult) (hle : lo ≤ hi)
    (hmoved : lowest mult lo ≤ highest mult hi) : ∃ v, Between mult lo hi v := by
  by_cases hr : lo.tmod mult = 0
  · exact ⟨lo, Int.le_refl lo, hle, Int.dvd_iff_tmod_eq_zero.mpr hr⟩
  obtain ⟨-, -, hhigh, -⟩ | ⟨hneg, -, -, hhigh⟩ := highest_bounds hmult hi
  · exact ⟨_, (lowest_bounds hmult lo).1, Int.le_trans hmoved hhigh, dvd_lowest hmult lo⟩
  · -- the lower bound is below 0 too, and is moved one multiple too far
    refine ⟨lowest mult lo - mult, ?_, by omega,
      Int.dvd_sub (dvd_lowest hmult lo) (Int.dvd_refl mult)⟩
    obtain ⟨-, hcases⟩ := tmod_cases hmult lo
    rw [lowest, if_neg hr]
    omega

/-- Where the lower bound is moved out of the type, the two multiples next to the range are less
than one multiple apart when the lower one has wrapped. -/
theorem highest_sub_lowest (hmult : 0 < mult) (hmulthalf : mult < half) (hle : lo ≤ hi)
    (hhi : hi < half) (hout : half ≤ lowest mult lo) :
    0 ≤ highest mult hi ∧ highest mult hi - lowest mult lo = -mult := by
  have hlo := (lowest_bounds hmult lo).2.resolve_right (by omega)
  have hhigh := (highest_bounds hmult hi).resolve_right (by omega)
  have hup := dvd_highest hmult hi
  have hlow := dvd_lowest hmult lo
  have hbelow := le_of_dvd_of_lt_add (Int.dvd_add hup (Int.dvd_refl mult)) hlow (by omega)
  have habove := le_of_dvd_of_lt_add hlow (Int.dvd_add hup (Int.dvd_refl mult)) (by omega)
  omega

end Moving

/-! ### The number of multiples -/

section Counting

variable {half mult lo hi d : ℤ}

theorem tdiv_of_nonpos (hmult : 0 < mult) (hd : d ≤ 0) :
    d.tdiv mult ≤ 0 ∧ (d.tdiv mult = -1 ↔ mult ≤ -d ∧ -d < 2 * mult) := by
  have hneg : d.tdiv mult = -(-d / mult) := by
    rw [← Int.tdiv_eq_ediv_of_nonneg (show 0 ≤ -d by omega), Int.neg_tdiv, Int.neg_neg]
  have hlow := Int.le_ediv_iff_mul_le (a := 1) (b := -d) hmult
  have hhigh := Int.ediv_lt_iff_lt_mul (a := -d) (b := 2) hmult
  have hpos := Int.ediv_nonneg (show 0 ≤ -d by omega) (Int.le_of_lt hmult)
  rw [hneg]
  omega

/-- The counted multiples wrap to zero just when there are as many as fit into twice the size of
the type, and their distance does not fit into it. -/
theorem exists_nmults (hmult : 0 < mult) (hhalf : mult < half) (hle : lo ≤ hi)
    (hdiff : hi - lo < 2 * half) :
    ∃ n, nmults half lo hi mult = .ok n ∧ (n = 0 ↔ CountWraps half mult (hi - lo)) := by
  rw [CountWraps]
  refine ⟨wrap half ((wrap half (hi - lo)).tdiv mult + 1), ?_, ?_⟩
  · rw [nmults, cdiv_eq_ok (by omega)]
  by_cases hfits : hi - lo < half
  · have hwrap : wrap half (hi - lo) = hi - lo := wrap_eq_self ⟨by omega, hfits⟩
    have hquot := Int.natAbs_tdiv_le_natAbs (hi - lo) mult
    have hpos := Int.tdiv_nonneg (show 0 ≤ hi - lo by omega) (Int.le_of_lt hmult)
    rw [hwrap]
    refine iff_of_false (fun hzero => ?_) (by omega)
    by_cases hlast : (hi - lo).tdiv mult + 1 < half
    · rw [wrap_eq_self ⟨by omega, hlast⟩] at hzero
      omega
    · rw [wrap_eq_sub (by omega) (by omega)] at hzero
      omega
  · have hwrap : wrap half (hi - lo) = hi - lo - 2 * half := wrap_eq_sub (by omega) (by omega)
    have hquot := Int.natAbs_tdiv_le_natAbs (hi - lo - 2 * half) mult
    obtain ⟨hnonpos, hiff⟩ := @tdiv_of_nonpos mult (hi - lo - 2 * half) hmult (by omega)
    rw [hwrap, wrap_eq_self ⟨by omega, by omega⟩]
    omega

end Counting

/-! ### Division by zero -/

/-- The three functions. -/
inductive RangeFn where
  | range
  | rangel
  | rangell
  deriving DecidableEq, Repr

namespace RangeFn

/-- Half the number of values of the type of the arguments. -/
def half : RangeFn → ℤ
  | range => 2147483648
  | rangel => 9223372036854775808
  | rangell => 9223372036854775808

def run (fn : RangeFn) (lrand48 : ℕ → ℤ) (errp : Bool) (min max mult : ℤ) : Except Fault Drawn :=
  match fn with
  | range => randomRange (lrand48 0) errp min max mult
  | rangel => randomRangel (lrand48 0) errp min max mult
  | rangell => randomRangell lrand48 errp min max mult

/-- The draw of the function. -/
def draw (fn : RangeFn) (lrand48 : ℕ → ℤ) (mult lo hi n : ℤ) : Except Fault ℤ :=
  match fn with
  | rangell =>
    if hi ≤ 2147483647 then drawFrom (lrand48 0) mult lo n
    else drawFrom (divider lrand48 lo hi 0 (-1)) mult lo n
  | _ => drawFrom (lrand48 0) mult lo n

/-- The function does not divide by zero, and reports an error where there is no multiple between
the bounds. -/
structure Sound (fn : RangeFn) (start stop mult : ℤ) : Prop where
  not_divisionByZero : ∀ lrand48 errp, (∀ n, Lrand48 (lrand48 n)) →
    fn.run lrand48 errp start stop mult ≠ .error .divisionByZero
  reports : (∀ v, ¬Between mult (min start stop) (max start stop) v) →
    ∀ lrand48 errp, (∀ n, Lrand48 (lrand48 n)) → ∃ text,
      fn.run lrand48 errp start stop mult =
        .ok { ret := -1, errp := if errp then some (some text) else none }

theorem run_eq_randomIn (fn : RangeFn) (lrand48 : ℕ → ℤ) (errp : Bool) (start stop mult : ℤ) :
    fn.run lrand48 errp start stop mult =
      randomIn fn.half (fn.draw lrand48 mult) errp start stop mult := by
  cases fn with
  | range => rfl
  | rangel => rfl
  | rangell => rfl

theorem draw_zero (fn : RangeFn) (lrand48 : ℕ → ℤ) (mult lo hi : ℤ) :
    fn.draw lrand48 mult lo hi 0 = .error .divisionByZero := by
  cases fn with
  | range => rfl
  | rangel => rfl
  | rangell => exact ite_self _

theorem exists_draw (fn : RangeFn) (lrand48 : ℕ → ℤ) (mult lo hi : ℤ) {n : ℤ} (hn : n ≠ 0) :
    ∃ v, fn.draw lrand48 mult lo hi n = .ok v := by
  have hdraw : ∀ randnum, ∃ v, drawFrom randnum mult lo n = .ok v := fun randnum => by
    rw [drawFrom, crem_eq_ok hn]
    exact ⟨_, rfl⟩
  cases fn with
  | range => exact hdraw _
  | rangel => exact hdraw _
  | rangell =>
    simp only [draw]
    split_ifs
    · exact hdraw _
    · exact hdraw _

variable {fn : RangeFn} {start stop mult : ℤ}

/-- The bounds in order, moved and compared. -/
theorem run_eq (fn : RangeFn) (hmult : 1 ≤ mult) (hmin : InType fn.half (min start stop))
    (hmax : InType fn.half (max start stop)) (lrand48 : ℕ → ℤ) (errp : Bool) :
    fn.run lrand48 errp start stop mult =
      if wrap fn.half (lowest mult (min start stop)) > highest mult (max start stop) then
        .ok { ret := -1, errp := if errp then some (some (noNumbers start stop mult)) else none }
      else Drawn.ofDraw (if errp then some none else none) (drawIn fn.half (fn.draw lrand48 mult)
        (wrap fn.half (lowest mult (min start stop))) (highest mult (max start stop)) mult) := by
  rw [run_eq_randomIn, randomIn, if_neg (by omega), swap_eq]
  simp only [bump_eq (show mult ≠ 0 by omega) hmin, reduce_eq (show 0 < mult by omega) hmax]

/-- The draw between two multiples divides by zero just when their number wraps to zero. -/
theorem drawIn_cases (fn : RangeFn) (lrand48 : ℕ → ℤ) {lo hi : ℤ} (hmult : 1 ≤ mult)
    (hhalf : mult < fn.half) (hle : lo ≤ hi) (hdiff : hi - lo < 2 * fn.half) :
    CountWraps fn.half mult (hi - lo) ∧
        drawIn fn.half (fn.draw lrand48 mult) lo hi mult = .error .divisionByZero ∨
      ¬CountWraps fn.half mult (hi - lo) ∧
        ∃ v, drawIn fn.half (fn.draw lrand48 mult) lo hi mult = .ok v := by
  obtain ⟨n, hn, hiff⟩ := exists_nmults (show 0 < mult by omega) hhalf hle hdiff
  rw [← hiff, drawIn, hn]
  by_cases hzero : n = 0
  · subst hzero
    exact .inl ⟨rfl, fn.draw_zero lrand48 mult lo hi⟩
  · exact .inr ⟨hzero, fn.exists_draw lrand48 mult lo hi hzero⟩

/-- Where the multiples cannot be counted, every call divides by zero. -/
theorem run_of_not_countable (hmult : 1 ≤ mult) (hhalf : mult < fn.half)
    (hmin : InType fn.half (min start stop)) (hmax : InType fn.half (max start stop))
    (h : ¬Countable fn.half mult (min start stop) (max start stop)) (lrand48 : ℕ → ℤ)
    (errp : Bool) : fn.run lrand48 errp start stop mult = .error .divisionByZero := by
  have hpos : 0 < mult := hmult
  have hwraps : CountWraps fn.half mult
      (highest mult (max start stop) - wrap fn.half (lowest mult (min start stop))) := by
    by_cases hfits : lowest mult (min start stop) < fn.half
    · rw [wrap_eq_self ⟨Int.le_trans hmin.1 (lowest_bounds hpos _).1, hfits⟩]
      exact not_not.mp (not_and.mp h hfits)
    · -- the lower bound has wrapped to far below 0
      have hout : fn.half ≤ lowest mult (min start stop) := Int.not_lt.mp hfits
      have hlow := (lowest_bounds hpos (min start stop)).2
      have hminlt := hmin.2
      have hbounds : min start stop ≤ max start stop := by omega
      obtain ⟨-, hdist⟩ := highest_sub_lowest hpos hhalf hbounds hmax.2 hout
      rw [wrap_eq_sub hout (by omega), CountWraps]
      omega
  have hdist := hwraps
  rw [CountWraps] at hdist
  rw [run_eq fn hmult hmin hmax, if_neg (by omega)]
  obtain ⟨-, hzero⟩ | ⟨hnot, -⟩ := fn.drawIn_cases lrand48 hmult hhalf
    (show wrap fn.half (lowest mult (min start stop)) ≤ highest mult (max start stop) by omega)
    (by omega)
  · rw [hzero, Drawn.ofDraw_error]
  · exact absurd hwraps hnot

/-- Where the multiples can be counted, a call draws a number if the moved bounds are in order, and
reports an error otherwise. -/
theorem run_of_countable (hmult : 1 ≤ mult) (hhalf : mult < fn.half)
    (hmin : InType fn.half (min start stop)) (hmax : InType fn.half (max start stop))
    (h : Countable fn.half mult (min start stop) (max start stop)) (lrand48 : ℕ → ℤ)
    (errp : Bool) :
    (∃ ret, fn.run lrand48 errp start stop mult =
        .ok { ret, errp := if errp then some none else none } ∧
      lowest mult (min start stop) ≤ highest mult (max start stop)) ∨
      ∃ text, fn.run lrand48 errp start stop mult =
        .ok { ret := -1, errp := if errp then some (some text) else none } := by
  have hlow := (lowest_bounds (show 0 < mult by omega) (min start stop)).1
  have hhigh := highest_inType (show 0 < mult by omega) hmax
  have hwrap : wrap fn.half (lowest mult (min start stop)) = lowest mult (min start stop) :=
    wrap_eq_self ⟨Int.le_trans hmin.1 hlow, h.1⟩
  rw [run_eq fn hmult hmin hmax, hwrap]
  by_cases hle : lowest mult (min start stop) ≤ highest mult (max start stop)
  · have hlowest := hmin.1
    have hhighest := hhigh.2
    obtain ⟨hwraps, -⟩ | ⟨-, v, hv⟩ := fn.drawIn_cases lrand48 hmult hhalf hle (by omega)
    · exact absurd hwraps h.2
    · rw [if_neg (by omega), hv, Drawn.ofDraw_ok]
      exact .inl ⟨v, rfl, hle⟩
  · rw [if_pos (by omega)]
    exact .inr ⟨_, rfl⟩

/-- **Division by zero.** A function divides by zero on no random numbers, and reports an error
where there is no multiple, if and only if the multiples can be counted in its type. -/
theorem sound_iff (hstart : InType fn.half start) (hstop : InType fn.half stop) (hmult : 1 ≤ mult)
    (hmulttype : InType fn.half mult) :
    fn.Sound start stop mult ↔ Countable fn.half mult (min start stop) (max start stop) := by
  have hmin : InType fn.half (min start stop) := by
    obtain ⟨hstartlow, hstarthigh⟩ := hstart
    obtain ⟨hstoplow, hstophigh⟩ := hstop
    exact ⟨by omega, by omega⟩
  have hmax : InType fn.half (max start stop) := by
    obtain ⟨hstartlow, hstarthigh⟩ := hstart
    obtain ⟨hstoplow, hstophigh⟩ := hstop
    exact ⟨by omega, by omega⟩
  constructor
  · intro hsound
    by_contra h
    exact hsound.not_divisionByZero (fun _ => 0) true (fun _ => ⟨by decide, by decide⟩)
      (run_of_not_countable hmult hmulttype.2 hmin hmax h _ _)
  · intro h
    refine ⟨fun lrand48 errp _ hzero => ?_, fun hnone lrand48 errp _ => ?_⟩
    · obtain ⟨ret, hret, -⟩ | ⟨text, htext⟩ :=
        run_of_countable hmult hmulttype.2 hmin hmax h lrand48 errp
      · cases hret.symm.trans hzero
      · cases htext.symm.trans hzero
    · obtain ⟨-, -, hle⟩ | htext := run_of_countable hmult hmulttype.2 hmin hmax h lrand48 errp
      · have hbounds : min start stop ≤ max start stop := by omega
        obtain ⟨v, hv⟩ := exists_between (show 0 < mult by omega) hbounds hle
        exact absurd hv (hnone v)
      · exact htext

/-- Every number is a multiple of 1. -/
theorem run_one (fn : RangeFn) {lo hi : ℤ} (hle : lo ≤ hi) (hdiff : hi - lo < fn.half - 1)
    (hlo : InType fn.half lo) (hhi : InType fn.half hi) (lrand48 : ℕ → ℤ) (errp : Bool) :
    fn.run lrand48 errp lo hi 1 = Drawn.ofDraw (if errp then some none else none)
      (fn.draw lrand48 1 lo hi (hi - lo + 1)) := by
  have hlowest : wrap fn.half (lowest 1 lo) = lo := by
    rw [lowest, Int.tmod_one, if_pos rfl, Int.sub_zero, Int.add_zero, wrap_eq_self hlo]
  have hhighest : highest 1 hi = hi := by rw [highest, Int.tmod_one, Int.sub_zero]
  have hcount : nmults fn.half lo hi 1 = .ok (hi - lo + 1) := by
    rw [nmults, wrap_eq_self ⟨by omega, by omega⟩, cdiv_eq_ok Int.one_ne_zero, Int.tdiv_one]
    exact congrArg Except.ok (wrap_eq_self ⟨by omega, by omega⟩)
  have hrun := @run_eq lo hi 1 fn (Int.le_refl 1) (by rwa [min_eq_left hle])
    (by rwa [max_eq_right hle]) lrand48 errp
  rwa [min_eq_left hle, max_eq_right hle, hlowest, hhighest, if_neg (by omega), drawIn,
    hcount] at hrun

end RangeFn

theorem sound_minusNine_nine : RangeFn.rangell.Sound (-9) 9 4 :=
  (RangeFn.sound_iff (by decide) (by decide) (by decide) (by decide)).mpr (by decide)

/-- All the values of `int`. -/
theorem allInts_not_sound : ¬RangeFn.range.Sound (-2147483648) 2147483647 1 := fun h =>
  h.not_divisionByZero (fun _ => 0) true (fun _ => ⟨by decide, by decide⟩) rfl

/-! ### The divided range -/

/-- `random_rangell` draws a value from its range, whatever `lrand48` gives. -/
def DrawsBetween (min max : ℤ) : Prop :=
  ∀ lrand48, (∀ n, Lrand48 (lrand48 n)) → ∀ errp, ∃ v,
    randomRangell lrand48 errp min max 1 =
        .ok { ret := v, errp := if errp then some none else none } ∧
      min ≤ v ∧ v ≤ max

section Divider

variable {lrand48 : ℕ → ℤ} {lo hi rand r : ℤ} {cnt : ℕ}

theorem not_bitOfRand_zero (cnt : ℕ) : ¬bitOfRand 0 cnt := by
  simp [bitOfRand]

/-- A range of which a half has more than 31 bits is halved. -/
theorem exists_halves {m : ℕ} (hdiff : hi - lo ≤ (2 ^ m : ℕ))
    (hwide : ¬(hi - lo) / 2 ≤ 2147483647) :
    ∃ k, m = k + 32 ∧ hi - (lo + (hi - lo) / 2) ≤ (2 ^ (k + 31) : ℕ) ∧
      lo + (hi - lo) / 2 - lo ≤ (2 ^ (k + 31) : ℕ) := by
  have hm : 32 ≤ m := by
    by_contra hlt
    have hpow : 2 ^ m ≤ 2 ^ 31 := Nat.pow_le_pow_right (by decide) (by omega)
    omega
  obtain ⟨k, rfl⟩ := Nat.exists_eq_add_of_le' hm
  rw [show k + 32 = k + 31 + 1 from rfl, Nat.pow_succ] at hdiff
  exact ⟨k, rfl, by omega, by omega⟩

/-- **The divider** adds its random number to a place in the range. The range is halved until it is
narrow; without a bit in the random number the place is where the range begins. -/
theorem divider_spec {m : ℕ} (hle : lo ≤ hi) (hlo : -4611686018427387904 < lo)
    (hhi : hi < 4611686018427387904) (hm : 30 ≤ m) (hcnt : m + cnt = 62)
    (hdiff : hi - lo ≤ (2 ^ m : ℕ))
    (hrand : (if cnt = 0 ∨ rand < -1 then lrand48 cnt else rand) = r) (hr : Lrand48 r) :
    ∃ b, lo ≤ b ∧ b ≤ hi ∧ divider lrand48 lo hi cnt rand = b + r ∧ (r = 0 → b = lo) := by
  induction m generalizing lo hi cnt rand with
  | zero => omega
  | succ m ih =>
    obtain ⟨hrlow, hrhigh⟩ := hr
    have hsum : ∀ x, lo ≤ x → x ≤ hi → int64 (x + r) = x + r := fun x hlow hhigh => by
      rw [int64_eq_wrap, wrap_eq_self ⟨by omega, by omega⟩]
    have hwidth : int64 (hi - lo) = hi - lo := by
      rw [int64_eq_wrap, wrap_eq_self ⟨by omega, by omega⟩]
    have hmed : int64 (lo + (hi - lo) / 2) = lo + (hi - lo) / 2 := by
      rw [int64_eq_wrap, wrap_eq_self ⟨by omega, by omega⟩]
    rw [divider, if_neg (by omega)]
    simp only [hrand, hwidth, Int.tdiv_eq_ediv_of_nonneg (show 0 ≤ hi - lo by omega), hmed]
    have hnext : (if cnt + 1 = 0 ∨ r < -1 then lrand48 (cnt + 1) else r) = r :=
      if_neg (by omega)
    by_cases hnarrow : hi - lo ≤ 2147483647
    · rw [if_pos hnarrow]
      exact ⟨lo, Int.le_refl lo, hle, hsum lo (Int.le_refl lo) hle, fun _ => rfl⟩
    rw [if_neg hnarrow]
    by_cases hhalf : (hi - lo) / 2 ≤ 2147483647
    · rw [if_pos hhalf]
      by_cases hbit : bitOfRand r cnt
      · rw [if_pos hbit]
        refine ⟨_, by omega, by omega, hsum _ (by omega) (by omega), fun hzero => ?_⟩
        exact absurd (hzero ▸ hbit) (not_bitOfRand_zero cnt)
      · rw [if_neg hbit]
        exact ⟨lo, Int.le_refl lo, hle, hsum lo (Int.le_refl lo) hle, fun _ => rfl⟩
    · rw [if_neg hhalf]
      obtain ⟨k, hk, hupper, hlower⟩ := exists_halves hdiff hhalf
      obtain rfl : m = k + 31 := by omega
      by_cases hbit : bitOfRand r cnt
      · rw [if_pos hbit]
        obtain ⟨b, hlow, hhigh, hb, -⟩ := @ih (lo + (hi - lo) / 2) hi r (cnt + 1) (by omega)
          (by omega) hhi (by omega) (by omega) hupper hnext
        exact ⟨b, by omega, hhigh, hb, fun hzero =>
          absurd (hzero ▸ hbit) (not_bitOfRand_zero cnt)⟩
      · rw [if_neg hbit]
        obtain ⟨b, hlow, hhigh, hb, hzero⟩ := @ih lo (lo + (hi - lo) / 2) r (cnt + 1) (by omega)
          hlo (by omega) (by omega) (by omega) hlower hnext
        exact ⟨b, hlow, by omega, hb, hzero⟩

theorem drawFrom_one {x n : ℤ} (hn : 0 < n) (hn' : n ≤ 4611686018427387904)
    (hlo : -4611686018427387904 < lo) (hlo' : lo < 4611686018427387904) :
    drawFrom x 1 lo n = .ok (lo + x.tmod n) := by
  have hlt := Int.tmod_lt_of_pos x hn
  have hgt := Int.lt_tmod_of_pos x hn
  rw [drawFrom, crem_eq_ok (by omega)]
  simp only [Int.mul_one, int64_eq_wrap]
  rw [wrap_add_wrap, wrap_eq_self ⟨by omega, by omega⟩]

/-- Without rounding the value is the lower bound and a remainder of what is drawn. -/
theorem randomRangell_one (hle : lo ≤ hi) (hdiff : hi - lo < 4611686018427387904)
    (hlo : -4611686018427387904 < lo) (hhi : hi < 4611686018427387904) (lrand48 : ℕ → ℤ)
    (errp : Bool) :
    randomRangell lrand48 errp lo hi 1 =
      .ok { ret := lo + (if hi ≤ 2147483647 then lrand48 0
              else divider lrand48 lo hi 0 (-1)).tmod (hi - lo + 1)
            errp := if errp then some none else none } := by
  have hdraw : RangeFn.rangell.draw lrand48 1 lo hi (hi - lo + 1) =
      .ok (lo + (if hi ≤ 2147483647 then lrand48 0
        else divider lrand48 lo hi 0 (-1)).tmod (hi - lo + 1)) := by
    rw [RangeFn.draw]
    split_ifs
    all_goals exact drawFrom_one (by omega) (by omega) hlo (by omega)
  refine (RangeFn.run_one .rangell hle ?_ ?_ ?_ lrand48 errp).trans (by rw [hdraw, Drawn.ofDraw_ok])
  · rw [RangeFn.half]
    omega
  · exact ⟨by rw [RangeFn.half]; omega, by rw [RangeFn.half]; omega⟩
  · exact ⟨by rw [RangeFn.half]; omega, by rw [RangeFn.half]; omega⟩

/-- `random_range` without rounding. -/
theorem randomRange_one (hle : lo ≤ hi) (hdiff : hi - lo < 2147483647)
    (hlo : InType 2147483648 lo) (hhi : InType 2147483648 hi) (l : ℤ) (errp : Bool) :
    randomRange l errp lo hi 1 =
      .ok { ret := lo + l.tmod (hi - lo + 1), errp := if errp then some none else none } := by
  refine (RangeFn.run_one .range hle hdiff hlo hhi (fun _ => l) errp).trans ?_
  obtain ⟨hlow, hhigh⟩ := hlo
  have hdraw : RangeFn.range.draw (fun _ => l) 1 lo hi (hi - lo + 1) =
      .ok (lo + l.tmod (hi - lo + 1)) := drawFrom_one (by omega) (by omega) (by omega) (by omega)
  rw [hdraw, Drawn.ofDraw_ok]

/-- From a lower bound below 0, and without a bit in the random number, the divider gives the lower
bound, which is then added to itself. -/
theorem not_drawsBetween (hle : lo ≤ hi) (hdiff : hi - lo < 4611686018427387904)
    (hlo : -4611686018427387904 < lo) (hhi : hi < 4611686018427387904) (hneg : lo < 0)
    (hhigh : ¬hi ≤ 2147483647) : ¬DrawsBetween lo hi := by
  intro h
  obtain ⟨v, hv, hlow, -⟩ := h (fun _ => 0) (fun _ => ⟨by decide, by decide⟩) true
  obtain ⟨b, -, -, hb, hzero⟩ := @divider_spec (fun _ => 0) lo hi (-1) 0 0 62 hle hlo hhi
    (by decide) rfl (Int.le_of_lt hdiff) rfl ⟨by decide, by decide⟩
  rw [hzero rfl, Int.add_zero] at hb
  have hrem : lo.tmod (hi - lo + 1) = lo := by
    have hpos := Int.tmod_eq_of_lt (show 0 ≤ -lo by omega) (show -lo < hi - lo + 1 by omega)
    rw [Int.neg_tmod] at hpos
    omega
  rw [randomRangell_one hle hdiff hlo hhi, if_neg hhigh, hb, hrem] at hv
  have hret := congrArg Drawn.ret (Except.ok.inj hv)
  dsimp only at hret
  omega

/-- **The range of `random_rangell`.** Over a range of less than 62 bits it draws a value of the
range if and only if the range need not be divided or has no negative value. -/
theorem drawsBetween_iff (hle : lo ≤ hi) (hdiff : hi - lo < 4611686018427387904)
    (hlo : -4611686018427387904 < lo) (hhi : hi < 4611686018427387904) :
    DrawsBetween lo hi ↔ hi ≤ 2147483647 ∨ 0 ≤ lo := by
  constructor
  · intro h
    by_contra hnot
    obtain ⟨hhigh, hneg⟩ := not_or.mp hnot
    exact not_drawsBetween hle hdiff hlo hhi (Int.not_le.mp hneg) hhigh h
  · intro h lrand48 hlrand48 errp
    refine ⟨_, randomRangell_one hle hdiff hlo hhi lrand48 errp, ?_⟩
    have hdrawn : 0 ≤ if hi ≤ 2147483647 then lrand48 0 else divider lrand48 lo hi 0 (-1) := by
      split_ifs with hhigh
      · exact (hlrand48 0).1
      · obtain ⟨b, hlow, -, hb, -⟩ := @divider_spec lrand48 lo hi (-1) (lrand48 0) 0 62 hle hlo hhi
          (by decide) rfl (Int.le_of_lt hdiff) rfl (hlrand48 0)
        have hnonneg := h.resolve_left hhigh
        have hfirst := (hlrand48 0).1
        omega
    have hrem := Int.tmod_nonneg (hi - lo + 1) hdrawn
    have hlt := Int.tmod_lt_of_pos (if hi ≤ 2147483647 then lrand48 0
      else divider lrand48 lo hi 0 (-1)) (show 0 < hi - lo + 1 by omega)
    exact ⟨by omega, by omega⟩

end Divider

theorem drawsBetween_wide : DrawsBetween 5 4294967296 :=
  (drawsBetween_iff (by decide) (by decide) (by decide) (by decide)).mpr (.inr (by decide))

/-- From -2^32 to 2^32. -/
theorem belowZero_not_drawsBetween : ¬DrawsBetween (-4294967296) 4294967296 :=
  not_drawsBetween (by decide) (by decide) (by decide) (by decide) (by decide) (by decide)

end RandomRange

end SnowballLtp
