import SnowballLtp.Machine.CInt

/-!
# Random multiples in a range

`random_range` draws a multiple of `mult` between two bounds: the lower bound is moved up and the
upper bound down to a multiple, and the draw chooses one of the multiples between them. The bounds
are moved by the remainder of C, which has the sign of the bound: for a negative bound that is no
multiple the move ends one multiple too high. `bump_cases` and `reduce_cases` describe the moves by
the multiples next to the bounds; the draw itself reaches every multiple between the
moved bounds, unless their distance does not fit into 32 bits.

## Main definitions

* `bump`, `reduce`, `nmults`, `drawIn`, `randomIn`: the functions of the family, for any type.
* `randomRange`.
* `NoOverflow`, `DrawsMultiples`: the domain and what `random_range` should do on it.

## Main results

* `drawsMultiples_iff`.
-/

namespace SnowballLtp

namespace RandomRange

/-- What a call leaves: the value returned, and what `*errp` is set to unless `errp` is null. -/
structure Drawn where
  ret : ℤ
  errp : Option (Option String)
  deriving DecidableEq, Repr

/-- The text for a range without multiples. -/
def noNumbers (min max mult : ℤ) : String :=
  s!"no numbers in the range {min}:{max} that are a multiple of {mult}"

/-! The functions of the family differ in their type, which has `half` numbers below 0, and in how
they draw. -/

/-- Bump the lower bound to the next higher multiple. -/
def bump (half min mult : ℤ) : Except Fault ℤ :=
  match crem min mult with
  | .ok r => .ok (if r ≠ 0 then wrap half (min + wrap half (mult - r)) else min)
  | .error fault => .error fault

/-- Reduce the upper bound to the next lower multiple. -/
def reduce (half max mult : ℤ) : Except Fault ℤ :=
  match crem max mult with
  | .ok r => .ok (if r ≠ 0 then wrap half (max - r) else max)
  | .error fault => .error fault

/-- The number of multiples between the bounds. -/
def nmults (half min max mult : ℤ) : Except Fault ℤ :=
  match cdiv (wrap half (max - min)) mult with
  | .ok q => .ok (wrap half (q + 1))
  | .error fault => .error fault

/-- The draw between two multiples, which is given their number. -/
def drawIn (half : ℤ) (draw : ℤ → ℤ → ℤ → Except Fault ℤ) (min max mult : ℤ) : Except Fault ℤ :=
  match nmults half min max mult with
  | .ok n => draw min max n
  | .error fault => .error fault

/-- What a call leaves that has drawn a number. -/
def Drawn.ofDraw (errp : Option (Option String)) : Except Fault ℤ → Except Fault Drawn
  | .ok ret => .ok { ret, errp }
  | .error fault => .error fault

@[simp] theorem Drawn.ofDraw_ok (errp : Option (Option String)) (ret : ℤ) :
    Drawn.ofDraw errp (.ok ret) = .ok { ret, errp } := rfl

@[simp] theorem Drawn.ofDraw_error (errp : Option (Option String)) (fault : Fault) :
    Drawn.ofDraw errp (.error fault) = .error fault := rfl

/-- What the functions have in common. -/
def randomIn (half : ℤ) (draw : ℤ → ℤ → ℤ → Except Fault ℤ) (errp : Bool) (min max mult : ℤ) :
    Except Fault Drawn :=
  let setErrp := fun text => if errp then some text else none
  if mult < 1 then
    .ok { ret := -1, errp := setErrp (some "mult arg must be greater than 0") }
  else
    let (lo, hi) := if max < min then (max, min) else (min, max)
    match bump half lo mult, reduce half hi mult with
    | .ok lo, .ok hi =>
      if lo > hi then .ok { ret := -1, errp := setErrp (some (noNumbers min max mult)) }
      else Drawn.ofDraw (setErrp none) (drawIn half draw lo hi mult)
    | .error fault, _ => .error fault
    | _, .error fault => .error fault

/-- A number between the bounds by way of a random number, reduced to the multiples. -/
def drawFrom (randnum mult lo n : ℤ) : Except Fault ℤ :=
  match crem randnum n with
  | .ok r => .ok (int64 (lo + int64 (r * mult)))
  | .error fault => .error fault

/-- `random_range`, for the value that `lrand48` has and an `errp` that is null or not. -/
def randomRange (lrand48 : ℤ) (errp : Bool) (min max mult : ℤ) : Except Fault Drawn :=
  randomIn 2147483648 (fun lo _ n => drawFrom lrand48 mult lo n) errp min max mult

/-! ### Moving the bounds -/

/-- The multiple that the lower bound is moved to where nothing wraps. -/
def lowest (mult lo : ℤ) : ℤ := lo - lo.tmod mult + if lo.tmod mult = 0 then 0 else mult

/-- The multiple that the upper bound is moved to. -/
def highest (mult hi : ℤ) : ℤ := hi - hi.tmod mult


section Rounding

variable {half x y c mult lo hi : ℤ}

/-- Multiples less than `mult` apart are ordered. -/
theorem le_of_dvd_of_lt_add (hx : mult ∣ x) (hy : mult ∣ y)
    (h : x < y + mult) : x ≤ y := by
  by_contra hlt
  have hle := Int.le_of_dvd (by omega) (Int.dvd_sub hx hy)
  omega

/-- The next multiple from `x` upwards. -/
structure IsCeil (mult x c : ℤ) : Prop where
  dvd : mult ∣ c
  le : x ≤ c
  lt_add : c < x + mult

/-- The next multiple from `x` downwards. -/
structure IsFloor (mult x c : ℤ) : Prop where
  dvd : mult ∣ c
  le : c ≤ x
  lt_add : x < c + mult

theorem IsCeil.le_of_dvd (h : IsCeil mult x c) (hy : mult ∣ y)
    (hle : x ≤ y) : c ≤ y :=
  le_of_dvd_of_lt_add h.dvd hy (by have := h.lt_add; omega)

theorem IsFloor.le_of_dvd (h : IsFloor mult x c) (hy : mult ∣ y)
    (hle : y ≤ x) : y ≤ c :=
  le_of_dvd_of_lt_add hy h.dvd (by have := h.lt_add; omega)

/-- The remainder has the sign of the number. -/
theorem tmod_cases (hmult : 0 < mult) (x : ℤ) :
    mult ∣ x - x.tmod mult ∧
      (x.tmod mult = 0 ∨ 0 < x ∧ 0 < x.tmod mult ∧ x.tmod mult < mult ∨
        x < 0 ∧ x.tmod mult < 0 ∧ -mult < x.tmod mult) := by
  have hdvd : mult ∣ x - x.tmod mult := ⟨x.tdiv mult, by
    have := Int.tmod_add_mul_tdiv x mult
    omega⟩
  refine ⟨hdvd, ?_⟩
  have hlt := Int.tmod_lt_of_pos x hmult
  have hgt := Int.lt_tmod_of_pos x hmult
  rcases Int.lt_trichotomy x 0 with hx | rfl | hx
  · have := Int.tmod_nonneg mult (a := -x) (by omega)
    rw [Int.neg_tmod] at this
    omega
  · simp
  · have := Int.tmod_nonneg mult (Int.le_of_lt hx)
    omega

theorem bump_eq (hmult : mult ≠ 0) (hlo : InType half lo) :
    bump half lo mult = .ok (wrap half (lowest mult lo)) := by
  rw [bump, crem_eq_ok hmult]
  dsimp only
  by_cases hr : lo.tmod mult = 0
  · rw [if_neg (not_not_intro hr), lowest, if_pos hr, hr, Int.sub_zero, Int.add_zero,
      wrap_eq_self hlo]
  · rw [if_pos hr, wrap_add_wrap, lowest, if_neg hr]
    congr 2
    omega

theorem natAbs_tmod_le (x mult : ℤ) : (x.tmod mult).natAbs ≤ x.natAbs := by
  rw [Int.natAbs_tmod]
  exact Nat.mod_le _ _

theorem highest_inType (hmult : 0 < mult) (hhi : InType half hi) :
    InType half (highest mult hi) := by
  obtain ⟨hlow, hhigh⟩ := hhi
  have hle := natAbs_tmod_le hi mult
  obtain ⟨-, hcases⟩ := tmod_cases hmult hi
  rw [highest]
  exact ⟨by omega, by omega⟩

theorem reduce_eq (hmult : 0 < mult) (hhi : InType half hi) :
    reduce half hi mult = .ok (highest mult hi) := by
  rw [reduce, crem_eq_ok (by omega)]
  dsimp only
  by_cases hr : hi.tmod mult = 0
  · rw [if_neg (not_not_intro hr), highest, hr, Int.sub_zero]
  · rw [if_pos hr, ← highest, wrap_eq_self (highest_inType hmult hhi)]

theorem dvd_lowest (hmult : 0 < mult) (lo : ℤ) : mult ∣ lowest mult lo := by
  refine Int.dvd_add (tmod_cases hmult lo).1 ?_
  split_ifs
  · exact Int.dvd_zero mult
  · exact Int.dvd_refl mult

theorem dvd_highest (hmult : 0 < mult) (hi : ℤ) : mult ∣ highest mult hi := (tmod_cases hmult hi).1

/-- The lower bound ends at the next multiple, or one further for a negative bound that is no
multiple. -/
theorem bump_cases (hmult : 0 < mult) (hx : InType half x) (hfit : InType half (lowest mult x)) :
    ∃ c, IsCeil mult x c ∧
      ((0 ≤ x ∨ mult ∣ x) ∧ bump half x mult = .ok c ∨
        (x < 0 ∧ ¬ mult ∣ x) ∧ bump half x mult = .ok (c + mult)) := by
  obtain ⟨hdvd, hcases⟩ := tmod_cases hmult x
  have hiff : mult ∣ x ↔ x.tmod mult = 0 := Int.dvd_iff_tmod_eq_zero
  have hup := dvd_lowest hmult x
  rw [bump_eq (by omega) hx, wrap_eq_self hfit]
  rw [lowest] at hup ⊢
  rcases hcases with hr | ⟨hpos, hr, hlt⟩ | ⟨hneg, hr, hgt⟩
  · rw [if_pos hr] at hup ⊢
    exact ⟨_, ⟨hup, by omega, by omega⟩, .inl ⟨.inr (hiff.mpr hr), rfl⟩⟩
  · rw [if_neg (by omega)] at hup ⊢
    exact ⟨_, ⟨hup, by omega, by omega⟩, .inl ⟨.inl (by omega), rfl⟩⟩
  · rw [if_neg (by omega)]
    exact ⟨_, ⟨hdvd, by omega, by omega⟩, .inr ⟨⟨hneg, by rw [hiff]; omega⟩, rfl⟩⟩

/-- The upper bound ends at the next multiple, or one further up for a negative bound that is no
multiple. -/
theorem reduce_cases (hmult : 0 < mult) (hx : InType half x) :
    ∃ c, IsFloor mult x c ∧
      ((0 ≤ x ∨ mult ∣ x) ∧ reduce half x mult = .ok c ∨
        (x < 0 ∧ ¬ mult ∣ x) ∧ reduce half x mult = .ok (c + mult)) := by
  obtain ⟨hdvd, hcases⟩ := tmod_cases hmult x
  have hiff : mult ∣ x ↔ x.tmod mult = 0 := Int.dvd_iff_tmod_eq_zero
  rw [reduce_eq hmult hx, highest]
  rcases hcases with hr | ⟨hpos, hr, hlt⟩ | ⟨hneg, hr, hgt⟩
  · exact ⟨_, ⟨hdvd, by omega, by omega⟩, .inl ⟨.inr (hiff.mpr hr), rfl⟩⟩
  · exact ⟨_, ⟨hdvd, by omega, by omega⟩, .inl ⟨.inl (by omega), rfl⟩⟩
  · refine ⟨x - x.tmod mult - mult, ⟨Int.dvd_sub hdvd (Int.dvd_refl mult), by omega, by omega⟩,
      .inr ⟨⟨hneg, by rw [hiff]; omega⟩, ?_⟩⟩
    rw [Int.sub_add_cancel]

end Rounding

/-! ### The draw -/

section Draw

variable {lo hi mult v : ℤ}

/-- The values that `lrand48` can have. -/
def Lrand48 (l : ℤ) : Prop := 0 ≤ l ∧ l ≤ 2147483647

/-- The draw of `random_range` between two multiples. -/
private def draw (lrand48 lo hi mult : ℤ) : Except Fault ℤ :=
  drawIn 2147483648 (fun lo _ n => drawFrom lrand48 mult lo n) lo hi mult

/-- A draw of `r` out of the multiples from the lower bound on. -/
private theorem draw_eq_ok {l n : ℤ} (hcount : nmults 2147483648 lo hi mult = .ok n)
    (hne : n ≠ 0) (hmul : InInt32 (l.tmod n * mult)) (hadd : InInt32 (lo + l.tmod n * mult)) :
    draw l lo hi mult = .ok (lo + l.tmod n * mult) := by
  simp only [draw, drawIn, drawFrom, hcount, crem_eq_ok hne, int64_eq_self hmul,
    int64_eq_self hadd]

private theorem le_mul_of_pos (k : ℕ) (hmult : 0 < mult) : (k : ℤ) ≤ k * mult := by
  have := Int.mul_le_mul_of_nonneg_left (show 1 ≤ mult by omega) (Int.natCast_nonneg k)
  omega

/-- The number of multiples may wrap to a negative value, whose remainders are the same. -/
private theorem tmod_int32_count {k : ℕ} (hk : k < 2147483648) {l : ℤ} (hl : Lrand48 l) :
    int32 (k + 1) ≠ 0 ∧ l.tmod (int32 (k + 1)) = l % (k + 1) := by
  rw [Int.tmod_eq_emod_of_nonneg hl.1]
  rcases Nat.lt_or_ge k 2147483647 with h | h
  · rw [int32_eq_self ⟨by omega, by omega⟩]
    exact ⟨by omega, rfl⟩
  · obtain rfl : k = 2147483647 := by omega
    rw [show int32 ((2147483647 : ℕ) + 1) = -2147483648 by decide]
    exact ⟨by decide, Int.emod_neg _ _⟩

/-- Between two multiples whose distance fits into 32 bits the draw reaches exactly the multiples
between them. -/
theorem draw_spec {k : ℕ} (hmult : 0 < mult) (hlo : InInt32 lo) (hhi : InInt32 hi)
    (hspan : hi - lo = k * mult) (hfit : hi - lo ≤ 2147483647) :
    (∀ l, Lrand48 l → ∃ v, draw l lo hi mult = .ok v) ∧
      ∀ v, (∃ l, Lrand48 l ∧ draw l lo hi mult = .ok v) ↔
        ∃ j : ℕ, j ≤ k ∧ v = lo + j * mult := by
  have hk := le_mul_of_pos k hmult
  have hcount : nmults 2147483648 lo hi mult = .ok (int32 (k + 1)) := by
    rw [nmults, wrap_eq_self ⟨by omega, by omega⟩, hspan, cdiv_eq_ok (by omega)]
    simp only [Int.mul_tdiv_cancel _ (show mult ≠ 0 by omega), int32_eq_wrap]
  have hdraw : ∀ l, Lrand48 l → draw l lo hi mult = .ok (lo + l % (k + 1) * mult) := by
    intro l hl
    obtain ⟨hne, htmod⟩ := tmod_int32_count (k := k) (by omega) hl
    have hr := Int.emod_nonneg l (show (k : ℤ) + 1 ≠ 0 by omega)
    have hr' := Int.emod_lt_of_pos l (show 0 < (k : ℤ) + 1 by omega)
    have hpos : 0 ≤ l % (k + 1) * mult := Int.mul_nonneg hr (by omega)
    have hle : l % (k + 1) * mult ≤ k * mult :=
      Int.mul_le_mul_of_nonneg_right (by omega) (by omega)
    obtain ⟨hlo', -⟩ := hlo
    obtain ⟨-, hhi'⟩ := hhi
    rw [← htmod] at hpos hle ⊢
    exact draw_eq_ok hcount hne ⟨by omega, by omega⟩ ⟨by omega, by omega⟩
  refine ⟨fun l hl => ⟨_, hdraw l hl⟩, fun v => ⟨?_, ?_⟩⟩
  · rintro ⟨l, hl, hv⟩
    rw [hdraw l hl] at hv
    have hr := Int.emod_nonneg l (show (k : ℤ) + 1 ≠ 0 by omega)
    have hr' := Int.emod_lt_of_pos l (show 0 < (k : ℤ) + 1 by omega)
    refine ⟨(l % (k + 1)).toNat, by omega, ?_⟩
    rw [Int.toNat_of_nonneg hr]
    exact (Except.ok.inj hv).symm
  · rintro ⟨j, hj, rfl⟩
    have hl : Lrand48 j := ⟨by omega, by omega⟩
    refine ⟨j, hl, ?_⟩
    rw [hdraw j hl, Int.emod_eq_of_lt (by omega) (by omega)]

/-- At the distance 2^31 the subtraction wraps, and the topmost two multiples are never drawn. -/
theorem draw_wrapped {k : ℕ} (hmult : 0 < mult) (hk : 2 ≤ k) (hlo : InInt32 lo)
    (hhi : InInt32 hi) (hspan : hi - lo = k * mult) (hfit : hi - lo = 2147483648) {l : ℤ}
    (hl : Lrand48 l) : ∃ v, draw l lo hi mult = .ok v ∧ v ≤ hi - 2 * mult := by
  have hcount : nmults 2147483648 lo hi mult = .ok (int32 (-k + 1)) := by
    have hwrap : wrap 2147483648 (hi - lo) = -k * mult := by
      rw [hfit, Int.neg_mul, ← hspan, hfit]
      decide
    rw [nmults, hwrap, cdiv_eq_ok (by omega)]
    simp only [Int.mul_tdiv_cancel _ (show mult ≠ 0 by omega), int32_eq_wrap]
  have hkle := le_mul_of_pos k hmult
  have hnmults : int32 (-k + 1) = -((k - 1 : ℕ) : ℤ) := by
    rw [int32_eq_self ⟨by omega, by omega⟩]
    omega
  have htmod : l.tmod (int32 (-k + 1)) = l % ((k - 1 : ℕ) : ℤ) := by
    rw [hnmults, Int.tmod_eq_emod_of_nonneg hl.1, Int.emod_neg]
  have hr := Int.emod_nonneg l (show ((k - 1 : ℕ) : ℤ) ≠ 0 by omega)
  have hr' := Int.emod_lt_of_pos l (show 0 < ((k - 1 : ℕ) : ℤ) by omega)
  have hpos : 0 ≤ l % ((k - 1 : ℕ) : ℤ) * mult := Int.mul_nonneg hr (by omega)
  have hle : l % ((k - 1 : ℕ) : ℤ) * mult ≤ (k - 2) * mult :=
    Int.mul_le_mul_of_nonneg_right (by omega) (by omega)
  rw [Int.sub_mul] at hle
  obtain ⟨hlo', -⟩ := hlo
  obtain ⟨-, hhi'⟩ := hhi
  have hdraw := draw_eq_ok (l := l) hcount (by rw [hnmults]; omega)
    (by rw [htmod]; exact ⟨by omega, by omega⟩) (by rw [htmod]; exact ⟨by omega, by omega⟩)
  rw [htmod] at hdraw
  exact ⟨_, hdraw, by omega⟩

end Draw

/-! ### The whole function -/

/-- The multiples of `mult` from `lo` to `hi`. -/
def Between (mult lo hi v : ℤ) : Prop := lo ≤ v ∧ v ≤ hi ∧ mult ∣ v

/-- The arguments are ints, and neither the difference of the bounds nor the rounding to multiples
leaves 32 bits. -/
structure NoOverflow (start stop mult : ℤ) : Prop where
  start_int : InInt32 start
  stop_int : InInt32 stop
  mult_pos : 1 ≤ mult
  mult_int : InInt32 mult
  span : InInt32 (stop - start)
  round_up : (min start stop).tmod mult ≠ 0 → InInt32 (mult - (min start stop).tmod mult) ∧
    InInt32 (min start stop + (mult - (min start stop).tmod mult))

/-- The values drawn are the multiples between the bounds, and an error is reported just when
there are none. -/
structure DrawsMultiples (start stop mult : ℤ) : Prop where
  drawn_iff : ∀ v, (∃ l, Lrand48 l ∧
    randomRange l true start stop mult = .ok { ret := v, errp := some none }) ↔
      Between mult (min start stop) (max start stop) v
  error_iff : ∀ l, Lrand48 l → ((∃ ret text,
    randomRange l true start stop mult = .ok { ret, errp := some (some text) }) ↔
      ∀ v, ¬ Between mult (min start stop) (max start stop) v)

/-- There is no multiple between the bounds, or each bound is nonnegative or itself a multiple, and
they are not multiples at the distance 2^31. -/
def RoundsWell (start stop mult : ℤ) : Prop :=
  (∀ v, ¬ Between mult (min start stop) (max start stop) v) ∨
  (0 ≤ min start stop ∨ mult ∣ min start stop) ∧ (0 ≤ max start stop ∨ mult ∣ max start stop) ∧
    ¬ (max start stop - min start stop = 2147483648 ∧
      mult ∣ min start stop ∧ mult ∣ max start stop)

section Whole

variable {start stop mult lo hi : ℤ}

/-- The bounds in order. -/
theorem swap_eq (start stop : ℤ) : (if stop < start then (stop, start) else (start, stop)) =
    (min start stop, max start stop) := by
  split_ifs with h
  · rw [min_eq_right (Int.le_of_lt h), max_eq_left (Int.le_of_lt h)]
  · rw [min_eq_left (by omega), max_eq_right (by omega)]

private theorem randomRange_eq (hmult : 1 ≤ mult)
    (hup : bump 2147483648 (min start stop) mult = .ok lo)
    (hdown : reduce 2147483648 (max start stop) mult = .ok hi) (l : ℤ) :
    randomRange l true start stop mult =
      if lo > hi then .ok { ret := -1, errp := some (some (noNumbers start stop mult)) }
      else Drawn.ofDraw (some none) (draw l lo hi mult) := by
  rw [randomRange, randomIn, if_neg (by omega), swap_eq]
  simp only [hup, hdown, if_true, draw]

/-- Rounding leaves no multiple: every call reports an error. -/
private theorem drawsMultiples_of_gt (hmult : 1 ≤ mult)
    (hup : bump 2147483648 (min start stop) mult = .ok lo)
    (hdown : reduce 2147483648 (max start stop) mult = .ok hi) (hgt : lo > hi) :
    DrawsMultiples start stop mult ↔
      ∀ v, ¬ Between mult (min start stop) (max start stop) v := by
  have hrun : ∀ l, randomRange l true start stop mult =
      .ok { ret := -1, errp := some (some (noNumbers start stop mult)) } := fun l => by
    rw [randomRange_eq hmult hup hdown, if_pos hgt]
  constructor
  · intro h v hv
    obtain ⟨l, -, hl⟩ := (h.drawn_iff v).mpr hv
    rw [hrun] at hl
    simp at hl
  · intro h
    refine ⟨fun v => iff_of_false ?_ (h v), fun l _ => iff_of_true ⟨_, _, hrun l⟩ h⟩
    rintro ⟨l, -, hl⟩
    rw [hrun] at hl
    simp at hl

/-- The multiples between two multiples, counted from the lower one. -/
private theorem steps_iff_between {k : ℕ} (hmult : 1 ≤ mult) (hlodvd : mult ∣ lo)
    (hspan : hi - lo = k * mult) (v : ℤ) :
    (∃ j : ℕ, j ≤ k ∧ v = lo + j * mult) ↔ Between mult lo hi v := by
  constructor
  · rintro ⟨j, hj, rfl⟩
    have hpos : 0 ≤ j * mult := Int.mul_nonneg (Int.natCast_nonneg j) (by omega)
    have hjk : j * mult ≤ k * mult := Int.mul_le_mul_of_nonneg_right (by omega) (by omega)
    exact ⟨by omega, by omega, Int.dvd_add hlodvd ⟨j, Int.mul_comm _ _⟩⟩
  · rintro ⟨hlov, hvhi, hdvd⟩
    obtain ⟨q, hq⟩ := Int.dvd_sub hdvd hlodvd
    have hq0 : 0 ≤ q := Int.nonneg_of_mul_nonneg_right (by omega) (show 0 < mult by omega)
    have hqk : q ≤ k := by
      refine Int.le_of_mul_le_mul_left (a := mult) ?_ (by omega)
      rw [Int.mul_comm mult k]
      omega
    refine ⟨q.toNat, by omega, ?_⟩
    rw [Int.toNat_of_nonneg hq0, Int.mul_comm q]
    omega

/-- Rounding leaves multiples at a distance that fits: the draw reaches all of them. -/
private theorem drawsMultiples_of_le (hmult : 1 ≤ mult) (hlo : InInt32 lo) (hhi : InInt32 hi)
    (hlodvd : mult ∣ lo) (hhidvd : mult ∣ hi)
    (hup : bump 2147483648 (min start stop) mult = .ok lo)
    (hdown : reduce 2147483648 (max start stop) mult = .ok hi) (hle : lo ≤ hi)
    (hfit : hi - lo ≤ 2147483647) :
    DrawsMultiples start stop mult ↔ ∀ v, Between mult lo hi v ↔
      Between mult (min start stop) (max start stop) v := by
  obtain ⟨k, hk⟩ : ∃ k : ℕ, hi - lo = k * mult := by
    obtain ⟨q, hq⟩ := Int.dvd_sub hhidvd hlodvd
    have hq0 : 0 ≤ q := Int.nonneg_of_mul_nonneg_right (by omega) (show 0 < mult by omega)
    exact ⟨q.toNat, by rw [Int.toNat_of_nonneg hq0, Int.mul_comm]; exact hq⟩
  obtain ⟨htotal, hvalues⟩ := draw_spec (by omega) hlo hhi hk hfit
  have hrun : ∀ l, randomRange l true start stop mult =
      Drawn.ofDraw (some none) (draw l lo hi mult) := fun l => by
    rw [randomRange_eq hmult hup hdown, if_neg (by omega)]
  have hdrawn : ∀ v, (∃ l, Lrand48 l ∧ randomRange l true start stop mult =
      .ok { ret := v, errp := some none }) ↔ Between mult lo hi v := by
    intro v
    have hstep : ∀ l, Lrand48 l → (randomRange l true start stop mult =
        .ok { ret := v, errp := some none } ↔ draw l lo hi mult = .ok v) := fun l hl => by
      obtain ⟨w, hw⟩ := htotal l hl
      simp [hrun, hw]
    rw [exists_congr fun l => and_congr_right (hstep l), hvalues]
    exact steps_iff_between hmult hlodvd hk v
  have hnoerror : ∀ l, Lrand48 l → ¬ ∃ ret text, randomRange l true start stop mult =
      .ok { ret, errp := some (some text) } := by
    rintro l hl ⟨ret, text, herr⟩
    obtain ⟨v, hv⟩ := htotal l hl
    simp [hrun, hv] at herr
  constructor
  · exact fun h v => (hdrawn v).symm.trans (h.drawn_iff v)
  · intro h
    refine ⟨fun v => (hdrawn v).trans (h v), fun l hl => iff_of_false (hnoerror l hl) ?_⟩
    exact fun hempty => hempty lo ((h lo).mp ⟨Int.le_refl lo, hle, hlodvd⟩)

/-- Rounding leaves multiples at the distance 2^31: the multiple below the upper one is never
drawn. -/
private theorem not_drawsMultiples_of_wrapped (hmult : 1 ≤ mult) (hmultint : InInt32 mult)
    (hlo : InInt32 lo) (hhi : InInt32 hi) (hlodvd : mult ∣ lo) (hhidvd : mult ∣ hi)
    (hup : bump 2147483648 (min start stop) mult = .ok lo)
    (hdown : reduce 2147483648 (max start stop) mult = .ok hi) (hwrap : hi - lo = 2147483648)
    (hmem : Between mult (min start stop) (max start stop) (hi - mult)) :
    ¬ DrawsMultiples start stop mult := by
  obtain ⟨q, hq⟩ := Int.dvd_sub hhidvd hlodvd
  have hq2 : 2 ≤ q := by
    by_contra hlt
    have hqle : mult * q ≤ mult * 1 := Int.mul_le_mul_of_nonneg_left (by omega) (by omega)
    obtain ⟨-, hmultle⟩ := hmultint
    omega
  have hspan : hi - lo = (q.toNat : ℤ) * mult := by
    rw [Int.toNat_of_nonneg (by omega), Int.mul_comm]
    exact hq
  intro h
  obtain ⟨l, hl, hrun⟩ := (h.drawn_iff _).mpr hmem
  obtain ⟨v, hv, hle⟩ := draw_wrapped (by omega) (by omega) hlo hhi hspan hwrap hl
  rw [randomRange_eq hmult hup hdown, if_neg (by omega), hv] at hrun
  simp at hrun
  omega

private theorem between_iff {x y c f v : ℤ} (hceil : IsCeil mult x c) (hfloor : IsFloor mult y f) :
    Between mult c f v ↔ Between mult x y v := by
  have hcx := hceil.le
  have hfy := hfloor.le
  constructor
  · rintro ⟨hlow, hhigh, hdvd⟩
    exact ⟨by omega, by omega, hdvd⟩
  · rintro ⟨hlow, hhigh, hdvd⟩
    exact ⟨hceil.le_of_dvd hdvd hlow, hfloor.le_of_dvd hdvd hhigh, hdvd⟩

/-- A lower bound moved beyond the next multiple leaves that multiple out. -/
private theorem not_drawsMultiples_of_beyond {c : ℤ} (hmult : 1 ≤ mult) (hc : InInt32 c)
    (hhi : InInt32 hi) (hhidvd : mult ∣ hi)
    (hup : bump 2147483648 (min start stop) mult = .ok (c + mult))
    (hdown : reduce 2147483648 (max start stop) mult = .ok hi) (hfit : hi - c ≤ 2147483647 + mult)
    (hmem : Between mult (min start stop) (max start stop) c) :
    ¬ DrawsMultiples start stop mult := by
  have hdvd : mult ∣ c + mult := Int.dvd_add hmem.2.2 (Int.dvd_refl mult)
  rcases Int.lt_or_le hi (c + mult) with hgt | hle
  · rw [drawsMultiples_of_gt hmult hup hdown hgt]
    exact fun hempty => hempty c hmem
  · obtain ⟨hclow, -⟩ := hc
    obtain ⟨-, hhihigh⟩ := hhi
    rw [drawsMultiples_of_le hmult ⟨by omega, by omega⟩ ⟨by omega, by omega⟩ hdvd hhidvd hup hdown
      hle (by omega)]
    intro h
    have hlow := ((h c).mpr hmem).1
    omega

/-- Bounds that fit, with the multiples next to them inside. -/
structure Rounded (start stop mult c f : ℤ) : Prop where
  mult_pos : 1 ≤ mult
  mult_int : InInt32 mult
  low_int : InInt32 (min start stop)
  high_int : InInt32 (max start stop)
  width : max start stop - min start stop ≤ 2147483648
  ordered : min start stop ≤ max start stop
  ceil : IsCeil mult (min start stop) c
  floor : IsFloor mult (max start stop) f

private theorem NoOverflow.bounds_int (h : NoOverflow start stop mult) :
    InInt32 (min start stop) ∧ InInt32 (max start stop) := by
  rcases Int.le_total start stop with hle | hle
  · rw [min_eq_left hle, max_eq_right hle]
    exact ⟨h.start_int, h.stop_int⟩
  · rw [min_eq_right hle, max_eq_left hle]
    exact ⟨h.stop_int, h.start_int⟩

private theorem inType_of_inInt32 {x : ℤ} (h : InInt32 x) : InType 2147483648 x :=
  ⟨h.1, Int.lt_of_le_of_lt h.2 (by decide)⟩

/-- The lower bound is not moved out of the type. -/
private theorem NoOverflow.lowest_inType (h : NoOverflow start stop mult) :
    InType 2147483648 (lowest mult (min start stop)) := by
  have hlow := inType_of_inInt32 h.bounds_int.1
  by_cases hr : (min start stop).tmod mult = 0
  · rwa [lowest, if_pos hr, hr, Int.sub_zero, Int.add_zero]
  · have hfit := inType_of_inInt32 (h.round_up hr).2
    rwa [lowest, if_neg hr, show min start stop - (min start stop).tmod mult + mult =
      min start stop + (mult - (min start stop).tmod mult) by omega]

private theorem NoOverflow.rounded {c f : ℤ} (h : NoOverflow start stop mult)
    (hceil : IsCeil mult (min start stop) c) (hfloor : IsFloor mult (max start stop) f) :
    Rounded start stop mult c f := by
  obtain ⟨hlow, hhigh⟩ := h.bounds_int
  obtain ⟨hspanlow, hspanhigh⟩ := h.span
  exact ⟨h.mult_pos, h.mult_int, hlow, hhigh, by omega, by omega, hceil, hfloor⟩

namespace Rounded

variable {c f : ℤ}

/-- What is left of the bounds for arithmetic. -/
theorem bounds (h : Rounded start stop mult c f) :
    (min start stop ≤ c ∧ f ≤ max start stop ∧ max start stop < f + mult) ∧
      -2147483648 ≤ min start stop ∧ max start stop ≤ 2147483647 ∧
        1 ≤ mult ∧ mult ≤ 2147483647 :=
  ⟨⟨h.ceil.le, h.floor.le, h.floor.lt_add⟩, h.low_int.1, h.high_int.2, h.mult_pos, h.mult_int.2⟩

theorem not_between (h : Rounded start stop mult c f) (hgt : f < c) (v : ℤ) :
    ¬ Between mult (min start stop) (max start stop) v := by
  intro hv
  obtain ⟨hcv, hvf, -⟩ := (between_iff h.ceil h.floor).mpr hv
  omega

theorem ceil_mem (h : Rounded start stop mult c f) (hle : c ≤ f) :
    Between mult (min start stop) (max start stop) c :=
  (between_iff h.ceil h.floor).mp ⟨Int.le_refl c, hle, h.ceil.dvd⟩

/-- A multiple below 0 is at least `mult` below it. -/
theorem floor_add_le_zero (h : Rounded start stop mult c f) (hneg : max start stop < 0) :
    f + mult ≤ 0 := by
  have hfhi := h.floor.le
  exact le_of_dvd_of_lt_add (Int.dvd_add h.floor.dvd (Int.dvd_refl mult)) (Int.dvd_zero mult)
    (by omega)

/-- Both bounds are moved to the multiples next to them. -/
theorem drawsMultiples_iff_of_next (h : Rounded start stop mult c f)
    (hlofine : 0 ≤ min start stop ∨ mult ∣ min start stop)
    (hup : bump 2147483648 (min start stop) mult = .ok c)
    (hhifine : 0 ≤ max start stop ∨ mult ∣ max start stop)
    (hdown : reduce 2147483648 (max start stop) mult = .ok f) :
    DrawsMultiples start stop mult ↔ RoundsWell start stop mult := by
  obtain ⟨⟨hclo, hfhi, hflt⟩, hlow, hhigh, hmultlow, hmulthigh⟩ := h.bounds
  have hwidth := h.width
  rcases Int.lt_or_le f c with hgt | hle
  · rw [drawsMultiples_of_gt h.mult_pos hup hdown hgt]
    exact iff_of_true (h.not_between hgt) (.inl (h.not_between hgt))
  rcases Int.lt_or_le (f - c) 2147483648 with hfit | hfit
  · rw [drawsMultiples_of_le h.mult_pos ⟨by omega, by omega⟩ ⟨by omega, by omega⟩ h.ceil.dvd
      h.floor.dvd hup hdown hle (by omega)]
    refine iff_of_true (fun v => between_iff h.ceil h.floor) (.inr ⟨hlofine, hhifine, ?_⟩)
    rintro ⟨hwide, hlo, hhi⟩
    have hcle := h.ceil.le_of_dvd hlo (Int.le_refl _)
    have hlef := h.floor.le_of_dvd hhi (Int.le_refl _)
    omega
  · have hmem : Between mult (min start stop) (max start stop) (f - mult) :=
      ⟨by omega, by omega, Int.dvd_sub h.floor.dvd (Int.dvd_refl mult)⟩
    refine iff_of_false (not_drawsMultiples_of_wrapped h.mult_pos h.mult_int ⟨by omega, by omega⟩
      ⟨by omega, by omega⟩ h.ceil.dvd h.floor.dvd hup hdown (by omega) hmem) ?_
    rintro (hnone | ⟨-, -, hnot⟩)
    · exact hnone _ hmem
    · have hloeq : min start stop = c := by omega
      have hhieq : max start stop = f := by omega
      exact hnot ⟨by omega, by rw [hloeq]; exact h.ceil.dvd, by rw [hhieq]; exact h.floor.dvd⟩

/-- The lower bound is a multiple, and the upper one ends above the range. -/
theorem not_drawsMultiples_of_above (h : Rounded start stop mult c f)
    (hlodvd : mult ∣ min start stop) (hup : bump 2147483648 (min start stop) mult = .ok c)
    (hneg : max start stop < 0) (hdown : reduce 2147483648 (max start stop) mult = .ok (f + mult)) :
    ¬ DrawsMultiples start stop mult := by
  obtain ⟨⟨hclo, hfhi, hflt⟩, hlow, hhigh, hmultlow, hmulthigh⟩ := h.bounds
  have hwidth := h.width
  have hcle := h.ceil.le_of_dvd hlodvd (Int.le_refl _)
  have hlef := h.floor.le_of_dvd hlodvd h.ordered
  have hzero := h.floor_add_le_zero hneg
  have hupdvd : mult ∣ f + mult := Int.dvd_add h.floor.dvd (Int.dvd_refl mult)
  rcases Int.lt_or_le (f + mult - c) 2147483648 with hfit | hfit
  · rw [drawsMultiples_of_le h.mult_pos ⟨by omega, by omega⟩ ⟨by omega, by omega⟩ h.ceil.dvd
      hupdvd hup hdown (by omega) (by omega)]
    intro hiff
    have habove := ((hiff (f + mult)).mp ⟨by omega, Int.le_refl _, hupdvd⟩).2.1
    omega
  · refine not_drawsMultiples_of_wrapped h.mult_pos h.mult_int ⟨by omega, by omega⟩
      ⟨by omega, by omega⟩ h.ceil.dvd hupdvd hup hdown (by omega) ⟨by omega, by omega, ?_⟩
    rw [Int.add_sub_cancel]
    exact h.floor.dvd

/-- Where a multiple is in the range, a bound that is moved too far does not round well. -/
theorem not_roundsWell (h : Rounded start stop mult c f) (hle : c ≤ f)
    (hbad : (min start stop < 0 ∧ ¬ mult ∣ min start stop) ∨
      (max start stop < 0 ∧ ¬ mult ∣ max start stop)) : ¬ RoundsWell start stop mult := by
  rintro (hnone | ⟨hlofine, hhifine, -⟩)
  · exact hnone c (h.ceil_mem hle)
  · rcases hbad with ⟨hneg, hdvd⟩ | ⟨hneg, hdvd⟩
    · exact hlofine.elim (by omega) hdvd
    · exact hhifine.elim (by omega) hdvd

end Rounded

/-- **Where `random_range` draws the multiples of its range.** Where nothing overflows, the values
drawn over all random numbers are the multiples between the bounds, and an error is reported just
when there are none, if and only if the bounds round well. -/
theorem drawsMultiples_iff (h : NoOverflow start stop mult) :
    DrawsMultiples start stop mult ↔ RoundsWell start stop mult := by
  have hpos : 0 < mult := Int.lt_of_lt_of_le Int.one_pos h.mult_pos
  obtain ⟨c, hceil, hupc⟩ := bump_cases hpos (inType_of_inInt32 h.bounds_int.1) h.lowest_inType
  obtain ⟨f, hfloor, hdownf⟩ := reduce_cases hpos (inType_of_inInt32 h.bounds_int.2)
  have hr := h.rounded hceil hfloor
  obtain ⟨⟨hclo, hfhi, hflt⟩, hlow, hhigh, hmultlow, hmulthigh⟩ := hr.bounds
  have hwidth := hr.width
  rcases hupc with ⟨hlofine, hup⟩ | ⟨hlobad, hup⟩ <;>
    rcases hdownf with ⟨hhifine, hdown⟩ | ⟨hhibad, hdown⟩
  · exact hr.drawsMultiples_iff_of_next hlofine hup hhifine hdown
  · -- the lower bound is negative too, and so it is a multiple
    have hneg : min start stop < 0 := Int.lt_of_le_of_lt hr.ordered hhibad.1
    have hlodvd : mult ∣ min start stop := hlofine.resolve_left (by omega)
    have hcf : c ≤ f := by
      have hcle := hceil.le_of_dvd hlodvd (Int.le_refl _)
      have hlef := hfloor.le_of_dvd hlodvd hr.ordered
      omega
    exact iff_of_false (hr.not_drawsMultiples_of_above hlodvd hup hhibad.1 hdown)
      (hr.not_roundsWell hcf (.inr hhibad))
  · -- the lower bound ends beyond the next multiple, which lies in the range
    have hcf : c ≤ f := hfloor.le_of_dvd hceil.dvd <| by
      rcases hhifine with hhi | hhi
      · have hczero := hceil.le_of_dvd (Int.dvd_zero mult) (Int.le_of_lt hlobad.1)
        omega
      · exact hceil.le_of_dvd hhi hr.ordered
    exact iff_of_false (not_drawsMultiples_of_beyond h.mult_pos ⟨by omega, by omega⟩
      ⟨by omega, by omega⟩ hfloor.dvd hup hdown (by omega) (hr.ceil_mem hcf))
      (hr.not_roundsWell hcf (.inl hlobad))
  · -- both bounds are moved one multiple too far
    rcases Int.lt_or_le f c with hgt | hcf
    · rw [drawsMultiples_of_gt h.mult_pos hup hdown (by omega)]
      exact iff_of_true (hr.not_between hgt) (.inl (hr.not_between hgt))
    have hzero := hr.floor_add_le_zero hhibad.1
    exact iff_of_false (not_drawsMultiples_of_beyond h.mult_pos ⟨by omega, by omega⟩
      ⟨by omega, by omega⟩ (Int.dvd_add hfloor.dvd (Int.dvd_refl mult)) hup hdown (by omega)
      (hr.ceil_mem hcf)) (hr.not_roundsWell hcf (.inl hlobad))

end Whole

theorem drawsMultiples_two_nine : DrawsMultiples 2 9 3 :=
  (drawsMultiples_iff ⟨by decide, by decide, by decide, by decide, by decide, by decide⟩).mpr
    (.inr ⟨.inl (by decide), .inl (by decide), fun h => absurd h.1 (by decide)⟩)

/-- Of -3, -2 and -1 only -3 is a multiple of 3, but 0 can be drawn. -/
theorem not_drawsMultiples_negative : NoOverflow (-3) (-1) 3 ∧ ¬ DrawsMultiples (-3) (-1) 3 := by
  refine ⟨⟨by decide, by decide, by decide, by decide, by decide, by decide⟩, fun h => ?_⟩
  have hdrawn := (h.drawn_iff 0).mp ⟨1, ⟨by decide, by decide⟩, rfl⟩
  exact absurd hdrawn.2.1 (by decide)

end RandomRange

end SnowballLtp
