import SnowballLtp.Machine.Halving
import SnowballLtp.Ltp.RandomLong

/-!
# The divider

`divider` is to return a random number between two bounds. It halves the range by the bits of one
number of 31 bits, until a half has no more bits than the number, and adds the whole number to where
the half begins. A half may have half as many places as the number has values, so the sum can lie
behind the upper bound; and a range of 63 bits takes 31 halvings, of which the last looks at the bit
`1<<31`, which an `int` does not have.

## Main definitions

* `dividing`: the divider with the shifts that it evaluates.
* `StaysBetween`, `OffsetFits`.

## Main results

* `dividing_value`: it is the divider.
* `dividing_spec`: the value and the shifts, by the bits of the number.
* `staysBetween_iff`: when the divider keeps to its bounds.
* `twoGig_not_staysBetween`.
-/

namespace SnowballLtp

namespace RandomRange

/-- What a call of the divider does: the value that it returns, whether that is the value against
run away code, and the numbers that 1 is shifted by. -/
structure Divided where
  value : ℤ
  guarded : Bool := false
  shifts : List ℕ := []

/-- `divider`, and what it does on its way. -/
def dividing (lrand48 : ℕ → ℤ) (min max : ℤ) (cnt : ℕ) (rand : ℤ) : Divided :=
  if 32 < cnt then { value := -1, guarded := true }
  else
    let rand := if cnt = 0 ∨ rand < -1 then lrand48 cnt else rand
    let diff := int64 (max - min)
    if diff ≤ 2147483647 then { value := int64 (min + rand) }
    else
      let half := diff.tdiv 2
      let med := int64 (min + half)
      if half ≤ 2147483647 then
        { value := if bitOfRand rand cnt then int64 (med + rand) else int64 (min + rand)
          shifts := [cnt] }
      else
        let divided :=
          if bitOfRand rand cnt then dividing lrand48 med max (cnt + 1) rand
          else dividing lrand48 min med (cnt + 1) rand
        { divided with shifts := cnt :: divided.shifts }
termination_by 33 - cnt

/-- The value is the one of the divider. -/
theorem dividing_value (lrand48 : ℕ → ℤ) (min max : ℤ) (cnt : ℕ) (rand : ℤ) :
    (dividing lrand48 min max cnt rand).value = divider lrand48 min max cnt rand := by
  obtain ⟨k, hk⟩ : ∃ k, 33 ≤ cnt + k := ⟨33, Nat.le_add_left 33 cnt⟩
  induction k generalizing min max cnt rand with
  | zero =>
    have hcnt : 32 < cnt := hk
    rw [dividing, divider, if_pos hcnt, if_pos hcnt]
  | succ k ih =>
    rw [dividing, divider]
    dsimp only
    generalize (if cnt = 0 ∨ rand < -1 then lrand48 cnt else rand) = r
    have hnext : 33 ≤ cnt + 1 + k := by omega
    split_ifs
    · rfl
    · rfl
    · rfl
    · rfl
    · exact ih _ _ _ _ hnext
    · exact ih _ _ _ _ hnext

/-! ### The bits of the number -/

/-- A shift that does not reach the sign. -/
theorem ofInt_shift {cnt : ℕ} (h : cnt < 31) :
    BitVec.ofInt 64 (int32 (2 ^ cnt)) = BitVec.twoPow 64 cnt := by
  have hpow : (2 : ℤ) ^ cnt = (2 ^ cnt : ℕ) := by simp
  have hle : 2 ^ cnt ≤ 2 ^ 30 := Nat.pow_le_pow_right (by decide) (by omega)
  have hint : InInt32 (2 ^ cnt : ℕ) := by
    generalize 2 ^ cnt = p at hle
    exact ⟨by omega, by omega⟩
  rw [hpow, int32_eq_self hint, BitVec.ofInt_natCast]
  exact (BitVec.eq_of_toNat_eq (by simp)).symm

theorem bitOfRand_iff_of_lt (r : ℕ) {cnt : ℕ} (h : cnt < 31) :
    bitOfRand r cnt ↔ r.testBit cnt = true := by
  have hwidth : cnt < 64 := by omega
  have hbit : (BitVec.ofNat 64 r).getLsbD cnt = r.testBit cnt := by
    rw [BitVec.getLsbD_ofNat, decide_eq_true hwidth, Bool.true_and]
  have hne : BitVec.twoPow 64 cnt ≠ 0#64 := by
    intro hzero
    have hself : (BitVec.twoPow 64 cnt).getLsbD cnt = true := by simp [hwidth]
    rw [hzero, BitVec.getLsbD_zero] at hself
    cases hself
  rw [bitOfRand, ofInt_shift h, BitVec.ofInt_natCast, BitVec.and_twoPow, hbit]
  cases r.testBit cnt with
  | false => simp
  | true => simpa using hne

/-- The sign of the `int` is copied into the upper half, where the number has no bits. -/
theorem not_bitOfRand_sign {r : ℕ} (hr : r < 2147483648) : ¬bitOfRand r 31 := by
  have hand : r &&& 18446744071562067968 = 0 := by
    have hmod : (r &&& 18446744071562067968) % 2 ^ 31 = 0 := by
      rw [Nat.and_mod_two_pow]
      exact Nat.and_zero _
    have hlt : r &&& 18446744071562067968 < 2 ^ 31 := Nat.lt_of_le_of_lt Nat.and_le_left hr
    rwa [Nat.mod_eq_of_lt hlt] at hmod
  have hmod : r % 18446744073709551616 = r := Nat.mod_eq_of_lt (by omega)
  have hzero : BitVec.ofInt 64 (r : ℤ) &&& BitVec.ofInt 64 (int32 (2 ^ 31)) = 0#64 := by
    refine BitVec.eq_of_toNat_eq ?_
    rw [BitVec.ofInt_natCast, BitVec.toNat_and, BitVec.toNat_ofNat, hmod]
    exact hand
  rw [bitOfRand, hzero]
  simp

/-- The bit with a number that an `int` has no positive value for is not set. -/
theorem bitOfRand_iff {r cnt : ℕ} (hr : r < 2147483648) (hcnt : cnt ≤ 32) :
    bitOfRand r cnt ↔ r.testBit cnt = true := by
  by_cases hlow : cnt < 31
  · exact bitOfRand_iff_of_lt r hlow
  · have hbit : r.testBit cnt = false :=
      Nat.testBit_lt_two_pow (Nat.lt_of_lt_of_le hr
        (Nat.pow_le_pow_right (show 0 < 2 by decide) (show 31 ≤ cnt by omega)))
    rw [hbit]
    refine iff_of_false ?_ Bool.false_ne_true
    obtain rfl | rfl : cnt = 31 ∨ cnt = 32 := by omega
    · exact not_bitOfRand_sign hr
    · rw [bitOfRand]
      simp [int32]

/-! ### The divider by the bits of the number -/

/-- From the bit `cnt` up to the bit `n` all are set. -/
def AllSet (r cnt n : ℕ) : Prop := ∀ i, cnt ≤ i → i ≤ n → r.testBit i = true

/-- What a call of the divider does over a wide range from `lo` to `hi`, which the bits of `r` have
made of a range of the width `d` in `cnt` halvings. With the `n`-th halving the width has 32
bits. -/
structure DividesAt (d r cnt : ℕ) (lo hi : ℤ) (divided : Divided) (n : ℕ) (b : ℤ) : Prop where
  le : cnt ≤ n
  le_bound : n ≤ 32
  wide : ∀ m, cnt ≤ m → m < n → 4294967296 ≤ halved d r m
  narrow : halved d r n < 4294967296
  value : divided.value = int64 (b + r)
  guarded : divided.guarded = false
  mem_shifts : ∀ m, m ∈ divided.shifts ↔ cnt ≤ m ∧ m ≤ n
  low : lo ≤ b
  high : b ≤ hi
  of_allSet : AllSet r cnt n → b + halved d r (n + 1) = hi
  of_not_allSet : ¬AllSet r cnt n → b + r ≤ hi

theorem allSet_succ_iff {r cnt n : ℕ} (hbit : r.testBit cnt = true) :
    AllSet r cnt n ↔ AllSet r (cnt + 1) n := by
  constructor
  · exact fun hall i hlow hhigh => hall i (by omega) hhigh
  · intro hall i hlow hhigh
    obtain rfl | hlt := Nat.eq_or_lt_of_le hlow
    · exact hbit
    · exact hall i hlt hhigh

section Dividing

variable {lrand48 : ℕ → ℤ} {d r cnt n : ℕ} {lo hi rand : ℤ}

/-- One call, in which nothing wraps. -/
theorem dividing_eq (hr : r < 2147483648) (hcnt : cnt ≤ 32)
    (hrand : (if cnt = 0 ∨ rand < -1 then lrand48 cnt else rand) = r) (hlo : 0 ≤ lo)
    (hhi : hi < 9223372036854775808) (hwide : 2147483648 ≤ hi - lo) :
    dividing lrand48 lo hi cnt rand =
      if (hi - lo) / 2 ≤ 2147483647 then
        { value := int64 ((if r.testBit cnt then lo + (hi - lo) / 2 else lo) + r)
          shifts := [cnt] }
      else
        let divided :=
          if r.testBit cnt then dividing lrand48 (lo + (hi - lo) / 2) hi (cnt + 1) r
          else dividing lrand48 lo (lo + (hi - lo) / 2) (cnt + 1) r
        { divided with shifts := cnt :: divided.shifts } := by
  have hwidth : int64 (hi - lo) = hi - lo := by
    rw [int64_eq_wrap, wrap_eq_self ⟨by omega, by omega⟩]
  have hmed : int64 (lo + (hi - lo) / 2) = lo + (hi - lo) / 2 := by
    rw [int64_eq_wrap, wrap_eq_self ⟨by omega, by omega⟩]
  rw [dividing, if_neg (by omega)]
  simp only [hrand, hwidth, Int.tdiv_eq_ediv_of_nonneg (show 0 ≤ hi - lo by omega), hmed,
    bitOfRand_iff hr hcnt]
  rw [if_neg (by omega)]
  by_cases hbit : r.testBit cnt = true
  · simp only [if_pos hbit]
  · simp only [if_neg hbit]

/-- The call that makes the last halving. -/
theorem dividesAt_of_narrow (hr : r < 2147483648) (hcnt : cnt ≤ 32)
    (hrand : (if cnt = 0 ∨ rand < -1 then lrand48 cnt else rand) = r) (hlo : 0 ≤ lo)
    (hhi : hi < 9223372036854775808) (hdiff : hi - lo = halved d r cnt)
    (hwide : 2147483648 ≤ halved d r cnt) (hnarrow : halved d r cnt < 4294967296) :
    DividesAt d r cnt lo hi (dividing lrand48 lo hi cnt rand) cnt
      (if r.testBit cnt then lo + (hi - lo) / 2 else lo) := by
  rw [dividing_eq hr hcnt hrand hlo hhi (by omega), if_pos (by omega)]
  refine ⟨Nat.le_refl cnt, hcnt, fun m hlow hhigh => by omega, hnarrow, rfl, rfl, fun m => ?_,
    ?_, ?_, fun hall => ?_, fun hnot => ?_⟩
  · rw [List.mem_singleton]
    omega
  · split_ifs
    all_goals omega
  · split_ifs
    all_goals omega
  · have hbit : r.testBit cnt = true := hall cnt (Nat.le_refl cnt) (Nat.le_refl cnt)
    rw [if_pos hbit, halved_succ_of_testBit hbit]
    omega
  · have hbit : ¬r.testBit cnt = true := fun hbit => hnot fun i hlow hhigh => by
      rwa [show i = cnt by omega]
    rw [if_neg hbit]
    omega

theorem DividesAt.wide_from {divided : Divided} {b : ℤ} (hwide : 4294967296 ≤ halved d r cnt)
    (h : DividesAt d r (cnt + 1) lo hi divided n b) (m : ℕ) (hlow : cnt ≤ m) (hhigh : m < n) :
    4294967296 ≤ halved d r m := by
  obtain rfl | hlt := Nat.eq_or_lt_of_le hlow
  · exact hwide
  · exact h.wide m hlt hhigh

theorem DividesAt.mem_cons_shifts {divided : Divided} {b : ℤ}
    (h : DividesAt d r (cnt + 1) lo hi divided n b) (m : ℕ) :
    m ∈ cnt :: divided.shifts ↔ cnt ≤ m ∧ m ≤ n := by
  have hle := h.le
  rw [List.mem_cons, h.mem_shifts]
  omega

/-- A halving that goes on with the upper half. -/
theorem DividesAt.upper {med b : ℤ} {divided : Divided} (hbit : r.testBit cnt = true)
    (hwide : 4294967296 ≤ halved d r cnt) (hmed : lo ≤ med)
    (h : DividesAt d r (cnt + 1) med hi divided n b) :
    DividesAt d r cnt lo hi { divided with shifts := cnt :: divided.shifts } n b where
  le := Nat.le_of_succ_le h.le
  le_bound := h.le_bound
  wide := h.wide_from hwide
  narrow := h.narrow
  value := h.value
  guarded := h.guarded
  mem_shifts := h.mem_cons_shifts
  low := Int.le_trans hmed h.low
  high := h.high
  of_allSet hall := h.of_allSet ((allSet_succ_iff hbit).mp hall)
  of_not_allSet hnot := h.of_not_allSet fun hall => hnot ((allSet_succ_iff hbit).mpr hall)

/-- A halving that goes on with the lower half. Behind it there is room for the whole number. -/
theorem DividesAt.lower {med b : ℤ} {divided : Divided} (hr : r < 2147483648)
    (hbit : ¬r.testBit cnt = true) (hwide : 4294967296 ≤ halved d r cnt)
    (hmed : med + 2147483648 ≤ hi) (h : DividesAt d r (cnt + 1) lo med divided n b) :
    DividesAt d r cnt lo hi { divided with shifts := cnt :: divided.shifts } n b where
  le := Nat.le_of_succ_le h.le
  le_bound := h.le_bound
  wide := h.wide_from hwide
  narrow := h.narrow
  value := h.value
  guarded := h.guarded
  mem_shifts := h.mem_cons_shifts
  low := h.low
  high := by
    have hhigh := h.high
    omega
  of_allSet hall := absurd (hall cnt (Nat.le_refl cnt) (Nat.le_of_succ_le h.le)) hbit
  of_not_allSet _ := by
    have hhigh := h.high
    omega

/-- **The divider** over a wide range. -/
theorem dividing_spec (hr : r < 2147483648) (hd : d < 9223372036854775808) (hcnt : cnt ≤ 32)
    (hrand : (if cnt = 0 ∨ rand < -1 then lrand48 cnt else rand) = r) (hlo : 0 ≤ lo)
    (hhi : hi < 9223372036854775808) (hdiff : hi - lo = halved d r cnt)
    (hwide : 2147483648 ≤ halved d r cnt) :
    ∃ n b, DividesAt d r cnt lo hi (dividing lrand48 lo hi cnt rand) n b := by
  obtain ⟨k, hk⟩ : ∃ k, cnt + k = 32 := Nat.le.dest hcnt
  induction k generalizing lo hi cnt rand with
  | zero =>
    obtain rfl : cnt = 32 := hk
    have hnarrow : halved d r 32 < 4294967296 := by
      rw [halved]
      omega
    exact ⟨_, _, dividesAt_of_narrow hr hcnt hrand hlo hhi hdiff hwide hnarrow⟩
  | succ k ih =>
    by_cases hnarrow : halved d r cnt < 4294967296
    · exact ⟨_, _, dividesAt_of_narrow hr hcnt hrand hlo hhi hdiff hwide hnarrow⟩
    have hnext : (if cnt + 1 = 0 ∨ (r : ℤ) < -1 then lrand48 (cnt + 1) else r) = (r : ℤ) :=
      if_neg (by omega)
    rw [dividing_eq hr hcnt hrand hlo hhi (by omega), if_neg (by omega)]
    dsimp only
    by_cases hbit : r.testBit cnt = true
    · have hsucc := halved_succ_of_testBit (d := d) hbit
      rw [if_pos hbit]
      obtain ⟨n, b, hrest⟩ := @ih (cnt + 1) (lo + (hi - lo) / 2) hi r (by omega) hnext (by omega)
        hhi (by omega) (by omega) (by omega)
      exact ⟨n, b, hrest.upper hbit (by omega) (by omega)⟩
    · have hsucc := halved_succ_of_not_testBit (d := d) hbit
      rw [if_neg hbit]
      obtain ⟨n, b, hrest⟩ := @ih (cnt + 1) lo (lo + (hi - lo) / 2) r (by omega) hnext hlo
        (by omega) (by omega) (by omega) (by omega)
      exact ⟨n, b, hrest.lower hr hbit (by omega) (by omega)⟩

end Dividing

/-! ### When the divider keeps to its bounds -/

/-- The call `divider(min, max, 0, -1)` gives a value between the bounds, not the one against run
away code, and does not shift into or beyond the sign. -/
structure StaysBetween (lrand48 : ℕ → ℤ) (min max : ℤ) : Prop where
  min_le : min ≤ divider lrand48 min max 0 (-1)
  le_max : divider lrand48 min max 0 (-1) ≤ max
  not_guarded : (dividing lrand48 min max 0 (-1)).guarded = false
  shifts_lt : ∀ cnt ∈ (dividing lrand48 min max 0 (-1)).shifts, cnt < 31

/-- The number `r` is no more than the width `d` where that has 31 bits. Where it has more, it has
32 after at most 30 halvings, and if all the bits that are looked at are set, the number is no more
than the upper half of what is left. -/
def OffsetFits (d r : ℕ) : Prop :=
  if d < 2147483648 then r ≤ d
  else ∃ n < 31, Depth 4294967296 d r n ∧
    ((∀ i ≤ n, r.testBit i = true) → r ≤ halved d r (n + 1))

/-- The value that is kept of a sum lies in the range just when the sum does. -/
theorem int64_between_iff {lo hi b : ℤ} {r : ℕ} (hr : r < 2147483648) (hlo : 0 ≤ lo)
    (hhi : hi < 9223372036854775808) (hlow : lo ≤ b) (hhigh : b ≤ hi) :
    lo ≤ int64 (b + r) ∧ int64 (b + r) ≤ hi ↔ b + r ≤ hi := by
  rw [int64]
  omega

section Bounds

variable {lrand48 : ℕ → ℤ} {lo hi b : ℤ} {d r n : ℕ}

/-- The number fits behind the place that it is added to. -/
theorem DividesAt.le_iff {divided : Divided} (h : DividesAt d r 0 lo hi divided n b) :
    b + r ≤ hi ↔ ((∀ i ≤ n, r.testBit i = true) → r ≤ halved d r (n + 1)) := by
  by_cases hall : AllSet r 0 n
  · have hend := h.of_allSet hall
    have hbits : ∀ i ≤ n, r.testBit i = true := fun i hi => hall i (Nat.zero_le i) hi
    constructor
    · intro hfits _
      omega
    · intro hfits
      have hle := hfits hbits
      omega
  · refine iff_of_true (h.of_not_allSet hall) fun hbits => ?_
    exact absurd (fun i _ hi => hbits i hi) hall

/-- The depth of a run is the number of halvings. -/
theorem DividesAt.depth {divided : Divided} (h : DividesAt d r 0 lo hi divided n b) :
    Depth 4294967296 d r n where
  le m hm := h.wide m (Nat.zero_le m) hm
  lt := h.narrow

theorem staysBetween_of_narrow (hr : r < 2147483648) (hrand : lrand48 0 = r) (hlo : 0 ≤ lo)
    (hle : lo ≤ hi) (hhi : hi < 9223372036854775808) (hdiff : hi - lo ≤ 2147483647) :
    StaysBetween lrand48 lo hi ↔ lo + r ≤ hi := by
  have hwidth : int64 (hi - lo) = hi - lo := by
    rw [int64_eq_wrap, wrap_eq_self ⟨by omega, by omega⟩]
  have hcall : dividing lrand48 lo hi 0 (-1) = { value := int64 (lo + r) } := by
    rw [dividing, if_neg (by omega)]
    simp only [hwidth, hrand, true_or, if_true]
    rw [if_pos hdiff]
  have hvalue : divider lrand48 lo hi 0 (-1) = int64 (lo + r) := by
    rw [← dividing_value, hcall]
  have hiff := int64_between_iff hr hlo hhi (Int.le_refl lo) hle
  constructor
  · intro h
    have hlow := h.min_le
    have hhigh := h.le_max
    rw [hvalue] at hlow hhigh
    exact hiff.mp ⟨hlow, hhigh⟩
  · intro h
    obtain ⟨hlow, hhigh⟩ := hiff.mpr h
    refine ⟨hvalue ▸ hlow, hvalue ▸ hhigh, by rw [hcall], fun cnt hcnt => ?_⟩
    rw [hcall] at hcnt
    exact absurd hcnt List.not_mem_nil

theorem staysBetween_of_wide (hr : r < 2147483648) (hlo : 0 ≤ lo)
    (hhi : hi < 9223372036854775808)
    (h : DividesAt d r 0 lo hi (dividing lrand48 lo hi 0 (-1)) n b) :
    StaysBetween lrand48 lo hi ↔ b + r ≤ hi ∧ n < 31 := by
  have hvalue : divider lrand48 lo hi 0 (-1) = int64 (b + r) := by
    rw [← dividing_value, h.value]
  have hiff := int64_between_iff hr hlo hhi h.low h.high
  constructor
  · intro hstays
    have hlow := hstays.min_le
    have hhigh := hstays.le_max
    rw [hvalue] at hlow hhigh
    exact ⟨hiff.mp ⟨hlow, hhigh⟩,
      hstays.shifts_lt n ((h.mem_shifts n).mpr ⟨Nat.zero_le n, Nat.le_refl n⟩)⟩
  · rintro ⟨hfits, hn⟩
    obtain ⟨hlow, hhigh⟩ := hiff.mpr hfits
    refine ⟨hvalue ▸ hlow, hvalue ▸ hhigh, h.guarded, fun cnt hcnt => ?_⟩
    exact Nat.lt_of_le_of_lt ((h.mem_shifts cnt).mp hcnt).2 hn

end Bounds

/-- **The divider** keeps to its bounds if and only if its random number is no more than what is
left of the range behind the place that it is added to, and 30 halvings are enough. -/
theorem staysBetween_iff {lrand48 : ℕ → ℤ} {min max : ℤ} (hmin : 0 ≤ min) (hle : min ≤ max)
    (hmax : max < 9223372036854775808) (hrand : Lrand48 (lrand48 0)) :
    StaysBetween lrand48 min max ↔ OffsetFits (max - min).toNat (lrand48 0).toNat := by
  obtain ⟨r, hr⟩ := Int.eq_ofNat_of_zero_le hrand.1
  obtain ⟨d, hd⟩ := Int.eq_ofNat_of_zero_le (show 0 ≤ max - min by omega)
  have hr' : r < 2147483648 := by
    have hhigh := hrand.2
    omega
  rw [hd, hr, Int.toNat_natCast, Int.toNat_natCast, OffsetFits]
  by_cases hnarrow : d < 2147483648
  · rw [if_pos hnarrow, staysBetween_of_narrow hr' hr hmin hle hmax (by omega)]
    omega
  · obtain ⟨n, b, h⟩ := @dividing_spec lrand48 d r 0 min max (-1) hr' (by omega) (Nat.zero_le 32)
      (by rw [if_pos (.inl rfl), hr]) hmin hmax (by rw [hd, halved_zero])
      (by rw [halved_zero]; omega)
    rw [if_neg hnarrow, staysBetween_of_wide hr' hmin hmax h, h.le_iff]
    constructor
    · rintro ⟨hfits, hn⟩
      exact ⟨n, hn, h.depth, hfits⟩
    · rintro ⟨n', hn', hdepth, hfits⟩
      obtain rfl : n = n' := h.depth.unique hdepth
      exact ⟨hfits, hn'⟩

/-- A range of 33 bits, of which the number takes the upper half and then the lower one. -/
theorem staysBetween_wide : StaysBetween (fun _ => 5) 0 4294967296 := by
  refine (staysBetween_iff (by decide) (by decide) (by decide) ⟨by decide, by decide⟩).mpr ?_
  refine (if_neg (by decide)).mpr ⟨1, by decide, ⟨by decide, by decide⟩, fun hall => ?_⟩
  exact absurd (hall 1 (Nat.le_refl 1)) (by decide)

/-- A range of 2^31 + 1 numbers: the largest random number is added to its middle. -/
theorem twoGig_not_staysBetween : ¬StaysBetween (fun _ => 2147483647) 0 2147483648 := by
  intro h
  have hvalue : divider (fun _ => 2147483647) 0 2147483648 0 (-1) = 3221225471 := by
    rw [divider]
    rfl
  exact absurd (hvalue ▸ h.le_max) (by decide)

end RandomRange

end SnowballLtp
