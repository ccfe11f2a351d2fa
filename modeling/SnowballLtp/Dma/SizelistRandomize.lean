import SnowballLtp.Dma.ParallelRun
import SnowballLtp.Machine.RoundUp

/-!
# Random sizes

`dmatest_sizelist_randomize` scales the values of `random32()` down to a range of sizes by two
divisions, `random32() / (0xFFFFFFFF / (max - min)) + min`, rounds them up to the alignment and
stops the kernel when one of them is above the rounded maximum. The inner division truncates, so
the largest random values may land above `max`: the largest quotient is
`0xFFFFFFFF / (0xFFFFFFFF / (max - min))`, which is `max - min` only when the remainder of the inner
division is small enough.

## Main definitions

* `Trap`, `alignU32`, `randomSize`, `dmatestSizelistRandomize`.
* `SizesInRange`, `sizeStep`.

## Main results

* `sizesInRange_iff`: when all sizes are in range.
* `sizelistRandomize_tcTestInit`: the range of `tc_test_init` is harmless.
-/

namespace SnowballLtp.Dma

/-- What stops the kernel. -/
inductive Trap where
  | divideError
  /-- `BUG_ON`. -/
  | bug
  deriving DecidableEq, Repr

/-- The operator `/` of the type `u32`. -/
def divU32 (x y : BitVec 32) : Except Trap (BitVec 32) :=
  if y = 0 then .error .divideError else .ok (x / y)

/-- The macro `ALIGN` for a value of the type `u32`. -/
def alignU32 (x : BitVec 32) (align : ℤ) : BitVec 32 := maskUp x (BitVec.ofInt 32 align - 1)

/-- One size before it is stored, `ALIGN(random32() / (0xFFFFFFFF / (max - min)) + min, align)`. -/
def randomSize (min max : BitVec 32) (align : ℤ) (random32 : BitVec 32) :
    Except Trap (BitVec 32) := do
  let step ← divU32 0xFFFFFFFF (max - min)
  let scaled ← divU32 random32 step
  pure (alignU32 (scaled + min) align)

/-- The loop of `dmatest_sizelist_randomize` with the given number of passes to go, from index `i`
on, and the terminator behind it. The stored size, an `int`, is compared as an `unsigned int`. -/
def randomizeFrom (min max : BitVec 32) (align : ℤ) (random32 : ℕ → BitVec 32) :
    ℕ → ℕ → Except Trap (List ℤ)
  | 0, _ => pure [-1]
  | n + 1, i => do
    let size ← randomSize min max align (random32 i)
    let cell := size.toInt
    if alignU32 max align < BitVec.ofInt 32 cell then .error .bug
    else
      let cells ← randomizeFrom min max align random32 n (i + 1)
      pure (cell :: cells)

/-- `dmatest_sizelist_randomize`: what it leaves in `list_size`. -/
def dmatestSizelistRandomize (listLen : ℕ) (min max : BitVec 32) (align : ℤ)
    (random32 : ℕ → BitVec 32) : Except Trap (List ℤ) :=
  randomizeFrom min max align random32 listLen 0

/-- The list is filled with sizes between `min` and the rounded `max`, and terminated. -/
def SizesInRange (listLen : ℕ) (min max : BitVec 32) (align : ℤ) (random32 : ℕ → BitVec 32) :
    Prop :=
  ∃ sizes, dmatestSizelistRandomize listLen min max align random32 = .ok (sizes ++ [-1]) ∧
    sizes.length = listLen ∧
    ∀ v ∈ sizes, (min.toNat : ℤ) ≤ v ∧ v ≤ (alignU32 max align).toNat

/-- The number of random values that are scaled to one size, `0xFFFFFFFF / (max - min)`. -/
def sizeStep (min max : BitVec 32) : ℕ := 4294967295 / (max.toNat - min.toNat)

/-- The random values whose size is not above the rounded `max`. -/
def RandomFits (min max : BitVec 32) (align : ℤ) (random32 : BitVec 32) : Prop :=
  random32.toNat < sizeStep min max * ((alignU32 max align).toNat - min.toNat + 1)

/-! ### One size -/

section

variable {min max : BitVec 32} {align : ℤ} {k : ℕ}

theorem toNat_alignU32 {x : BitVec 32} (hx : x.toNat + 2 ^ k ≤ 2 ^ 32) :
    (alignU32 x (2 ^ k)).toNat = roundUp x.toNat (2 ^ k) := by
  have hpos := Nat.two_pow_pos k
  have hk : k ≤ 32 := (Nat.pow_le_pow_iff_right Nat.one_lt_two).mp ((Nat.le_add_left _ _).trans hx)
  have hmask : BitVec.ofInt 32 (2 ^ k) - 1 = BitVec.ofNat 32 (2 ^ k - 1) := by
    rw [show (2 : ℤ) ^ k = ((2 ^ k : ℕ) : ℤ) by push_cast; rfl, BitVec.ofInt_natCast]
    exact (BitVec.ofNat_sub_ofNat_of_le (2 ^ k) 1 (by decide) hpos).trans rfl
  rw [alignU32, hmask, toNat_maskUp (by omega) hk]

theorem sizeStep_pos (hlt : min < max) : 0 < sizeStep min max := by
  have hlt' := BitVec.lt_def.mp hlt
  exact Nat.div_pos (by have := max.isLt; omega) (by omega)

/-- A range of at most `2 ^ 31 - 1` values leaves at least two random values for each. -/
theorem div_sizeStep_lt (hlt : min < max) (hmax : max.toNat < 2 ^ 31) (x : BitVec 32) :
    x.toNat / sizeStep min max < 2 ^ 31 := by
  have hlt' := BitVec.lt_def.mp hlt
  have hstep : 2 ≤ sizeStep min max := by
    rw [sizeStep, Nat.le_div_iff_mul_le (by omega)]
    omega
  calc x.toNat / sizeStep min max ≤ x.toNat / 2 := Nat.div_le_div_left hstep Nat.two_pos
    _ < 2 ^ 31 := by have := x.isLt; omega

/-- **One size.** Neither division is by zero, and nothing overflows. -/
theorem randomSize_eq (hlt : min < max) (hmax : max.toNat + 2 ^ k < 2 ^ 31) (x : BitVec 32) :
    ∃ v, randomSize min max (2 ^ k) x = .ok v ∧
      v.toNat = roundUp (x.toNat / sizeStep min max + min.toNat) (2 ^ k) := by
  have hlt' := BitVec.lt_def.mp hlt
  have hsub : (max - min).toNat = max.toNat - min.toNat := BitVec.toNat_sub_of_le hlt'.le
  have hne : max - min ≠ 0 := by
    intro h
    rw [h] at hsub
    exact absurd hsub.symm (Nat.sub_pos_of_lt hlt').ne'
  have hstep : ((0xFFFFFFFF : BitVec 32) / (max - min)).toNat = sizeStep min max := by
    rw [BitVec.toNat_udiv, hsub]
    rfl
  have hstep' : (0xFFFFFFFF : BitVec 32) / (max - min) ≠ 0 := by
    intro h
    rw [h] at hstep
    exact (sizeStep_pos hlt).ne hstep
  have hpos := Nat.two_pow_pos k
  have hquot := div_sizeStep_lt hlt (by omega) x
  refine ⟨_, by simp only [randomSize, divU32, if_neg hne, if_neg hstep', bind, Except.bind, pure,
    Except.pure]; rfl, ?_⟩
  have hsum : (x / (0xFFFFFFFF / (max - min)) + min).toNat =
      x.toNat / sizeStep min max + min.toNat := by
    rw [BitVec.toNat_add, BitVec.toNat_udiv, hstep]
    generalize x.toNat / sizeStep min max = q at hquot ⊢
    exact Nat.mod_eq_of_lt (by omega)
  rw [toNat_alignU32 _, hsum]
  rw [hsum]
  generalize x.toNat / sizeStep min max = q at hquot ⊢
  omega

/-- The test of `BUG_ON` tells whether the random value fits, and then the size is in range. -/
theorem randomSize_spec (hlt : min < max) (hmax : max.toNat + 2 ^ k < 2 ^ 31) (x : BitVec 32) :
    ∃ v, randomSize min max (2 ^ k) x = .ok v ∧
      (¬ alignU32 max (2 ^ k) < BitVec.ofInt 32 v.toInt ↔ RandomFits min max (2 ^ k) x) ∧
      (RandomFits min max (2 ^ k) x →
        (min.toNat : ℤ) ≤ v.toInt ∧ v.toInt ≤ (alignU32 max (2 ^ k)).toNat) := by
  have hlt' := BitVec.lt_def.mp hlt
  have hpos := Nat.two_pow_pos k
  obtain ⟨v, hv, hround⟩ := randomSize_eq hlt hmax x
  have hA : (alignU32 max (2 ^ k)).toNat = roundUp max.toNat (2 ^ k) := toNat_alignU32 (by omega)
  have hmaxA : max.toNat ≤ roundUp max.toNat (2 ^ k) := le_roundUp hpos
  have hAlt : roundUp max.toNat (2 ^ k) < max.toNat + 2 ^ k := roundUp_lt hpos
  have hfits : v.toNat ≤ (alignU32 max (2 ^ k)).toNat ↔ RandomFits min max (2 ^ k) x := by
    rw [RandomFits, Nat.mul_comm, ← Nat.div_lt_iff_lt_mul (sizeStep_pos hlt), hround, hA,
      roundUp_le_iff hpos dvd_roundUp]
    omega
  refine ⟨v, hv, ?_, fun h => ?_⟩
  · rw [BitVec.ofInt_toInt, BitVec.lt_def, Nat.not_lt, hfits]
  · have hle := hfits.mpr h
    have hmin : min.toNat ≤ v.toNat := by
      rw [hround]
      exact (Nat.le_add_left _ _).trans (le_roundUp hpos)
    rw [BitVec.toInt_eq_toNat_of_lt (by omega)]
    exact ⟨Int.ofNat_le.mpr hmin, Int.ofNat_le.mpr hle⟩

/-! ### The list -/

variable {random32 : ℕ → BitVec 32}

/-- Random values that fit fill the list. -/
theorem randomizeFrom_of_fits (hlt : min < max) (hmax : max.toNat + 2 ^ k < 2 ^ 31) {n i : ℕ}
    (h : ∀ j < n, RandomFits min max (2 ^ k) (random32 (i + j))) :
    ∃ sizes, randomizeFrom min max (2 ^ k) random32 n i = .ok (sizes ++ [-1]) ∧
      sizes.length = n ∧
      ∀ v ∈ sizes, (min.toNat : ℤ) ≤ v ∧ v ≤ (alignU32 max (2 ^ k)).toNat := by
  induction n generalizing i with
  | zero => exact ⟨[], rfl, rfl, by simp⟩
  | succ n ih =>
    obtain ⟨v, hv, hbug, hrange⟩ := randomSize_spec hlt hmax (random32 i)
    have hfits : RandomFits min max (2 ^ k) (random32 i) := h 0 n.succ_pos
    obtain ⟨sizes, hsizes, hlen, hmem⟩ := ih (i := i + 1) fun j hj => by
      simpa only [Nat.add_assoc, Nat.add_comm 1] using h (j + 1) (Nat.succ_lt_succ hj)
    refine ⟨v.toInt :: sizes, ?_, by rw [List.length_cons, hlen], ?_⟩
    · simp only [randomizeFrom, hv, hsizes, if_neg (hbug.mpr hfits), bind, Except.bind, pure,
        Except.pure, List.cons_append]
    · exact List.forall_mem_cons.mpr ⟨hrange hfits, hmem⟩

/-- A random value that does not fit stops the kernel. -/
theorem randomizeFrom_eq_bug (hlt : min < max) (hmax : max.toNat + 2 ^ k < 2 ^ 31) {n i j : ℕ}
    (hj : j < n) (h : ¬ RandomFits min max (2 ^ k) (random32 (i + j))) :
    randomizeFrom min max (2 ^ k) random32 n i = .error .bug := by
  induction n generalizing i j with
  | zero => omega
  | succ n ih =>
    obtain ⟨v, hv, hbug, -⟩ := randomSize_spec hlt hmax (random32 i)
    by_cases hfits : RandomFits min max (2 ^ k) (random32 i)
    · obtain ⟨j, rfl⟩ : ∃ j', j = j' + 1 :=
        Nat.exists_eq_succ_of_ne_zero fun hzero => h (by rwa [hzero])
      have hrest := ih (i := i + 1) (Nat.lt_of_succ_lt_succ hj) (by
        simpa only [Nat.add_assoc, Nat.add_comm 1] using h)
      simp only [randomizeFrom, hv, hrest, if_neg (hbug.mpr hfits), bind, Except.bind]
    · simp only [randomizeFrom, hv, if_pos (not_not.mp (mt hbug.mp hfits)), bind, Except.bind]

end

/-- **The sizes are in range** if and only if every random value fits; whatever they are, no
division is by zero. For every random value to fit it is enough that the largest one does. -/
theorem sizesInRange_iff (min max : BitVec 32) (align : ℤ) (listLen : ℕ) (hlt : min < max)
    (hpow : ∃ k : ℕ, align = 2 ^ k) (hmax : max.toNat + align < 2 ^ 31) :
    (∀ random32, (SizesInRange listLen min max align random32 ↔
        ∀ i < listLen, RandomFits min max align (random32 i)) ∧
      dmatestSizelistRandomize listLen min max align random32 ≠ .error .divideError) ∧
    ((∀ random32, SizesInRange listLen min max align random32) ↔
      listLen = 0 ∨ RandomFits min max align 0xFFFFFFFF) := by
  obtain ⟨k, rfl⟩ := hpow
  have hmax' : max.toNat + 2 ^ k < 2 ^ 31 := by exact_mod_cast hmax
  have hbug : ∀ {random32 : ℕ → BitVec 32} {i}, i < listLen →
      ¬ RandomFits min max (2 ^ k) (random32 i) →
      dmatestSizelistRandomize listLen min max (2 ^ k) random32 = .error .bug :=
    fun hi hfits => randomizeFrom_eq_bug hlt hmax' hi (by rwa [Nat.zero_add])
  have hiff : ∀ random32, SizesInRange listLen min max (2 ^ k) random32 ↔
      ∀ i < listLen, RandomFits min max (2 ^ k) (random32 i) := by
    intro random32
    constructor
    · rintro ⟨sizes, hok, -⟩ i hi
      by_contra hfits
      rw [hbug hi hfits] at hok
      cases hok
    · intro h
      exact randomizeFrom_of_fits hlt hmax' fun j hj => by simpa using h j hj
  refine ⟨fun random32 => ⟨hiff random32, fun herr => ?_⟩, ?_⟩
  · by_cases h : ∀ i < listLen, RandomFits min max (2 ^ k) (random32 i)
    · obtain ⟨sizes, hok, -⟩ := (hiff random32).mpr h
      rw [herr] at hok
      cases hok
    · push Not at h
      obtain ⟨i, hi, hfits⟩ := h
      rw [hbug hi hfits] at herr
      cases herr
  · simp only [hiff]
    constructor
    · intro h
      refine (Nat.eq_zero_or_pos listLen).imp_right fun hpos => ?_
      exact h (fun _ => 0xFFFFFFFF) 0 hpos
    · rintro (rfl | h) random32 i hi
      · omega
      · exact lt_of_le_of_lt (Nat.le_of_lt_succ (random32 i).isLt) h

/-- Sizes from 1 to 4 are in range even for the largest random values. -/
theorem sizesInRange_four : SizesInRange 2 1 4 1 fun _ => 0xFFFFFFFF := by
  have hfits : RandomFits 1 4 1 0xFFFFFFFF := by
    unfold RandomFits
    decide
  exact (sizesInRange_iff 1 4 1 2 (by decide) ⟨0, rfl⟩ (by decide)).2.mpr (Or.inr hfits) _

/-- Between 1 and 65537, the largest random value is scaled to 65538. -/
theorem not_sizesInRange_65537 : ¬ SizesInRange 1 1 65537 1 fun _ => 0xFFFFFFFF := by
  rintro ⟨sizes, h, -⟩
  have hbug : dmatestSizelistRandomize 1 1 65537 1 (fun _ => 0xFFFFFFFF) = .error .bug := rfl
  rw [hbug] at h
  cases h

/-! ### Which lists can be stored -/

/-- An empty range stops the kernel at the first size. -/
theorem sizelistRandomize_self (listLen : ℕ) (min : BitVec 32) (align : ℤ)
    (random32 : ℕ → BitVec 32) :
    dmatestSizelistRandomize (listLen + 1) min min align random32 = .error .divideError := by
  have hdiv : ∀ x, divU32 x (min - min) = .error .divideError := fun x => by
    rw [divU32, BitVec.sub_self]
    rfl
  simp only [dmatestSizelistRandomize, randomizeFrom, randomSize, hdiv, bind, Except.bind]

theorem alignU32_one (x : BitVec 32) : alignU32 x 1 = x := by
  have hmask : BitVec.ofInt 32 1 - 1 = 0#32 := rfl
  rw [alignU32, hmask, maskUp, BitVec.add_zero, BitVec.not_zero, BitVec.and_allOnes]

/-- Without alignment the value `max` is drawn from every other range, also when `max` is below
`min`: the difference wraps around. -/
theorem exists_randomSize_eq_max {min max : BitVec 32} (hne : min ≠ max) :
    ∃ x, randomSize min max 1 x = .ok max := by
  have hsub : max - min ≠ 0 := by
    intro h
    have hcancel := BitVec.sub_add_cancel max min
    rw [h] at hcancel
    exact hne ((BitVec.zero_add min).symm.trans hcancel)
  obtain ⟨step, hstep⟩ : ∃ step, step = (0xFFFFFFFF : BitVec 32) / (max - min) := ⟨_, rfl⟩
  have hpos : 0 < (max - min).toNat :=
    Nat.pos_of_ne_zero fun h => hsub (BitVec.eq_of_toNat_eq h)
  have hstepNat : step.toNat = 4294967295 / (max - min).toNat := by
    rw [hstep, BitVec.toNat_udiv]
    rfl
  have hstepPos : 0 < step.toNat := by
    rw [hstepNat]
    exact Nat.div_pos (Nat.le_of_lt_succ (max - min).isLt) hpos
  have hmul : (step * (max - min)).toNat = step.toNat * (max - min).toNat := by
    rw [BitVec.toNat_mul, hstepNat]
    exact Nat.mod_eq_of_lt (Nat.lt_succ_of_le (Nat.div_mul_le_self _ _))
  have hquot : step * (max - min) / step = max - min := by
    refine BitVec.eq_of_toNat_eq ?_
    rw [BitVec.toNat_udiv, hmul, Nat.mul_div_cancel_left _ hstepPos]
  have hstepNe : step ≠ 0 := fun h => hstepPos.ne' (congrArg BitVec.toNat h)
  refine ⟨step * (max - min), ?_⟩
  simp only [randomSize, divU32, if_neg hsub, ← hstep, if_neg hstepNe, hquot, bind, Except.bind,
    BitVec.sub_add_cancel, alignU32_one, pure, Except.pure]

/-- Some list of every length is stored, unless the range is empty. -/
theorem exists_sizelistRandomize {min max : BitVec 32} (hne : min ≠ max) (listLen : ℕ) :
    ∃ random32 sizes, sizes.length = listLen ∧
      dmatestSizelistRandomize listLen min max txAlign random32 = .ok (sizes ++ [-1]) := by
  obtain ⟨x, hx⟩ := exists_randomSize_eq_max hne
  have hloop : ∀ n i, randomizeFrom min max 1 (fun _ => x) n i =
      .ok (List.replicate n max.toInt ++ [-1]) := by
    intro n
    induction n with
    | zero => exact fun _ => rfl
    | succ n ih =>
      intro i
      simp only [randomizeFrom, hx, ih, alignU32_one, BitVec.ofInt_toInt, BitVec.lt_irrefl,
        ↓reduceIte, bind, Except.bind, pure, Except.pure, List.replicate_succ, List.cons_append]
  exact ⟨fun _ => x, _, List.length_replicate, hloop listLen 0⟩

/-! ### The range of the tests -/

/-- **The range of `tc_test_init`**, from 1 to 60 kB, is harmless: what is stored for a
configuration without a constant size is always such as the configuration asks for. -/
theorem sizesOk_of_randomize (tcp : TcParallel) (hsize : tcp.constSize = -1) {k : ℕ}
    (halign : tcp.txAlign = 2 ^ k) (hk : k ≤ 30) (random32 : ℕ → BitVec 32) :
    ∃ sizes, dmatestSizelistRandomize tcp.listLen 1 (60 * 1024) tcp.txAlign random32 =
      .ok (sizes ++ [-1]) ∧ tcp.SizesOk sizes := by
  have hpow : 2 ^ k ≤ 2 ^ 30 := Nat.pow_le_pow_right Nat.two_pos hk
  have hmax : (60 * 1024 : BitVec 32).toNat = 61440 := rfl
  have hA : 61440 ≤ (alignU32 (60 * 1024) (2 ^ k)).toNat := by
    rw [toNat_alignU32 (by omega), hmax]
    exact le_roundUp (Nat.two_pow_pos k)
  have hstep : sizeStep 1 (60 * 1024) = 69906 := rfl
  have hfits : ∀ x, RandomFits 1 (60 * 1024) (2 ^ k) x := by
    intro x
    rw [RandomFits, hstep, show (1 : BitVec 32).toNat = 1 from rfl]
    have := x.isLt
    omega
  obtain ⟨sizes, hok, hlen, hmem⟩ := randomizeFrom_of_fits (k := k) (n := tcp.listLen) (i := 0)
    (show (1 : BitVec 32) < 60 * 1024 by decide) (by omega) fun j _ => hfits (random32 (0 + j))
  rw [halign]
  exact ⟨sizes, hok, fun v hv => (hmem v hv).1, hlen, fun h => absurd hsize h⟩

end SnowballLtp.Dma
