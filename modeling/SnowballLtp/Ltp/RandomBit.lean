import SnowballLtp.Machine.Loop
import SnowballLtp.Machine.OneBit
import SnowballLtp.Ltp.RandomLong

/-!
# A random bit of a mask

`random_bit` counts the bits that are set in a mask, draws a number from 1 to their count, and
shifts the mask to the right until it has seen that many of them. The shift copies the sign, so a
negative mask never becomes zero; the loop ends because the number drawn is at most the count.

## Main definitions

* `randomBit`.
* `bitsBelow`: how many bits are set below a position.

## Main results

* `shiftLoop_spec`: the loop stops at the bit with the number that was drawn.
* `randomBit_spec`.
-/

namespace SnowballLtp

namespace RandomRange

/-! ### The function -/

/-- The passes of the loop that counts the bits, from the one on in which `bit` has been shifted so
far. -/
def countBits (mask : BitVec 64) : ℕ → BitVec 64 → ℤ → ℤ
  | 0, _, nbits => nbits
  | passes + 1, bit, nbits =>
    countBits mask passes (bit <<< 1) (if mask &&& bit ≠ 0 then nbits + 1 else nbits)

/-- The variables of the second loop. -/
structure ShiftState where
  mask : BitVec 64
  bit : ℤ
  nshift : ℕ

/-- A pass of the second loop. -/
def shiftStep (s : ShiftState) : ShiftState ⊕ BitVec 64 :=
  if s.bit ≠ 0 then
    .inl
      { mask := s.mask.sshiftRight 1
        bit := if s.mask &&& 1#64 ≠ 0 then s.bit - 1 else s.bit
        nshift := s.nshift + 1 }
  else .inr (1#64 <<< (s.nshift - 1))

/-- `random_bit`, for the value that `lrand48` has. -/
def randomBit (fuel : ℕ) (lrand48 : ℤ) (mask : BitVec 64) :
    Option (Except Fault (BitVec 64)) :=
  if mask = 0 then some (.ok 0)
  else
    match randomRange lrand48 false 1 (countBits mask 64 1#64 0) 1 with
    | .ok drawn => (iterate shiftStep fuel { mask, bit := drawn.ret, nshift := 0 }).map .ok
    | .error fault => some (.error fault)

/-! ### Counting -/

section Counting

variable {mask : BitVec 64}

/-- How many bits are set below a position. -/
def bitsBelow (mask : BitVec 64) (k : ℕ) : ℕ := mask.cpopNatRec k 0

@[simp] theorem bitsBelow_zero (mask : BitVec 64) : bitsBelow mask 0 = 0 := rfl

theorem bitsBelow_succ (mask : BitVec 64) (k : ℕ) :
    bitsBelow mask (k + 1) = bitsBelow mask k + if mask.getLsbD k then 1 else 0 := by
  rw [bitsBelow, BitVec.cpopNatRec_succ, BitVec.cpopNatRec_add, bitsBelow]
  cases mask.getLsbD k with
  | false => rfl
  | true => rfl

theorem bitsBelow_mono (mask : BitVec 64) {j k : ℕ} (h : j ≤ k) :
    bitsBelow mask j ≤ bitsBelow mask k := by
  induction h with
  | refl => exact Nat.le_refl _
  | step _ ih => exact Nat.le_trans ih (bitsBelow_succ .. ▸ Nat.le_add_right _ _)

/-- Two bits with the same number are the same bit. -/
theorem bitsBelow_inj {i j : ℕ} (hi : mask.getLsbD i = true) (hj : mask.getLsbD j = true)
    (h : bitsBelow mask (i + 1) = bitsBelow mask (j + 1)) : i = j := by
  have hlt : ∀ {a b : ℕ}, mask.getLsbD b = true → a < b →
      bitsBelow mask (a + 1) < bitsBelow mask (b + 1) := fun {a b} hb hab => by
    rw [bitsBelow_succ mask b, if_pos hb]
    exact Nat.lt_succ_of_le (bitsBelow_mono mask hab)
  rcases Nat.lt_trichotomy i j with hij | rfl | hji
  · exact absurd h (Nat.ne_of_lt (hlt hj hij))
  · rfl
  · exact absurd h.symm (Nat.ne_of_lt (hlt hi hji))

theorem bitsBelow_le (mask : BitVec 64) (k : ℕ) : bitsBelow mask k ≤ k := by
  have h : mask.cpopNatRec k 0 ≤ 0 + k := BitVec.cpopNatRec_le k
  rwa [Nat.zero_add] at h

/-- A mask with a bit has a count. -/
theorem bitsBelow_pos {i k : ℕ} (hbit : mask.getLsbD i = true) (hi : i < k) :
    0 < bitsBelow mask k := by
  have hsucc : 0 < bitsBelow mask (i + 1) := by
    rw [bitsBelow_succ, if_pos hbit]
    exact Nat.succ_pos _
  exact Nat.lt_of_lt_of_le hsucc (bitsBelow_mono mask hi)

/-- The condition `mask & bit`, for the one after `k` shifts. -/
theorem and_shiftLeft_ne_zero_iff {k : ℕ} (hk : k < 64) :
    mask &&& 1#64 <<< k ≠ 0 ↔ mask.getLsbD k = true := by
  rw [← BitVec.twoPow_eq]
  exact and_twoPow_ne_zero_iff mask hk

/-- The first loop counts the bits. -/
theorem countBits_eq (mask : BitVec 64) {passes k : ℕ} (hk : k + passes = 64) (nbits : ℤ) :
    countBits mask passes (1#64 <<< k) nbits = nbits + bitsBelow mask 64 - bitsBelow mask k := by
  induction passes generalizing k nbits with
  | zero =>
    obtain rfl : k = 64 := hk
    rw [countBits]
    omega
  | succ passes ih =>
    rw [countBits, ← BitVec.shiftLeft_add, ih (by omega), bitsBelow_succ mask k]
    simp only [and_shiftLeft_ne_zero_iff (show k < 64 by omega)]
    split_ifs
    all_goals omega

/-- The number of bits, as the code counts them. -/
theorem countBits_all (mask : BitVec 64) : countBits mask 64 1#64 0 = bitsBelow mask 64 := by
  have h := countBits_eq mask (show 0 + 64 = 64 from rfl) 0
  rw [bitsBelow_zero] at h
  rw [show (1#64 : BitVec 64) = 1#64 <<< 0 by rfl, h]
  omega

end Counting

/-! ### Shifting -/

section Shifting

variable {mask : BitVec 64} {drawn : ℤ} {s : ShiftState}

/-- The states of the second loop: the bits that have been shifted out are not to be seen any
more. -/
structure Shifted (mask : BitVec 64) (drawn : ℤ) (s : ShiftState) : Prop where
  mask_eq : s.mask = mask.sshiftRight s.nshift
  bit_eq : s.bit = drawn - bitsBelow mask s.nshift
  bit_nonneg : 0 ≤ s.bit
  nshift_le : s.nshift ≤ 64
  last : s.bit = 0 → 0 < s.nshift ∧ mask.getLsbD (s.nshift - 1) = true

theorem Shifted.test (h : Shifted mask drawn s) (hlt : s.nshift < 64) :
    s.mask &&& 1#64 ≠ 0 ↔ mask.getLsbD s.nshift = true := by
  have hbit : s.mask.getLsbD 0 = mask.getLsbD s.nshift := by
    rw [h.mask_eq, BitVec.getLsbD_sshiftRight]
    simp [hlt]
  rw [← hbit]
  exact and_twoPow_ne_zero_iff s.mask (Nat.succ_pos 63)

/-- While there is a bit to be seen, the mask has it. -/
theorem Shifted.nshift_lt (h : Shifted mask drawn s) (hdrawn : drawn ≤ bitsBelow mask 64)
    (hbit : s.bit ≠ 0) : s.nshift < 64 := by
  obtain ⟨-, hbiteq, hnonneg, hle, -⟩ := h
  refine Nat.lt_of_le_of_ne hle fun heq => ?_
  rw [heq] at hbiteq
  omega

/-- A pass shifts out one bit. -/
theorem Shifted.next (h : Shifted mask drawn s) (hdrawn : drawn ≤ bitsBelow mask 64)
    (hbit : s.bit ≠ 0) : ∃ s', shiftStep s = .inl s' ∧ Shifted mask drawn s' ∧
      s'.nshift = s.nshift + 1 := by
  have hlt := h.nshift_lt hdrawn hbit
  refine ⟨_, if_pos hbit, ?_, rfl⟩
  have hnonneg := h.bit_nonneg
  have hbiteq := h.bit_eq
  refine ⟨?_, ?_, ?_, hlt, ?_⟩
  · simp only [h.mask_eq, BitVec.sshiftRight_add]
  · simp only [h.test hlt, bitsBelow_succ]
    split_ifs
    all_goals omega
  · simp only
    split_ifs
    all_goals omega
  · simp only [h.test hlt, Nat.add_sub_cancel]
    split_ifs with htest
    · exact fun _ => ⟨Nat.succ_pos _, htest⟩
    · exact fun hzero => absurd hzero hbit

/-- The bit that has the drawn number. -/
def Drew (mask : BitVec 64) (drawn : ℤ) (r : BitVec 64) : Prop :=
  ∃ i, i < 64 ∧ mask.getLsbD i = true ∧ (bitsBelow mask (i + 1) : ℤ) = drawn ∧
    r = BitVec.twoPow 64 i

/-- The loop leaves after the pass that has seen the bit. -/
theorem Shifted.drew (h : Shifted mask drawn s) (hbit : s.bit = 0) :
    ∃ r, shiftStep s = .inr r ∧ Drew mask drawn r := by
  obtain ⟨hshift, hlast⟩ := h.last hbit
  have hle := h.nshift_le
  have hbiteq := h.bit_eq
  refine ⟨_, if_neg (not_not_intro hbit), s.nshift - 1, by omega, hlast, ?_, ?_⟩
  · rw [Nat.sub_add_cancel hshift]
    omega
  · exact (BitVec.twoPow_eq 64 _).symm

/-- **The second loop** stops at the bit with the number that was drawn. -/
theorem shiftLoop_spec {fuel : ℕ} (hfuel : 64 < fuel) (hpos : 0 < drawn)
    (hdrawn : drawn ≤ bitsBelow mask 64) :
    ∃ r, iterate shiftStep fuel { mask, bit := drawn, nshift := 0 } = some r ∧
      Drew mask drawn r := by
  refine iterate_of_measure (Shifted mask drawn) (fun s => 64 - s.nshift) _ (fun s hs => ?_) ?_
    (show 64 - 0 < fuel from hfuel)
  · by_cases hbit : s.bit = 0
    · exact Or.inr (hs.drew hbit)
    · obtain ⟨s', hstep, hs', hshift⟩ := hs.next hdrawn hbit
      have hlt := hs.nshift_lt hdrawn hbit
      exact Or.inl ⟨s', hstep, hs', by omega⟩
  · refine ⟨by simp, by simp, Int.le_of_lt hpos, Nat.zero_le 64, fun hzero => ?_⟩
    simp only at hzero
    omega

end Shifting

/-! ### A draw -/

section Draw

variable {mask : BitVec 64} {l : ℤ} {fuel : ℕ}

/-- A draw from a mask with bits gives the bit that has the drawn number. -/
theorem randomBit_eq (hmask : mask ≠ 0) (hl : Lrand48 l) (hfuel : 64 < fuel) :
    ∃ i, i < 64 ∧ mask.getLsbD i = true ∧
      (bitsBelow mask (i + 1) : ℤ) = 1 + l % bitsBelow mask 64 ∧
      randomBit fuel l mask = some (.ok (BitVec.twoPow 64 i)) := by
  obtain ⟨k, hk, hkbit⟩ := exists_getLsbD hmask
  have hpos := bitsBelow_pos hkbit hk
  have hle := bitsBelow_le mask 64
  have hmod := Int.emod_nonneg l (show (bitsBelow mask 64 : ℤ) ≠ 0 by omega)
  have hlt := Int.emod_lt_of_pos l (show (0 : ℤ) < bitsBelow mask 64 by omega)
  have hdraw : randomRange l false 1 (bitsBelow mask 64) 1 =
      .ok { ret := 1 + l % bitsBelow mask 64, errp := none } := by
    rw [randomRange_one (by omega) (by omega) ⟨by omega, by omega⟩ ⟨by omega, by omega⟩,
      Int.tmod_eq_emod_of_nonneg hl.1]
    rw [Int.sub_add_cancel]
    rfl
  obtain ⟨-, hloop, i, hi, hbit, hcount, rfl⟩ := shiftLoop_spec hfuel
    (show 0 < 1 + l % (bitsBelow mask 64 : ℤ) by omega)
    (show 1 + l % (bitsBelow mask 64 : ℤ) ≤ bitsBelow mask 64 by omega)
  refine ⟨i, hi, hbit, hcount, ?_⟩
  rw [randomBit, if_neg hmask, countBits_all, hdraw]
  simp only
  rw [hloop, Option.map_some]

/-- **A bit is drawn from every mask that has one**, and each of its bits by some random number. -/
theorem randomBit_spec (hmask : mask ≠ 0) (hfuel : 64 < fuel) :
    (∀ l, Lrand48 l → ∃ r, randomBit fuel l mask = some (.ok r) ∧ IsBitOf r mask) ∧
      ∀ i, i < 64 → mask.getLsbD i = true →
        ∃ l, Lrand48 l ∧ randomBit fuel l mask = some (.ok (BitVec.twoPow 64 i)) := by
  constructor
  · intro l hl
    obtain ⟨i, hi, hbit, -, hrun⟩ := randomBit_eq hmask hl hfuel
    exact ⟨_, hrun, i, hi, hbit, rfl⟩
  · intro i hi hbit
    -- the random number is one below the count of the bit
    have hpos := bitsBelow_pos hbit (Nat.lt_add_one i)
    have hle := bitsBelow_le mask (i + 1)
    have hmono := bitsBelow_mono mask (show i + 1 ≤ 64 from hi)
    have hl : Lrand48 ((bitsBelow mask (i + 1) : ℤ) - 1) := ⟨by omega, by omega⟩
    obtain ⟨j, hj, hjbit, hcount, hrun⟩ := randomBit_eq hmask hl hfuel
    rw [Int.emod_eq_of_lt (by omega) (by omega)] at hcount
    obtain rfl : j = i := bitsBelow_inj hjbit hbit (by omega)
    exact ⟨_, hl, hrun⟩

/-- The sign bit is a bit like the others: the mask of the lowest bit and the sign. -/
theorem randomBit_spec_signed :
    (∀ l, Lrand48 l → ∃ r, randomBit 65 l 0x8000000000000001#64 = some (.ok r) ∧
      IsBitOf r 0x8000000000000001#64) ∧
      ∀ i, i < 64 → (0x8000000000000001#64).getLsbD i = true →
        ∃ l, Lrand48 l ∧ randomBit 65 l 0x8000000000000001#64 = some (.ok (BitVec.twoPow 64 i)) :=
  randomBit_spec (by decide) (by decide)

/-- A draw from any mask. -/
theorem exists_randomBit (mask : BitVec 64) (hl : Lrand48 l) (hfuel : 64 < fuel) :
    ∃ r, randomBit fuel l mask = some (.ok r) ∧ Picks r mask := by
  by_cases hmask : mask = 0
  · exact ⟨0, if_pos hmask, fun _ => rfl, fun hne => absurd hmask hne⟩
  · obtain ⟨i, hi, hbit, -, hrun⟩ := randomBit_eq hmask hl hfuel
    exact ⟨_, hrun, fun hzero => absurd hzero hmask, fun _ => ⟨i, hi, hbit, rfl⟩⟩

end Draw

end RandomRange

end SnowballLtp
