import SnowballLtp.Dma.Buflist
import SnowballLtp.Machine.Loop

/-!
# Pausing and resuming a transfer

`tc_pause_and_unpause_parallel` pauses the transfer of one channel until it catches it with bytes
left, and then resumes and pauses it again and again, reading the residue each time. It means to
stop when two readings in a row agree, and to report an error when they agree on anything but zero.
The condition of its loop is `bytes_left != 0 || bytes_left_prev != bytes_left`: the loop goes on
until two readings in a row are zero, and the test behind it is never satisfied.

## Main definitions

* `PauseExit`, `pausePass`, `resumeAndPause`, `pauseUntilBusy`, `pauseTransfer`.
* `Reads`, `EventuallyConstant`, `DetectsStuck`.

## Main results

* `exists_resumeAndPause_iff`: the loop ends when two readings in a row are zero.
* `resumeAndPause_eq_wait`: it never reports an error.
* `detectsStuck_iff`: the readings on which it does what it is meant to do.
-/

namespace SnowballLtp.Dma

/-- How the code behind the loop goes on. -/
inductive PauseExit where
  /-- `tc[pause_id].err` is set to the given value, and the channels are freed. -/
  | out (err : ℤ)
  /-- The channels are waited for. -/
  | wait
  deriving DecidableEq, Repr

/-- The variables of the loop, and the number of the readings made in it. -/
structure PauseState where
  bytesLeftPrev : ℕ
  bytesLeft : ℕ
  nRead : ℕ

/-- One pass of the loop `do ... while (bytes_left != 0 || bytes_left_prev != bytes_left)`, which
reads the residue once. -/
def pausePass (residue : ℕ → ℕ) (s : PauseState) : PauseState ⊕ PauseState :=
  let s' : PauseState :=
    { bytesLeftPrev := s.bytesLeft, bytesLeft := residue s.nRead, nRead := s.nRead + 1 }
  if s'.bytesLeft ≠ 0 ∨ s'.bytesLeftPrev ≠ s'.bytesLeft then .inl s' else .inr s'

/-- The test behind the loop. -/
def pauseExit (s : PauseState) : PauseExit :=
  if s.bytesLeft ≠ 0 ∧ s.bytesLeftPrev = s.bytesLeft then .out (-einval) else .wait

/-- The loop and the test behind it, entered with `bytesLeft` bytes left. -/
def resumeAndPause (residue : ℕ → ℕ) (bytesLeft fuel : ℕ) : Option PauseExit :=
  (iterate (pausePass residue) fuel ⟨0, bytesLeft, 0⟩).map pauseExit

/-- The loop in front of it, with the given number of passes to go: the reading that finds bytes
left, from reading `i` on. -/
def pauseUntilBusy (residue : ℕ → ℕ) : ℕ → ℕ → Option ℕ
  | 0, _ => none
  | n + 1, i => if 0 < residue i then some i else pauseUntilBusy residue n (i + 1)

/-- Pausing and resuming the transfer, from the first pause to the label `wait` or `out`. -/
def pauseTransfer (residue : ℕ → ℕ) (fuel : ℕ) : Option PauseExit :=
  match pauseUntilBusy residue 1000 0 with
  | none => some .wait
  | some i => resumeAndPause (fun n => residue (i + 1 + n)) (residue i) fuel

/-- The loop makes reading `n`: it has not ended before. -/
def Reads (residue : ℕ → ℕ) (bytesLeft n : ℕ) : Prop :=
  iterate (pausePass residue) n ⟨0, bytesLeft, 0⟩ = none

/-- The readings do not change any more from some reading on. -/
def EventuallyConstant (residue : ℕ → ℕ) : Prop := ∃ N, ∀ n, N ≤ n → residue n = residue N

/-- What the loop is meant to do: to end, with an error when it makes two equal readings in a row
that are not zero, and without one when it reads zero. -/
structure DetectsStuck (residue : ℕ → ℕ) (bytesLeft : ℕ) : Prop where
  ends : ∃ fuel exit, resumeAndPause residue bytesLeft fuel = some exit
  stuck : ∀ n, Reads residue bytesLeft (n + 1) → residue n = residue (n + 1) → residue n ≠ 0 →
    ∃ fuel, resumeAndPause residue bytesLeft fuel = some (.out (-einval))
  done : ∀ n, Reads residue bytesLeft n → residue n = 0 →
    ∃ fuel, resumeAndPause residue bytesLeft fuel = some .wait

/-! ### When the loop ends -/

variable {residue : ℕ → ℕ} {bytesLeft : ℕ}

/-- The reading before reading `n`; the loop is entered with one. -/
def readingBefore (residue : ℕ → ℕ) (bytesLeft : ℕ) : ℕ → ℕ
  | 0 => bytesLeft
  | n + 1 => residue n

theorem pausePass_inl {s : PauseState} (h : ¬ (s.bytesLeft = 0 ∧ residue s.nRead = 0)) :
    pausePass residue s = .inl ⟨s.bytesLeft, residue s.nRead, s.nRead + 1⟩ :=
  if_pos (by simp only; omega)

theorem pausePass_inr {s : PauseState} (h : s.bytesLeft = 0 ∧ residue s.nRead = 0) :
    pausePass residue s = .inr ⟨s.bytesLeft, residue s.nRead, s.nRead + 1⟩ :=
  if_neg (by simp only; omega)

/-- Passes that do not leave the loop: none of them reads zero after zero. -/
private theorem iterate_pausePass_eq_none_iff {n k p : ℕ} :
    iterate (pausePass residue) n ⟨p, readingBefore residue bytesLeft k, k⟩ = none ↔
      ∀ m < n, ¬ (readingBefore residue bytesLeft (k + m) = 0 ∧ residue (k + m) = 0) := by
  induction n generalizing k p with
  | zero => simp [iterate]
  | succ n ih =>
    by_cases h : readingBefore residue bytesLeft k = 0 ∧ residue k = 0
    · rw [iterate_succ_inr (pausePass_inr h)]
      exact iff_of_false (by simp) fun hall => hall 0 n.succ_pos h
    · rw [iterate_succ_inl (pausePass_inl h)]
      refine (ih (k := k + 1)).trans ?_
      rw [Nat.forall_lt_succ_left]
      simp only [Nat.add_zero, h, not_false_eq_true, true_and, Nat.add_assoc, Nat.add_comm 1]

theorem reads_iff (hpos : 0 < bytesLeft) {n : ℕ} :
    Reads residue bytesLeft n ↔ ∀ m, m + 1 < n → ¬ (residue m = 0 ∧ residue (m + 1) = 0) := by
  refine (iterate_pausePass_eq_none_iff (k := 0)).trans ?_
  simp only [Nat.zero_add]
  constructor
  · exact fun h m hm => h (m + 1) hm
  · intro h m hm
    cases m with
    | zero => exact fun hz => Nat.ne_of_gt hpos hz.1
    | succ m => exact h m hm

/-- **The loop ends** if and only if two readings in a row are zero. -/
theorem exists_resumeAndPause_iff (hpos : 0 < bytesLeft) :
    (∃ fuel exit, resumeAndPause residue bytesLeft fuel = some exit) ↔
      ∃ n, residue n = 0 ∧ residue (n + 1) = 0 := by
  have hfuel : ∀ fuel, (∃ exit, resumeAndPause residue bytesLeft fuel = some exit) ↔
      ¬ Reads residue bytesLeft fuel := by
    intro fuel
    unfold resumeAndPause Reads
    cases iterate (pausePass residue) fuel ⟨0, bytesLeft, 0⟩ <;> simp
  simp only [hfuel, reads_iff hpos]
  constructor
  · rintro ⟨fuel, h⟩
    push Not at h
    obtain ⟨n, -, hzero⟩ := h
    exact ⟨n, hzero⟩
  · rintro ⟨n, hzero⟩
    exact ⟨n + 2, fun h => h n (by omega) hzero⟩

/-- **The error is never reported**: when the loop ends, no bytes are left. -/
theorem resumeAndPause_eq_wait {fuel : ℕ} {exit : PauseExit}
    (h : resumeAndPause residue bytesLeft fuel = some exit) : exit = .wait := by
  obtain ⟨s, hs, rfl⟩ := Option.map_eq_some_iff.mp h
  obtain ⟨s₀, hpass⟩ := exists_inr_of_iterate hs
  simp only [pausePass] at hpass
  split_ifs at hpass with hcond
  obtain rfl := Sum.inr.inj hpass
  push Not at hcond
  exact if_neg fun hstuck => hstuck.1 hcond.1

/-! ### The whole of it -/

/-- The transfer is not caught with bytes left, or two readings in a row are zero later on. -/
def PauseEnds (residue : ℕ → ℕ) : Prop :=
  ∀ i, pauseUntilBusy residue 1000 0 = some i → ∃ n, i < n ∧ residue n = 0 ∧ residue (n + 1) = 0

theorem residue_pos_of_pauseUntilBusy {n k i : ℕ} (h : pauseUntilBusy residue n k = some i) :
    0 < residue i := by
  induction n generalizing k with
  | zero => cases h
  | succ n ih =>
    rw [pauseUntilBusy] at h
    split_ifs at h with hbusy
    · exact Option.some.inj h ▸ hbusy
    · exact ih h

theorem pauseTransfer_of_le {fuel fuel' : ℕ} {exit : PauseExit}
    (h : pauseTransfer residue fuel = some exit) (hle : fuel ≤ fuel') :
    pauseTransfer residue fuel' = some exit := by
  unfold pauseTransfer at h ⊢
  cases hbusy : pauseUntilBusy residue 1000 0 with
  | none => simpa only [hbusy] using h
  | some i =>
    simp only [hbusy] at h ⊢
    obtain ⟨s, hs, rfl⟩ := Option.map_eq_some_iff.mp h
    exact Option.map_eq_some_iff.mpr ⟨s, iterate_of_le hs hle, rfl⟩

theorem pauseTransfer_eq_wait {fuel : ℕ} {exit : PauseExit}
    (h : pauseTransfer residue fuel = some exit) : exit = .wait := by
  unfold pauseTransfer at h
  cases hbusy : pauseUntilBusy residue 1000 0 with
  | none =>
    simp only [hbusy, Option.some.injEq] at h
    exact h.symm
  | some i =>
    simp only [hbusy] at h
    exact resumeAndPause_eq_wait h

theorem exists_pauseTransfer_iff :
    (∃ fuel exit, pauseTransfer residue fuel = some exit) ↔ PauseEnds residue := by
  unfold pauseTransfer PauseEnds
  cases hbusy : pauseUntilBusy residue 1000 0 with
  | none => simp
  | some i =>
    simp only [exists_resumeAndPause_iff (residue_pos_of_pauseUntilBusy hbusy), Option.some.injEq,
      forall_eq']
    constructor
    · rintro ⟨n, h0, h1⟩
      exact ⟨i + 1 + n, by omega, h0, h1⟩
    · rintro ⟨n, hlt, h0, h1⟩
      obtain ⟨m, rfl⟩ := Nat.exists_eq_add_of_le (show i + 1 ≤ n from hlt)
      exact ⟨m, h0, h1⟩

/-! ### What the loop is meant to do -/

/-- **The readings that the loop is made for.** On readings that become constant, the loop does
what it is meant to do if and only if every reading other than zero that repeats the one before
comes after two readings of zero in a row. -/
theorem detectsStuck_iff (residue : ℕ → ℕ) (bytesLeft : ℕ) (hpos : 0 < bytesLeft)
    (hconst : EventuallyConstant residue) :
    DetectsStuck residue bytesLeft ↔
      ∀ n, residue n = residue (n + 1) → residue n ≠ 0 →
        ∃ m < n, residue m = 0 ∧ residue (m + 1) = 0 := by
  constructor
  · intro h n heq hne
    by_contra hnone
    push Not at hnone
    have hreads : Reads residue bytesLeft (n + 1) :=
      (reads_iff hpos).mpr fun m hm hzero => hnone m (by omega) hzero.1 hzero.2
    obtain ⟨fuel, hout⟩ := h.stuck n hreads heq hne
    cases resumeAndPause_eq_wait hout
  · intro h
    have hends : ∃ fuel exit, resumeAndPause residue bytesLeft fuel = some exit := by
      rw [exists_resumeAndPause_iff hpos]
      obtain ⟨N, hN⟩ := hconst
      have hsucc := hN (N + 1) (Nat.le_succ N)
      by_cases hzero : residue N = 0
      · exact ⟨N, hzero, hsucc.trans hzero⟩
      · obtain ⟨m, -, hm⟩ := h N hsucc.symm hzero
        exact ⟨m, hm⟩
    refine ⟨hends, fun n hreads heq hne => ?_, fun n _ _ => ?_⟩
    · obtain ⟨m, hm, hzero⟩ := h n heq hne
      exact absurd hzero ((reads_iff hpos).mp hreads m (by omega))
    · obtain ⟨fuel, exit, hexit⟩ := hends
      exact ⟨fuel, resumeAndPause_eq_wait hexit ▸ hexit⟩

/-- A transfer that gets on by one byte between two readings. -/
theorem detectsStuck_countdown : DetectsStuck (fun n => 3 - n) 4 :=
  (detectsStuck_iff _ 4 (by decide) ⟨3, fun n hn => by simp [hn]⟩).mpr
    fun n heq hne => absurd heq (by simp only [ne_eq] at hne ⊢; omega)

/-- A transfer that is stuck with five bytes left is never given up. -/
theorem not_detectsStuck_five :
    EventuallyConstant (fun _ => 5) ∧ ¬ DetectsStuck (fun _ => 5) 5 := by
  refine ⟨⟨0, fun _ _ => rfl⟩, fun h => ?_⟩
  obtain ⟨n, hn, -⟩ := (exists_resumeAndPause_iff (by decide)).mp h.ends
  cases hn

end SnowballLtp.Dma
