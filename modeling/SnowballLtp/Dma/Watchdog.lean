import SnowballLtp.Dma.LapPhase

/-!
# The watchdog

`dmatest_buflist_start_single` and `dmatest_buflist_start_sg` arm the watchdog `timed_out` once
for all descriptors of a lap, and `transmit_cb` cancels it for each of them. A lost completion is
reported only while the watchdog is armed, so of the descriptors of a lap only the first one to
complete is watched: single transfers are watched throughout exactly when a lap is one descriptor.

## Main definitions

* `Transfer.Watched`.

## Main results

* `watched_of_reachable_iff`: when every state of every run is watched.
-/

namespace SnowballLtp.Dma

/-- While a descriptor is in flight, the watchdog is pending, waiting for its timer or queued to be
run, or has fired since it was armed. -/
def Transfer.Watched (s : Transfer) : Prop :=
  s.inFlight ≠ [] →
    (s.timedOut = .pending ∨ s.timedOut = .expired) ∨ s.timedOut = .fired

variable {p : TcParams} {s : Transfer}

/-- A lap of one descriptor is watched until that descriptor completes. -/
theorem Inv.watched (h : Inv p s) (hlap : p.perLap = 1) : s.Watched := by
  intro hne
  cases h.phase with
  | fresh _ hflight => exact absurd hflight hne
  | queued _ _ hflight => exact absurd hflight hne
  | finished _ _ hflight => exact absurd hflight hne
  | running k j _ _ hj hwatch =>
    have hidle := hwatch (by omega)
    cases hw : s.timedOut with
    | idle => exact absurd hw hidle
    | pending => exact .inl (.inl rfl)
    | expired => exact .inl (.inr rfl)
    | fired => exact .inr rfl

/-- After the first completion of a lap of several descriptors the others are not watched. -/
theorem exists_not_watched (hlap : 2 ≤ p.perLap) :
    ∃ s, (transferMachine p).Reachable s ∧ ¬ s.Watched := by
  obtain ⟨s₀, h₀⟩ := exists_init p
  have hinv₀ := inv_init h₀
  have hq₀ : s₀.workQueued = true := by
    obtain ⟨src, dst, t, ht, rfl⟩ := h₀
    rfl
  have hreach₁ := reachable_runWork (.init h₀) hq₀ 0 0
  have hinv₁ := hinv₀.runWork hq₀ 0 0
  have hfl₁ : (s₀.runWork 0 0).inFlight = p.descs := by
    rw [Transfer.runWork_eq hinv₀.setUp]
    simp [hinv₀.inFlight_of_queued hq₀]
  have hw₀ : s₀.timedOut = .idle := by
    obtain ⟨src, dst, t, ht, rfl⟩ := h₀
    cases ht
    rfl
  have hw₁ : (s₀.runWork 0 0).timedOut = .pending := by
    rw [Transfer.runWork_eq hinv₀.setUp]
    dsimp only
    rw [if_neg (by simp [hw₀])]
  obtain ⟨i, hi⟩ := List.exists_mem_of_length_pos (l := (s₀.runWork 0 0).inFlight)
    (by rw [hfl₁, p.length_descs]; omega)
  have hleft : ((s₀.runWork 0 0).inFlight.erase i) ≠ [] := by
    rw [← List.length_pos_iff, List.length_erase_of_mem hi, hfl₁, p.length_descs]
    omega
  refine ⟨_, reachable_runCompletion hreach₁ hi (fun _ _ => 0) (fun _ _ => 0), fun hwatched => ?_⟩
  rcases hinv₁.runCompletion_cases hi (fun _ _ => 0) (fun _ _ => 0) with ⟨-, heq⟩ | ⟨hnil, -⟩
  · rw [heq] at hwatched
    simpa [Transfer.calledBack, hw₁] using hwatched hleft
  · exact absurd hnil hleft

/-- **The watchdog of single transfers.** Every state that a single transfer reaches is watched
if and only if its list has one buffer. -/
theorem watched_of_reachable_iff (hsg : p.isSgTransfer = false) (hlen : 1 ≤ p.listLen) :
    (∀ s, (transferMachine p).Reachable s → s.Watched) ↔ p.listLen = 1 := by
  have hlap : p.perLap = p.listLen := by simp [TcParams.perLap, hsg]
  constructor
  · intro hall
    by_contra hne
    obtain ⟨s, hs, hnot⟩ := exists_not_watched (p := p) (by omega)
    exact hnot (hall s hs)
  · exact fun h1 s hs => (inv_of_reachable hs).watched (by omega)

/-- The transfer of a channel of `tc_54_trigger`. -/
def tc54Trigger : TcParams where
  laps := 1
  endPadding := 64
  doCheckBuffer := true
  sizes := List.replicate 4 1024
  one_le_sizes := by simp
  isSgTransfer := false
  dmaFlags := dmaPrepInterrupt ||| dmaCtrlAck
  timeout := 1000

/-- The test whose short timeout is to report a lost transfer is not watched throughout. -/
theorem not_watched_tc54Trigger :
    ¬ ∀ s, (transferMachine tc54Trigger).Reachable s → s.Watched := by
  intro hall
  obtain ⟨s, hs, hnot⟩ := exists_not_watched (p := tc54Trigger) (by decide)
  exact hnot (hall s hs)

/-- The same transfer of one buffer. -/
def tc54OneBuffer : TcParams := { tc54Trigger with
  sizes := [1024]
  one_le_sizes := by simp }

/-- With one buffer it is. -/
theorem watched_tc54_one_buffer :
    ¬ ∃ s, (transferMachine tc54OneBuffer).Reachable s ∧ ¬ s.Watched := by
  rintro ⟨s, hs, hnot⟩
  exact hnot ((watched_of_reachable_iff rfl le_rfl).mpr rfl s hs)

end SnowballLtp.Dma
