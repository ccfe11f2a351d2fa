import SnowballLtp.Dma.LapPhase
import SnowballLtp.Dma.PayloadCheck

/-!
# A lap that transfers nothing

Suppose that in one lap the engine reports every descriptor as complete but writes nothing, and that
it copies correctly in the others. `dmatest_buflist_alloc` writes `0xAA` into the destinations once,
before the first lap, and nothing writes it again: only a dead first lap is noticed by its payload
check. In a later lap the destinations still hold what the earlier laps copied.

## Main definitions

* `Transfer.copied`: the destinations after the engine has copied one descriptor.
* `DeadLap`: the steps of the runs whose lap `k` is dead.

## Main results

* `deadLap_check_iff`: the result of the payload check of the dead lap.
-/

namespace SnowballLtp.Dma

/-- Descriptor `i` transfers buffer `b`: in scatter-gather mode one descriptor transfers all. -/
def Transfer.Covers (s : Transfer) (i b : ℕ) : Prop :=
  s.tc.workStart = .tcWorkerStartSg ∨ b = i

instance (s : Transfer) (i b : ℕ) : Decidable (s.Covers i b) :=
  inferInstanceAs (Decidable (_ ∨ _))

/-- The destinations after the engine has copied the sources of descriptor `i`. -/
def Transfer.copied (s : Transfer) (i : ℕ) : Buffers := fun b j =>
  if s.Covers i b ∧ j < s.tc.buflist.sizeAt b then s.tc.buflist.listBufSrc b j
  else s.tc.buflist.listBufDst b j

/-- The steps of the runs in which the engine writes nothing in lap `k`, the lap that the `k`-th
run of the work item starts, and copies correctly in the other laps. -/
def DeadLap (k : ℕ) (s : Transfer) : Label → Prop
  | .completion i src dst => src = s.tc.buflist.listBufSrc ∧
      dst = if workRuns s.log = k then s.tc.buflist.listBufDst else s.copied i
  | _ => True

variable {p : TcParams} {k : ℕ} {s s' : Transfer}

/-- The descriptor that transfers buffer `b`. -/
def TcParams.descOf (p : TcParams) (b : ℕ) : ℕ := if p.isSgTransfer then 0 else b

theorem TcParams.descOf_mem_descs {b : ℕ} (hb : b < p.listLen) : p.descOf b ∈ p.descs := by
  unfold TcParams.descOf TcParams.descs
  split_ifs <;> simp [hb]

theorem SetUp.covers_iff (h : SetUp p s) {i : ℕ} (hi : i ∈ p.descs) (b : ℕ) :
    s.Covers i b ↔ p.descOf b = i := by
  unfold Transfer.Covers TcParams.descOf
  cases hsg : p.isSgTransfer with
  | false => simp [h.workStart, hsg]
  | true =>
    have hi0 : i = 0 := by simpa [TcParams.descs, hsg] using hi
    simp [h.workStart, hsg, hi0]

/-- The number of bytes of buffer `b`. -/
def TcParams.sizeAt (p : TcParams) (b : ℕ) : ℕ := (p.sizes.getD b 0).toNat

/-- The contents of the buffers in a run whose lap `k` is dead, during lap `lap` with `inFlight`
outstanding. The sources are intact; the destinations are as they were allocated until the end of
a dead first lap; when the first lap is not the dead one, they agree with the sources as soon as it
has transferred them. -/
structure Contents (p : TcParams) (k lap : ℕ) (inFlight : List ℕ) (src dst : Buffers) :
    Prop where
  intact : ∀ b < p.listLen, ∀ j < p.sizeAt b, src b j = pattern b j
  allocated : k = 1 → lap ≤ 1 → ∀ b < p.listLen, ∀ j < p.sizeAt b, dst b j = 0xAA
  transferred : k ≠ 1 → 1 ≤ lap → ∀ b < p.listLen, (lap = 1 → p.descOf b ∉ inFlight) →
    ∀ j < p.sizeAt b, dst b j = src b j

namespace Contents

variable {lap : ℕ} {inFlight : List ℕ} {src dst : Buffers}

/-- The next lap begins with all its descriptors in flight. -/
theorem work (h : Contents p k lap [] src dst) (inFlight : List ℕ)
    (hall : ∀ i ∈ p.descs, i ∈ inFlight) : Contents p k (lap + 1) inFlight src dst where
  intact := h.intact
  allocated hk hlap := h.allocated hk (by omega)
  transferred hk _ b hb hnot := by
    refine h.transferred hk ?_ b hb fun _ => List.not_mem_nil
    by_contra h0
    exact hnot (by omega) (hall _ (p.descOf_mem_descs hb))

/-- In the dead lap a completion changes nothing. -/
theorem dead (h : Contents p k lap inFlight src dst) (hlap : lap = k) (i : ℕ) :
    Contents p k lap (inFlight.erase i) src dst where
  intact := h.intact
  allocated := h.allocated
  transferred hk hpos b hb _ := h.transferred hk hpos b hb fun h1 => absurd (hlap ▸ h1) hk

/-- In any other lap it transfers the buffers of its descriptor. -/
theorem copied {i : ℕ} {dst' : Buffers} (h : Contents p k lap inFlight src dst)
    (hpos : 1 ≤ lap) (hlap : lap ≠ k)
    (hdst : ∀ b < p.listLen, ∀ j < p.sizeAt b,
      dst' b j = if p.descOf b = i then src b j else dst b j) :
    Contents p k lap (inFlight.erase i) src dst' where
  intact := h.intact
  allocated hk hle := by omega
  transferred hk _ b hb hnot j hj := by
    rw [hdst b hb j hj]
    split_ifs with hi
    · rfl
    · exact h.transferred hk hpos b hb
        (fun h1 hmem => hnot h1 ((List.mem_erase_of_ne hi).mpr hmem)) j hj

/-- The payload check at the end of lap `k`. -/
theorem payloadCheckErr_ne_zero_iff (h : Contents p k k [] src dst) (hk : 1 ≤ k) {bf : Buflist}
    (hn : bf.nbrBufs = p.listLen) (hsize : ∀ b, bf.sizeAt b = p.sizeAt b)
    (hsrc : bf.listBufSrc = src) (hdst : bf.listBufDst = dst) :
    payloadCheckErr bf ≠ 0 ↔ k = 1 ∧ p.sizes ≠ [] := by
  rw [Ne, payloadCheckErr_eq_zero_iff]
  simp only [hn, hsize, hsrc, hdst]
  by_cases h1 : k = 1
  · by_cases hnil : p.sizes = []
    · simp [hnil, TcParams.listLen]
    · refine iff_of_true (fun hagree => ?_) ⟨h1, hnil⟩
      -- the first byte of the first source is 0, that of its destination still `0xAA`
      obtain ⟨v, vs, hsizes⟩ := List.exists_cons_of_ne_nil hnil
      have hv := p.one_le_sizes v (by simp [hsizes])
      have hlen : 0 < p.listLen := by simp [TcParams.listLen, hsizes]
      have hpos : 0 < p.sizeAt 0 := by
        simp only [TcParams.sizeAt, hsizes, List.getD_cons_zero]
        omega
      have hbyte := hagree 0 hlen 0 hpos
      rw [h.allocated h1 h1.le 0 hlen 0 hpos, h.intact 0 hlen 0 hpos] at hbyte
      exact absurd hbyte (by decide)
  · refine iff_of_false (fun hne => hne fun b hb j hj => ?_) fun hand => h1 hand.1
    exact h.transferred h1 hk b hb (fun _ => List.not_mem_nil) j hj

end Contents

/-- The invariant of a run whose lap `k` is dead. -/
structure DeadLapInv (p : TcParams) (k : ℕ) (s : Transfer) : Prop where
  inv : Inv p s
  inFlight_sub : ∀ i ∈ s.inFlight, i ∈ p.descs
  contents : Contents p k (workRuns s.log) s.inFlight s.tc.buflist.listBufSrc
    s.tc.buflist.listBufDst
  check : ∀ r, (checks s.log)[k - 1]? = some r → (r ≠ 0 ↔ k = 1 ∧ p.sizes ≠ [])

theorem SetUp.sizeAt_eq (h : SetUp p s) (b : ℕ) : s.tc.buflist.sizeAt b = p.sizeAt b :=
  h.sizeAt b

/-- While descriptors are in flight, the laps in front of the running one have been checked. -/
theorem Inv.length_checks (h : Inv p s) (hcheck : p.doCheckBuffer = true) {i : ℕ}
    (hi : i ∈ s.inFlight) : (checks s.log).length + 1 = workRuns s.log := by
  cases h.phase with
  | fresh _ hflight => simp [hflight] at hi
  | queued _ _ hflight => simp [hflight] at hi
  | finished _ _ hflight => simp [hflight] at hi
  | running k j _ _ _ _ _ _ _ _ _ hruns _ hchecks => rw [hchecks hcheck, hruns]

theorem deadLapInv_of_init (h : (transferMachine p).init s) : DeadLapInv p k s := by
  have hinv := inv_init h
  obtain ⟨src, dst, s₀, h₀, rfl⟩ := h
  cases h₀
  have hset := hinv.setUp
  have hruns : ∀ bf : Buflist,
      workRuns ((dmatestBuflistAlloc bf).1 ++ [.queueWork]) = 0 ∧
        checks ((dmatestBuflistAlloc bf).1 ++ [.queueWork]) = [] := fun bf => by
    simp [(quiet_dmatestBuflistAlloc bf).workRuns_eq, (quiet_dmatestBuflistAlloc bf).checks_eq]
  refine ⟨hinv, fun i hi => absurd hi List.not_mem_nil, ⟨?_, ?_, ?_⟩, fun r hr => ?_⟩
  · intro b hb j hj
    exact srcIntact_dmatestBuflistAlloc _ b (hset.nbrBufs ▸ hb) j (hset.sizeAt_eq b ▸ hj)
  · intro _ _ b hb j hj
    exact listBufDst_dmatestBuflistAlloc (hset.nbrBufs ▸ hb) (hset.sizeAt_eq b ▸ hj)
  · intro _ hpos
    exact absurd hpos (by rw [tcTestRun, Transfer.queueWork, (hruns _).1]; omega)
  · rw [tcTestRun, Transfer.queueWork, (hruns _).2] at hr
    simp at hr

theorem DeadLapInv.runWork (h : DeadLapInv p k s) (hs : s.workQueued = true) (a b : ℕ) :
    DeadLapInv p k (s.runWork a b) := by
  have hinv := h.inv.runWork hs a b
  have hidle := h.inv.inFlight_of_queued hs
  have hcontents := h.contents
  rw [Transfer.runWork_eq h.inv.setUp] at hinv ⊢
  rw [hidle] at hcontents
  refine ⟨hinv, by simp [hidle], ?_, by simpa using h.check⟩
  simpa [hidle] using! hcontents.work p.descs fun i hi => hi

/-- The contents after a completion. -/
theorem DeadLapInv.contents_completion (h : DeadLapInv p k s) {i : ℕ} (hi : i ∈ s.inFlight)
    {src dst : Buffers} (hdead : DeadLap k s (.completion i src dst)) :
    Contents p k (workRuns s.log) (s.inFlight.erase i) src dst := by
  obtain ⟨rfl, rfl⟩ := hdead
  split_ifs with hlap
  · exact h.contents.dead hlap i
  · refine h.contents.copied (h.inv.workRuns_of_mem hi) hlap fun b hb j hj => ?_
    have hcov := h.inv.setUp.covers_iff (h.inFlight_sub i hi) b
    simp only [Transfer.copied, h.inv.setUp.sizeAt_eq, hcov, hj, and_true]

theorem DeadLapInv.runCompletion (h : DeadLapInv p k s) (hk : 1 ≤ k)
    (hcheck : p.doCheckBuffer = true) {i : ℕ} (hi : i ∈ s.inFlight) {src dst : Buffers}
    (hdead : DeadLap k s (.completion i src dst)) : DeadLapInv p k (s.runCompletion i src dst) := by
  have hinv := h.inv.runCompletion hi src dst
  have hcontents := h.contents_completion hi hdead
  have hsub : ∀ j ∈ s.inFlight.erase i, j ∈ p.descs := fun j hj =>
    h.inFlight_sub j (List.mem_of_mem_erase hj)
  rcases h.inv.runCompletion_cases hi src dst with ⟨-, heq⟩ | ⟨hnil, heq⟩ <;> rw [heq] at hinv ⊢
  · refine ⟨hinv, hsub, ?_, ?_⟩
    · simpa [Transfer.calledBack] using hcontents
    · simpa [Transfer.log_calledBack] using h.check
  · have hset := h.inv.setUp.calledBack i src dst
    have hlen := h.inv.length_checks hcheck hi
    refine ⟨hinv, by simpa [Transfer.inFlight_calledBack] using hsub, ?_, fun r hr => ?_⟩
    · simpa [Transfer.calledBack] using hcontents
    · rw [checks_tcWorkerEndLap, checks_tcWorkerCheck (hset.doCheckBuffer.trans hcheck)] at hr
      have hcalled : checks (s.calledBack i src dst).log = checks s.log := by
        simp [Transfer.log_calledBack]
      rw [hcalled] at hr
      by_cases hlt : k - 1 < (checks s.log).length
      · rw [List.getElem?_append_left hlt] at hr
        exact h.check r hr
      · -- the result recorded now is that of lap `k`
        have hle := (List.getElem?_eq_some_iff.mp hr).1
        rw [List.length_append, List.length_singleton] at hle
        have hlap : workRuns s.log = k := by omega
        rw [List.getElem?_append_right (by omega), show k - 1 - (checks s.log).length = 0 by omega]
          at hr
        obtain rfl := Option.some.inj hr
        rw [hlap, hnil] at hcontents
        exact hcontents.payloadCheckErr_ne_zero_iff hk hset.nbrBufs hset.sizeAt_eq rfl rfl

theorem DeadLapInv.runWatchdog (h : DeadLapInv p k s)
    (hw : s.timedOut = .pending ∨ s.timedOut = .expired) : DeadLapInv p k s.runWatchdog :=
  ⟨h.inv.runWatchdog hw, by simpa using h.inFlight_sub, by simpa using h.contents,
    by simpa using h.check⟩

theorem deadLapInv_of_reachableVia (hk : 1 ≤ k) (hcheck : p.doCheckBuffer = true)
    (h : (transferMachine p).ReachableVia (DeadLap k) s) : DeadLapInv p k s := by
  refine h.invariant (fun _ => deadLapInv_of_init) fun s l s' hI hok hl => ?_
  cases l with
  | work a b =>
    obtain ⟨hs, rfl⟩ := Transfer.next_work_iff.mp hl
    exact hI.runWork hs a b
  | completion i src dst =>
    obtain ⟨hi, rfl⟩ := Transfer.next_completion_iff.mp hl
    exact hI.runCompletion hk hcheck hi hok
  | timeout =>
    obtain ⟨hw, rfl⟩ := Transfer.next_timeout_iff.mp hl
    exact hI.runWatchdog hw

/-- **The payload check of a dead lap.** It fails if and only if the dead lap is the first one and
there is a buffer. -/
theorem deadLap_check_iff (hk : 1 ≤ k) (hcheck : p.doCheckBuffer = true)
    (h : (transferMachine p).ReachableVia (DeadLap k) s) {r : ℤ}
    (hr : (checks s.log)[k - 1]? = some r) : r ≠ 0 ↔ k = 1 ∧ p.sizes ≠ [] :=
  (deadLapInv_of_reachableVia hk hcheck h).check r hr

/-- Two laps over one buffer of one byte. -/
def twoLapsOneBuffer : TcParams := { twoLaps with sizes := [1], one_le_sizes := by simp }

/-- A dead second lap is accepted. -/
theorem not_deadLap_check_second :
    ¬ ∀ s r, (transferMachine twoLapsOneBuffer).ReachableVia (DeadLap 2) s →
      (checks s.log)[2 - 1]? = some r → r ≠ 0 := by
  intro hall
  have h₀ : (transferMachine twoLapsOneBuffer).ReachableVia (DeadLap 2) _ :=
    .init ⟨pattern, pattern, _, rfl, rfl⟩
  have h₁ := h₀.step (Label.work 0 0) trivial rfl
  have h₂ := h₁.step (Label.completion 0 _ _) ⟨rfl, rfl⟩ rfl
  have h₃ := h₂.step (Label.work 0 0) trivial rfl
  have h₄ := h₃.step (Label.completion 0 _ _) ⟨rfl, rfl⟩ rfl
  exact hall _ 0 h₄ (by decide) rfl

/-- A dead first lap is noticed. -/
theorem deadLap_check_first :
    ∃ s r, (transferMachine twoLapsOneBuffer).ReachableVia (DeadLap 1) s ∧
      (checks s.log)[1 - 1]? = some r ∧ r ≠ 0 := by
  have h₀ : (transferMachine twoLapsOneBuffer).ReachableVia (DeadLap 1) _ :=
    .init ⟨pattern, pattern, _, rfl, rfl⟩
  have h₁ := h₀.step (Label.work 0 0) trivial rfl
  have h₂ := h₁.step (Label.completion 0 _ _) ⟨rfl, rfl⟩ rfl
  have hiff := deadLap_check_iff le_rfl rfl h₂ (r := -1) rfl
  exact ⟨_, -1, h₂, rfl, hiff.mpr ⟨rfl, by decide⟩⟩

end SnowballLtp.Dma
