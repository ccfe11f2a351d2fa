import SnowballLtp.Dma.LapPhase
import SnowballLtp.Machine.Ledger

/-!
# Mapping the payload buffers

`dma_map_single` hands a payload buffer to the device and `dma_unmap_single` takes it back. The
trace of a transfer is read as a ledger on the payload buffers: a map acquires the buffer, an
unmap releases it, and the submission of descriptor `i` uses the two buffers `i`. The ledger
accepts the trace exactly when the calls on every buffer strictly alternate and every submitted
descriptor refers to mapped buffers.

`dmatest_buflist_start_single` maps only when it prepares descriptors, whereas
`dmatest_buflist_payload_check` always unmaps. The discipline is kept along every run of a
single transfer exactly when the engine reclaims its descriptors (`DMA_CTRL_ACK`), or there is
one lap only, or there is nothing to transfer.

## Main definitions

* `Event.mapOps`, `mapOps`: the ledger operations of a trace.
* `MapDiscipline`.

## Main results

* `mapDiscipline_iff`: the discipline as the acceptance of the trace by the ledger.
* `mapDiscipline_of_reachable_iff`: when every run of a single transfer keeps it.
-/

namespace SnowballLtp.Dma

/-- The operations of an event on the payload buffers. Descriptor `i` refers to the two buffers
`i`. -/
def Event.mapOps : Event → List (LedgerOp (Side × ℕ))
  | .dmaMapSingle (.payload side i) => [.acquire (side, i)]
  | .dmaUnmapSingle (.payload side i) => [.release (side, i)]
  | .txSubmit i => [.use (.src, i), .use (.dst, i)]
  | _ => []

/-- The operations of a trace on the payload buffers. -/
def mapOps (log : List Event) : List (LedgerOp (Side × ℕ)) := log.flatMap Event.mapOps

@[simp] theorem mapOps_append (a b : List Event) : mapOps (a ++ b) = mapOps a ++ mapOps b :=
  List.flatMap_append

@[simp] theorem mapOps_cons (e : Event) (l : List Event) :
    mapOps (e :: l) = e.mapOps ++ mapOps l := List.flatMap_cons

@[simp] theorem mapOps_nil : mapOps [] = [] := rfl

/-- The mapping discipline: the calls on each payload buffer strictly alternate, the first one a
map, and every submitted descriptor refers to buffers that are mapped at that moment. -/
structure MapDiscipline (log : List Event) : Prop where
  alternates : ∀ side i, Ledger.Alternates true (Ledger.opsOn (side, i) (mapOps log))
  submits_mapped : Ledger.UsesHeld ∅ (mapOps log)

/-- The mapping discipline is what the ledger accepts. -/
theorem mapDiscipline_iff {log : List Event} :
    MapDiscipline log ↔ (Ledger.run ∅ (mapOps log)).isSome := by
  rw [Ledger.isSome_run_iff]
  constructor
  · rintro ⟨halt, huse⟩
    exact ⟨fun k => by simpa using halt k.1 k.2, huse⟩
  · rintro ⟨halt, huse⟩
    exact ⟨fun side i => by simpa using halt (side, i), huse⟩

/-! ### The calls of one lap -/

/-- The payload buffers of a list of `n` entries. -/
def payloads (n : ℕ) : List (Side × ℕ) := (List.range n).flatMap fun i => [(.src, i), (.dst, i)]

theorem nodup_payloads (n : ℕ) : (payloads n).Nodup := by
  rw [payloads, List.nodup_flatMap]
  refine ⟨fun i _ => by simp, ?_⟩
  refine (List.nodup_range (n := n)).imp fun {i j} hij => ?_
  simp [Ne.symm hij]

theorem mapOps_startSingleMaps (bf : Buflist) :
    mapOps (startSingleMaps bf) =
      if preparesDescs bf then (payloads bf.nbrBufs).map .acquire else [] := by
  unfold startSingleMaps
  split_ifs
  · simp [mapOps, payloads, List.flatMap_assoc, List.map_flatMap, Event.mapOps]
  · rfl

theorem mapOps_map_txSubmit (n : ℕ) :
    mapOps ((List.range n).map .txSubmit) = (payloads n).map .use := by
  simp [mapOps, payloads, List.flatMap_map, List.map_flatMap, Event.mapOps]

theorem mapOps_payloadCheckUnmaps (bf : Buflist) (hsrc : bf.sglSrcLen = 0)
    (hdst : bf.sglDstLen = 0) :
    mapOps (payloadCheckUnmaps bf) = (payloads bf.nbrBufs).map .release := by
  simp [payloadCheckUnmaps, hsrc, hdst, mapOps, payloads, List.flatMap_assoc, List.map_flatMap,
    Event.mapOps]

theorem mapOps_dmatestBuflistAlloc (bf : Buflist) : mapOps (dmatestBuflistAlloc bf).1 = [] := by
  simp only [dmatestBuflistAlloc, mapOps, List.flatMap_assoc, List.flatMap_eq_nil_iff]
  intro i _
  split_ifs <;> simp [Event.mapOps]

/-! ### The mapped buffers along a run -/

/-- The invariant of a single transfer while every lap maps its buffers: they are mapped exactly
while the lap is running. -/
structure MapInv (p : TcParams) (s : Transfer) : Prop where
  inv : Inv p s
  not_prepared : workRuns s.log = 0 → s.tc.buflist.isDmaPrepared = false
  sgl_lens : s.inFlight ≠ [] → s.tc.buflist.sglSrcLen = 0 ∧ s.tc.buflist.sglDstLen = 0
  mapped : Ledger.run ∅ (mapOps s.log) =
    some (if s.inFlight = [] then ∅ else (payloads p.listLen).toFinset)

variable {p : TcParams} {s s' : Transfer}

theorem MapInv.mapDiscipline (h : MapInv p s) : MapDiscipline s.log :=
  mapDiscipline_iff.mpr (by rw [h.mapped]; rfl)

theorem mapInv_of_init (h : (transferMachine p).init s) : MapInv p s := by
  have hinv := inv_init h
  obtain ⟨src, dst, s₀, h₀, rfl⟩ := h
  cases h₀
  exact {
    inv := hinv
    not_prepared := fun _ => rfl
    sgl_lens := fun h => absurd rfl h
    mapped := by
      simp [Dma.tcTestRun, Transfer.queueWork, mapOps_dmatestBuflistAlloc, Event.mapOps] }

theorem mapOps_startLog (hsg : p.isSgTransfer = false) (bf : Buflist) :
    mapOps (startLog p bf) =
      (if preparesDescs bf then (payloads bf.nbrBufs).map .acquire else []) ++
        (payloads p.listLen).map .use := by
  simp [startLog, startMaps, hsg, TcParams.descs, mapOps_startSingleMaps, mapOps_map_txSubmit,
    Event.mapOps]

/-- A lap that prepares its descriptors maps all its buffers. -/
theorem MapInv.runWork (h : MapInv p s) (hsg : p.isSgTransfer = false) (hs : s.workQueued = true)
    (hprep : preparesDescs s.tc.buflist = true ∨ p.listLen = 0) (a b : ℕ) :
    MapInv p (s.runWork a b) := by
  have hinv := h.inv.runWork hs a b
  have hidle := h.inv.inFlight_of_queued hs
  have hmapped := h.mapped
  rw [Transfer.runWork_eq h.inv.setUp] at hinv ⊢
  rw [if_pos hidle] at hmapped
  refine ⟨hinv, fun h0 => by simp at h0, fun _ => by simp [startedBuflist, hsg], ?_⟩
  have hdescs : (s.inFlight ++ p.descs = []) ↔ p.listLen = 0 := by
    simp [hidle, TcParams.descs, hsg]
  simp only [mapOps_append, mapOps_startLog hsg, h.inv.setUp.nbrBufs, hdescs]
  rw [Ledger.run_append_of_eq hmapped]
  by_cases hlen : p.listLen = 0
  · simp [hlen, payloads]
  · rw [if_pos (hprep.resolve_right hlen), if_neg hlen,
      Ledger.run_append_of_eq (Ledger.run_map_acquire (nodup_payloads _) (by simp)),
      Finset.empty_union]
    exact Ledger.run_map_use fun k hk => List.mem_toFinset.mpr hk

theorem mapOps_tcWorkerEndLap (s : Transfer) : mapOps (tcWorkerEndLap s).log = mapOps s.log := by
  rcases tcWorkerEndLap_cases s with ⟨-, h⟩ | ⟨-, h⟩ <;> simp [h, Event.mapOps]

/-- The last completion of a lap unmaps all buffers, the others none. -/
theorem MapInv.runCompletion (h : MapInv p s) (hcheck : p.doCheckBuffer = true) {i : ℕ}
    (hi : i ∈ s.inFlight) (src dst : Buffers) : MapInv p (s.runCompletion i src dst) := by
  have hinv := h.inv.runCompletion hi src dst
  have hruns := h.inv.workRuns_of_mem hi
  have hmapped := h.mapped
  rw [if_neg (List.ne_nil_of_mem hi)] at hmapped
  obtain ⟨hsrc, hdst⟩ := h.sgl_lens (List.ne_nil_of_mem hi)
  have hcalled : Ledger.run ∅ (mapOps (s.calledBack i src dst).log) =
      some (payloads p.listLen).toFinset := by
    simpa [Transfer.log_calledBack, Event.mapOps] using hmapped
  have hruns' : workRuns (s.calledBack i src dst).log ≠ 0 := by
    simp only [Transfer.log_calledBack, workRuns_append]
    omega
  rcases h.inv.runCompletion_cases hi src dst with ⟨hne, heq⟩ | ⟨hnil, heq⟩ <;> rw [heq] at hinv ⊢
  · refine ⟨hinv, fun h0 => absurd h0 hruns', fun _ => ⟨hsrc, hdst⟩, ?_⟩
    rw [hcalled, Transfer.inFlight_calledBack, if_neg hne]
  · have hset := h.inv.setUp.calledBack i src dst
    have hunmaps := mapOps_payloadCheckUnmaps (s.calledBack i src dst).tc.buflist hsrc hdst
    rw [hset.nbrBufs] at hunmaps
    have hfl : (tcWorkerEndLap (tcWorkerCheck (s.calledBack i src dst))).inFlight = [] := by
      rw [inFlight_tcWorkerEndLap, inFlight_tcWorkerCheck, Transfer.inFlight_calledBack, hnil]
    refine ⟨hinv, fun h0 => absurd (by simpa using h0) hruns', fun hne => absurd hfl hne, ?_⟩
    rw [hfl, if_pos rfl, mapOps_tcWorkerEndLap,
      log_tcWorkerCheck (hset.doCheckBuffer.trans hcheck), mapOps_append,
      Ledger.run_append_of_eq hcalled, mapOps_append, hunmaps,
      Ledger.run_append_of_eq (Ledger.run_map_release (nodup_payloads _) (by simp))]
    simp [Event.mapOps]

theorem mapOps_runWatchdog (s : Transfer) : mapOps s.runWatchdog.log = mapOps s.log := by
  rw [s.log_runWatchdog, Transfer.watchdogLog]
  split_ifs <;> simp [Event.mapOps]

theorem MapInv.runWatchdog (h : MapInv p s)
    (hw : s.timedOut = .pending ∨ s.timedOut = .expired) : MapInv p s.runWatchdog := by
  refine ⟨h.inv.runWatchdog hw, fun h0 => ?_, by simpa using h.sgl_lens, ?_⟩
  · rw [s.tc_runWatchdog]
    exact h.not_prepared (by simpa using h0)
  · rw [mapOps_runWatchdog, s.inFlight_runWatchdog]
    exact h.mapped

/-- Every lap of the transfer maps its buffers: the engine reclaims the descriptors of a lap, or
there is only the first lap, or there is no buffer. -/
def MapsEveryLap (p : TcParams) : Prop :=
  p.dmaFlags &&& dmaCtrlAck ≠ 0 ∨ p.laps = 1 ∨ p.listLen = 0

theorem MapInv.preparesDescs_of_queued (h : MapInv p s) (hp : MapsEveryLap p)
    (hs : s.workQueued = true) : preparesDescs s.tc.buflist = true ∨ p.listLen = 0 := by
  rcases hp with hack | hlaps | hlen
  · exact Or.inl (by simpa [preparesDescs, h.inv.setUp.flags] using Or.inl hack)
  · have hruns : workRuns s.log = 0 := by
      cases h.inv.phase with
      | fresh hqueued => simp [hs] at hqueued
      | running _ _ hqueued => simp [hs] at hqueued
      | finished _ hqueued => simp [hs] at hqueued
      | queued k _ _ _ _ _ _ hlast hruns => omega
    exact Or.inl (by simp [preparesDescs, h.not_prepared hruns])
  · exact Or.inr hlen

theorem mapInv_of_reachable (hsg : p.isSgTransfer = false) (hcheck : p.doCheckBuffer = true)
    (hp : MapsEveryLap p) (h : (transferMachine p).Reachable s) : MapInv p s := by
  refine h.invariant (fun _ => mapInv_of_init) fun s l s' hI _ hl => ?_
  cases l with
  | work a b =>
    obtain ⟨hs, rfl⟩ := Transfer.next_work_iff.mp hl
    exact hI.runWork hsg hs (hI.preparesDescs_of_queued hp hs) a b
  | completion i src dst =>
    obtain ⟨hi, rfl⟩ := Transfer.next_completion_iff.mp hl
    exact hI.runCompletion hcheck hi src dst
  | timeout =>
    obtain ⟨hw, rfl⟩ := Transfer.next_timeout_iff.mp hl
    exact hI.runWatchdog hw

/-! ### A second lap with the descriptors of the first -/

/-- Without `DMA_CTRL_ACK` the second of several laps submits its descriptors again after the
first payload check has unmapped their buffers. -/
theorem exists_not_mapDiscipline (hsg : p.isSgTransfer = false)
    (hcheck : p.doCheckBuffer = true) (hp : ¬ MapsEveryLap p) :
    ∃ s, (transferMachine p).Reachable s ∧ ¬ MapDiscipline s.log := by
  obtain ⟨hack, hlaps, hlen⟩ : p.dmaFlags &&& dmaCtrlAck = 0 ∧ p.laps ≠ 1 ∧ p.listLen ≠ 0 := by
    simpa [MapsEveryLap] using hp
  -- the first lap, up to the end of its payload check
  let I : Transfer → Prop := fun s => (transferMachine p).Reachable s ∧ MapInv p s ∧
    workRuns s.log = 1 ∧ s.tc.buflist.isDmaPrepared = true
  obtain ⟨s₀, h₀⟩ := exists_init p
  have hmap₀ := mapInv_of_init h₀
  have hq₀ : s₀.workQueued = true := by
    obtain ⟨src, dst, t, ht, rfl⟩ := h₀
    rfl
  have hruns₀ : workRuns s₀.log = 0 := by
    obtain ⟨src, dst, t, ht, rfl⟩ := h₀
    cases ht
    simp [tcTestRun, Transfer.queueWork, (quiet_dmatestBuflistAlloc _).workRuns_eq]
  have hprep₀ : preparesDescs s₀.tc.buflist = true := by
    simp [preparesDescs, hmap₀.not_prepared hruns₀]
  have hI₁ : I (s₀.runWork 0 0) := by
    refine ⟨reachable_runWork (.init h₀) hq₀ 0 0, hmap₀.runWork hsg hq₀ (Or.inl hprep₀) 0 0, ?_, ?_⟩
    · simp [Transfer.runWork_eq hmap₀.inv.setUp, hruns₀]
    · simp [Transfer.runWork_eq hmap₀.inv.setUp, startedBuflist, hprep₀]
  obtain ⟨s₂, ⟨hreach₂, hmap₂, hruns₂, hprep₂⟩, hidle₂⟩ :
      ∃ s, I s ∧ s.inFlight = [] := by
    refine exists_drained (p := p) (fun s hs => hs.2.1.inv) (fun s i src dst hs hi => ?_) hI₁
    obtain ⟨hreach, hmap, hruns, hprep⟩ := hs
    refine ⟨reachable_runCompletion hreach hi src dst,
      hmap.runCompletion hcheck hi src dst, ?_, ?_⟩
    · rw [hmap.inv.workRuns_runCompletion hi, hruns]
    · rcases hmap.inv.runCompletion_cases hi src dst with ⟨-, heq⟩ | ⟨-, heq⟩ <;>
        simp [heq, Transfer.calledBack, hprep]
  -- the second lap maps nothing
  have hq₂ : s₂.workQueued = true := by
    cases hmap₂.inv.phase with
    | fresh _ _ _ _ _ _ hruns => omega
    | queued _ hqueued => exact hqueued
    | running k j _ hflight hj =>
      have hpl : p.perLap = p.listLen := by simp [TcParams.perLap, hsg]
      rw [hidle₂, List.length_nil] at hflight
      omega
    | finished k _ _ _ hk _ hruns => omega
  refine ⟨s₂.runWork 0 0, reachable_runWork hreach₂ hq₂ 0 0, fun hdisc => ?_⟩
  have hnot : preparesDescs s₂.tc.buflist = false := by
    simp [preparesDescs, hmap₂.inv.setUp.flags, hack, hprep₂]
  have hmapped := hmap₂.mapped
  rw [if_pos hidle₂] at hmapped
  rw [mapDiscipline_iff, Transfer.runWork_eq hmap₂.inv.setUp, mapOps_append,
    Ledger.run_append_of_eq hmapped, mapOps_startLog hsg, hnot] at hdisc
  obtain ⟨n, hn⟩ : ∃ n, p.listLen = n + 1 := ⟨p.listLen - 1, by omega⟩
  simp [hn, payloads, List.range_succ_eq_map, Ledger.run_cons, Ledger.step] at hdisc

/-- **The mapping discipline of single transfers.** Every state that a single transfer reaches
keeps it if and only if every lap maps its buffers. -/
theorem mapDiscipline_of_reachable_iff (hsg : p.isSgTransfer = false)
    (hcheck : p.doCheckBuffer = true) :
    (∀ s, (transferMachine p).Reachable s → MapDiscipline s.log) ↔
      p.dmaFlags &&& dmaCtrlAck ≠ 0 ∨ p.laps = 1 ∨ p.listLen = 0 := by
  constructor
  · intro hall
    by_contra hp
    obtain ⟨s, hs, hnot⟩ := exists_not_mapDiscipline hsg hcheck hp
    exact hnot (hall s hs)
  · exact fun hp s hs => (mapInv_of_reachable hsg hcheck hp hs).mapDiscipline

/-- The transfer of `tc_35_run_1_parallel_reuse`, its random sizes all being 1. -/
def tc35Reuse : TcParams where
  laps := 20
  endPadding := 64
  doCheckBuffer := true
  sizes := List.replicate 30 1
  one_le_sizes := by simp
  isSgTransfer := false
  dmaFlags := dmaPrepInterrupt
  timeout := 1000000

/-- The transfer that reuses its descriptors breaks the discipline. -/
theorem not_mapDiscipline_tc35Reuse :
    ¬ ∀ s, (transferMachine tc35Reuse).Reachable s → MapDiscipline s.log := by
  intro hall
  obtain ⟨s, hs, hnot⟩ := exists_not_mapDiscipline (p := tc35Reuse) rfl rfl
    (by simp [MapsEveryLap, tc35Reuse, TcParams.listLen]; decide)
  exact hnot (hall s hs)

/-- The same transfer with `DMA_CTRL_ACK` keeps it. -/
theorem mapDiscipline_tc35_ack :
    ¬ ∃ s, (transferMachine { tc35Reuse with
      dmaFlags := dmaPrepInterrupt ||| dmaCtrlAck }).Reachable s ∧ ¬ MapDiscipline s.log := by
  rintro ⟨s, hs, hnot⟩
  exact hnot ((mapDiscipline_of_reachable_iff rfl rfl).mpr (Or.inl (by decide)) s hs)

end SnowballLtp.Dma
