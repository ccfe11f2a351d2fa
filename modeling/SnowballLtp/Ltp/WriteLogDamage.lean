import SnowballLtp.Ltp.WriteLogLook

/-!
# Scanning a damaged log

`wlog_scan_backward` takes every length from the file as it stands: the two bytes behind a record
say where it begins, and three bit-fields in it say how long its strings are. Two things follow for
a file of arbitrary bytes.

When a length is larger than the buffer, the whole buffer is left over, so the next chunk is empty
and the scan looks at the same bytes again, for ever, unless the file begins in the buffer. Every
other pass comes closer to the start of the file.

When a length is larger than `albuf`, or a field larger than the array that the string is copied to,
or the strings together larger than the record, then a copy is made nevertheless.

## Main definitions

* `ScanState.stop`, `Oversized`.
* `Taking`, `CopiesFit`: the copies of a record that is about to be taken.
* `WellFormed`: the records whose copies fit.

## Main results

* `scanEnds_iff`: when the loops come to an end.
* `ones_not_scanEnds`: a file that is scanned for ever.
* `copiesFit_iff`: when all copies fit.
* `longRecord_not_copiesFit`: a record that is longer than `albuf`.
-/

namespace SnowballLtp

namespace WriteLog

/-- In the inner loop, the place in the file in front of which the scan looks for a record. -/
def ScanState.stop (s : ScanState) : ℕ := (s.offset + (s.cp - s.bufstart)).toNat

/-- More than a buffer of bytes stands in front of `stop`, and the last two of them claim a record
that does not fit into the buffer. -/
def Oversized (signedChar : Bool) (file : List UInt8) (stop : ℕ) : Prop :=
  sizeofBuf < stop ∧ (sizeofBuf : ℤ) < claimed signedChar file stop + 2

/-- A record of the given length is about to be copied from the buffer to `albuf`. -/
def Taking (signedChar : Bool) (s : ScanState) (reclen : ℤ) : Prop :=
  s.place = .inner ∧ 2 ≤ s.cp - s.bufstart ∧
    (∃ high low, cell s.buf (s.cp - 2) = .ok high ∧ cell s.buf (s.cp - 1) = .ok low ∧
      reclen = charValue signedChar high * 256 + charValue signedChar low) ∧
    reclen + 2 ≤ s.cp - s.bufstart

/-- The copies that `wlog_rec_unpack` makes of a record in `albuf` fit into the arrays and are made
from bytes of the record. -/
structure UnpackFits (rec : List UInt8) : Prop where
  path : WlogRecDisk.pathlen.get rec ≤ wlogMaxPath + 1
  host : WlogRecDisk.hostlen.get rec ≤ wlogMaxHost + 1
  pattern : WlogRecDisk.patternlen.get rec ≤ wlogMaxPattern + 1
  inside : sizeofWlogRecDisk + WlogRecDisk.pathlen.get rec + WlogRecDisk.hostlen.get rec +
    WlogRecDisk.patternlen.get rec ≤ rec.length

/-- The copies of the record that is about to be taken, if there is one. -/
def CopiesFit (signedChar : Bool) (s : ScanState) : Prop :=
  ∀ reclen, Taking signedChar s reclen → 0 ≤ reclen ∧ reclen ≤ wlogRecMaxSize ∧
    UnpackFits (slice s.buf (s.cp - (reclen + 2)).toNat reclen.toNat)

/-- A record as the scan has to find it: neither shorter than a head nor longer than `albuf`, with
a host that is not too long, and with strings that fill no more than what is behind the head. -/
structure WellFormed (rec : List UInt8) : Prop where
  length_le : rec.length ≤ wlogRecMaxSize
  host : WlogRecDisk.hostlen.get rec ≤ 9
  inside : 28 + WlogRecDisk.pathlen.get rec + WlogRecDisk.hostlen.get rec +
    WlogRecDisk.patternlen.get rec ≤ rec.length

/-- The bytes that the scan takes for a record in front of `stop`. -/
def recordBytes (signedChar : Bool) (file : List UInt8) (stop : ℕ) : List UInt8 :=
  slice file (stop - (claimed signedChar file stop + 2).toNat)
    (claimed signedChar file stop).toNat

section

variable {signedChar : Bool} {buf : CArray UInt8 sizeofBuf} {albuf : CArray UInt8 wlogRecMaxSize}
  {file : List UInt8} {nrecs : ℤ} {func : List WlogRec → ℤ} {s : ScanState} {a b : Look}

theorem Follows.stop_eq (h : Follows file s a) (hplace : a.place = .inner) :
    s.offset.toNat = a.off ∧ s.stop = a.stop := by
  obtain ⟨start, hbufstart, -, hshows⟩ := h.shows
  rw [Shows, hplace] at hshows
  obtain ⟨hoffset, -, hcp, -⟩ := hshows
  have hle := h.off_le
  rw [ScanState.stop]
  omega

/-! ### Termination -/

/-- The bytes in front of the scan, and the offset, which every chunk lowers. -/
def lookMeasure (a : Look) : ℕ :=
  match a.place with
  | .outer => 3 * a.off + (a.stop - a.off)
  | .inner => 3 * a.off + (a.stop - a.off) + 1

/-- **Progress.** A pass comes closer to the start of the file, if no record is larger than the
buffer. -/
theorem lookMeasure_lt (h : LookReaches signedChar albuf file nrecs func a)
    (hsize : ∀ c, LookReaches signedChar albuf file nrecs func c → c.place = .inner →
      ¬ Oversized signedChar file c.stop)
    (hstep : lookStep signedChar file nrecs func a = .inl b) : lookMeasure b < lookMeasure a := by
  have hbuf : sizeofBuf = 16384 := rfl
  have hbounds := bounds_of_reaches h
  obtain ⟨houter, hwanted, hoff, rfl⟩ | ⟨hinner, -, rfl⟩ |
    ⟨hinner, hfits, albuf', wrec, hrecord, rfl⟩ := lookStep_cases hstep
  · -- what is left over is less than the buffer, so the chunk is not empty
    have hless : a.stop ≤ sizeofBuf ∨ a.stop - a.off < sizeofBuf := by
      by_contra hfull
      have hnot := not_fits_of_outer h houter
      refine hsize _ (h.step (lookStep_refill houter hwanted hoff)) rfl ⟨by dsimp only; omega, ?_⟩
      by_contra hsmall
      exact hnot ⟨by omega, by dsimp only at hsmall; omega⟩
    rw [lookMeasure, lookMeasure, houter]
    dsimp only
    omega
  · rw [lookMeasure, lookMeasure, hinner]
    dsimp only
    omega
  · have hnonneg := claimed_nonneg_of_recordAt hrecord
    have hfits' := hfits.2
    rw [lookMeasure.eq_def a, hinner]
    obtain ⟨-, h⟩ | ⟨-, -, -, h⟩ | ⟨-, -, h⟩ :=
      Look.called_cases signedChar file nrecs func a albuf' wrec
    all_goals
      rw [h, lookMeasure]
      dsimp only
      omega

/-- A look that never gets on: the whole buffer is left over, in front of it there is more. -/
structure Blocked (signedChar : Bool) (file : List UInt8) (nrecs : ℤ) (a : Look) : Prop where
  oversized : Oversized signedChar file a.stop
  wanted : nrecs = 0 ∨ a.recnum < nrecs
  near : a.stop - a.off ≤ sizeofBuf
  off_le : a.off ≤ a.stop

theorem Blocked.step (h : Blocked signedChar file nrecs a) (func : List WlogRec → ℤ) :
    ∃ b, lookStep signedChar file nrecs func a = .inl b ∧ Blocked signedChar file nrecs b := by
  obtain ⟨⟨hstop, hclaimed⟩, hwanted, hnear, hle⟩ := h
  cases hplace : a.place with
  | outer =>
    exact ⟨_, lookStep_refill hplace hwanted (by omega), ⟨hstop, hclaimed⟩, hwanted,
      by dsimp only; omega, Nat.sub_le _ _⟩
  | inner =>
    have hfits : ¬ Fits signedChar file a.off a.stop := fun hfits => by
      have := hfits.2
      omega
    exact ⟨_, lookStep_carry hplace hfits, ⟨hstop, hclaimed⟩, hwanted, hnear, hle⟩

/-- An oversized record is looked at for ever. -/
theorem not_exists_iterate_of_oversized (h : LookReaches signedChar albuf file nrecs func a)
    (hplace : a.place = .inner) (hsize : Oversized signedChar file a.stop) :
    ¬ ∃ fuel r, iterate (lookStep signedChar file nrecs func) fuel (Look.start file albuf.cells) =
      some r := by
  rintro ⟨fuel, r, hr⟩
  obtain ⟨fuel', hr'⟩ := (exists_iterate_iff h r).mp ⟨fuel, hr⟩
  obtain ⟨hle, hnear⟩ := bounds_of_reaches h
  have hnone := iterate_eq_none (Blocked signedChar file nrecs) (fun _ hs => hs.step func) fuel'
    ⟨hsize, wanted_of_reaches h (.inl hplace), hnear, hle⟩
  rw [hnone] at hr'
  cases hr'

/-- Without an oversized record the loops come to an end. -/
theorem exists_iterate_of_not_oversized
    (h : ∀ a, LookReaches signedChar albuf file nrecs func a → a.place = .inner →
      ¬ Oversized signedChar file a.stop) :
    ∃ fuel r, iterate (lookStep signedChar file nrecs func) fuel (Look.start file albuf.cells) =
      some r := by
  have hpass : ∀ a, LookReaches signedChar albuf file nrecs func a →
      (∃ b, lookStep signedChar file nrecs func a = .inl b ∧
        LookReaches signedChar albuf file nrecs func b ∧ lookMeasure b < lookMeasure a) ∨
      ∃ r, lookStep signedChar file nrecs func a = .inr r ∧ True := by
    intro a ha
    cases hstep : lookStep signedChar file nrecs func a with
    | inl b => exact .inl ⟨b, rfl, ha.step hstep, lookMeasure_lt ha h hstep⟩
    | inr r => exact .inr ⟨r, rfl, trivial⟩
  obtain ⟨r, hr, -⟩ := iterate_of_measure _ lookMeasure (fun _ => True) hpass (Passes.refl _)
    (Nat.lt_succ_self _)
  exact ⟨_, r, hr⟩

/-- The condition on the states of the scan is one on what it looks at. -/
theorem forall_inner_iff (P : ℕ → ℕ → List UInt8 → Prop) :
    (∀ s, ScanReaches signedChar buf albuf file nrecs func s → s.place = .inner →
        P s.offset.toNat s.stop s.albuf) ↔
      ∀ a, LookReaches signedChar albuf file nrecs func a → a.place = .inner →
        P a.off a.stop a.albuf := by
  constructor
  · intro h a ha hplace
    obtain ⟨s, hs, hfollows⟩ := Passes.exists_scan buf ha
    obtain ⟨hoff, hstop⟩ := hfollows.stop_eq hplace
    rw [← hoff, ← hstop, ← hfollows.albuf_eq]
    exact h s hs (hfollows.place_eq.trans hplace)
  · intro h s hs hplace
    obtain ⟨a, ha, hfollows⟩ := hs.exists_look
    have hplace' := hfollows.place_eq.symm.trans hplace
    obtain ⟨hoff, hstop⟩ := hfollows.stop_eq hplace'
    rw [hoff, hstop, hfollows.albuf_eq]
    exact h a ha hplace'

/-- **Termination.** The loops come to an end if and only if the scan does not look for a record at
a place with more than a buffer of bytes in front of it, the last two of which claim a record that
is larger than the buffer. The function returns if and only if besides every record that fits can be
copied to `albuf` and unpacked. -/
theorem scanEnds_iff :
    ((∃ fuel r, wlogScanBackward fuel signedChar buf albuf file nrecs func = some r) ↔
      ∀ s, ScanReaches signedChar buf albuf file nrecs func s → s.place = .inner →
        ¬ Oversized signedChar file s.stop) ∧
    ((∃ fuel v, wlogScanBackward fuel signedChar buf albuf file nrecs func = some (.ok v)) ↔
      ∀ s, ScanReaches signedChar buf albuf file nrecs func s → s.place = .inner →
        ¬ Oversized signedChar file s.stop ∧ (Fits signedChar file s.offset.toNat s.stop →
          ∃ r, recordAt signedChar file s.albuf s.stop = .ok r)) := by
  simp only [wlogScanBackward_eq]
  rw [forall_inner_iff fun _ stop _ => ¬ Oversized signedChar file stop,
    forall_inner_iff fun off stop albuf => ¬ Oversized signedChar file stop ∧
      (Fits signedChar file off stop → ∃ r, recordAt signedChar file albuf stop = .ok r)]
  refine ⟨⟨fun hends a ha hplace hsize => ?_, exists_iterate_of_not_oversized⟩,
    fun ⟨fuel, v, hv⟩ a ha hplace => ⟨fun hsize => ?_, fun hfits => ?_⟩, fun h => ?_⟩
  · exact not_exists_iterate_of_oversized ha hplace hsize hends
  · exact not_exists_iterate_of_oversized ha hplace hsize ⟨fuel, _, hv⟩
  · cases hrecord : recordAt signedChar file a.albuf a.stop with
    | ok r => exact ⟨r, rfl⟩
    | error fault =>
      have hfault : iterate (lookStep signedChar file nrecs func) 1 a = some (.error fault) :=
        iterate_succ_inr (by simp only [lookStep, hplace, if_pos hfits, hrecord])
      obtain ⟨fuel', hv'⟩ := (exists_iterate_iff ha _).mp ⟨fuel, hv⟩
      cases iterate_unique hv' hfault
  · obtain ⟨fuel, r, hr⟩ := exists_iterate_of_not_oversized fun a ha hplace => (h a ha hplace).1
    obtain ⟨a, ha, hleave⟩ := exists_passes_of_iterate hr
    cases hplace : a.place with
    | outer =>
      simp only [lookStep, hplace] at hleave
      split_ifs at hleave
      exact ⟨fuel, _, by rw [hr, ← Sum.inr.inj hleave]⟩
    | inner =>
      simp only [lookStep, hplace] at hleave
      split_ifs at hleave with hfits
      obtain ⟨r', hrecord⟩ := (h a ha hplace).2 hfits
      simp [hrecord] at hleave

/-! ### Copies -/

/-- The fields for the lengths of path and pattern cannot hold more than the arrays. -/
theorem unpackFits_iff {rec : List UInt8} (h : rec.length ≤ wlogRecMaxSize) :
    UnpackFits rec ↔ WellFormed rec := by
  have hpath : WlogRecDisk.pathlen.get rec < 128 := Nat.mod_lt _ (by decide)
  have hpattern : WlogRecDisk.patternlen.get rec < 64 := Nat.mod_lt _ (by decide)
  exact ⟨fun hfits => ⟨h, hfits.host, hfits.inside⟩,
    fun hwell => ⟨by rw [wlogMaxPath]; omega, hwell.host, by rw [wlogMaxPattern]; omega,
      hwell.inside⟩⟩

/-- What is about to be taken is what the scan looks at. -/
theorem taking_iff (h : Follows file s a) (reclen : ℤ) :
    Taking signedChar s reclen ↔ a.place = .inner ∧ Fits signedChar file a.off a.stop ∧
      reclen = claimed signedChar file a.stop := by
  rw [Taking, h.place_eq]
  refine and_congr_right fun hplace => ?_
  obtain ⟨start, hbufstart, -, hshows⟩ := h.shows
  rw [Shows, hplace] at hshows
  obtain ⟨-, -, hcp, -⟩ := hshows
  have hlen : s.cp - s.bufstart = (a.stop - a.off : ℕ) := by omega
  rw [hlen]
  constructor
  · rintro ⟨htwo, ⟨high, low, hhigh, hlow, rfl⟩, hfits⟩
    obtain ⟨hhigh', hlow'⟩ := cells_follow h hplace (by omega)
    obtain rfl := Except.ok.inj (hhigh'.symm.trans hhigh)
    obtain rfl := Except.ok.inj (hlow'.symm.trans hlow)
    exact ⟨⟨by omega, hfits⟩, rfl⟩
  · rintro ⟨hfits, rfl⟩
    obtain ⟨hhigh, hlow⟩ := cells_follow h hplace hfits.1
    exact ⟨by have := hfits.1; omega, ⟨_, _, hhigh, hlow, rfl⟩, hfits.2⟩

/-- The bytes in the buffer are those of the file. -/
theorem slice_follows (h : Follows file s a) (hplace : a.place = .inner)
    (hfits : Fits signedChar file a.off a.stop) (hnonneg : 0 ≤ claimed signedChar file a.stop) :
    slice s.buf (s.cp - (claimed signedChar file a.stop + 2)).toNat
      (claimed signedChar file a.stop).toNat = recordBytes signedChar file a.stop ∧
    ((recordBytes signedChar file a.stop).length : ℤ) = claimed signedChar file a.stop := by
  obtain ⟨start, -, -, hshows⟩ := h.shows
  rw [Shows, hplace] at hshows
  obtain ⟨-, -, hcp, -, hslice⟩ := hshows
  have hstop := h.stop_le
  have hle := h.off_le
  have hin := hfits.2
  obtain ⟨n, hn⟩ := Int.eq_ofNat_of_zero_le hnonneg
  rw [hn] at hin
  obtain ⟨i, hi⟩ : ∃ i, i = a.stop - a.off - (n + 2) := ⟨_, rfl⟩
  have hbytes : recordBytes signedChar file a.stop = slice file (a.off + i) n := by
    rw [recordBytes, hn, Int.toNat_natCast, show a.stop - ((n : ℤ) + 2).toNat = a.off + i by omega]
  have hpos : (s.cp - ((n : ℤ) + 2)).toNat = start + i := by
    rw [hcp]
    omega
  rw [hbytes, hn, Int.toNat_natCast, hpos]
  exact ⟨slice_congr_of_le hslice (by omega), by rw [length_slice (by omega)]⟩

/-- **Copies.** All copies fit if and only if everything that the scan takes for a record is a
well-formed record. -/
theorem copiesFit_iff :
    (∀ s, ScanReaches signedChar buf albuf file nrecs func s → CopiesFit signedChar s) ↔
      ∀ s, ScanReaches signedChar buf albuf file nrecs func s → s.place = .inner →
        Fits signedChar file s.offset.toNat s.stop → 0 ≤ claimed signedChar file s.stop ∧
          WellFormed (recordBytes signedChar file s.stop) := by
  have hcopies : ∀ s a, Follows file s a → (CopiesFit signedChar s ↔ (s.place = .inner →
      Fits signedChar file s.offset.toNat s.stop → 0 ≤ claimed signedChar file s.stop ∧
        WellFormed (recordBytes signedChar file s.stop))) := by
    intro s a h
    rw [h.place_eq]
    constructor
    · intro hfit hplace
      obtain ⟨hoff, hstop⟩ := h.stop_eq hplace
      rw [hoff, hstop]
      intro hfits
      obtain ⟨hnonneg, hle, hunpack⟩ := hfit _ ((taking_iff h _).mpr ⟨hplace, hfits, rfl⟩)
      obtain ⟨hslice, hlen⟩ := slice_follows h hplace hfits hnonneg
      rw [hslice, unpackFits_iff (by omega)] at hunpack
      exact ⟨hnonneg, hunpack⟩
    · intro hwell reclen htaking
      obtain ⟨hplace, hfits, rfl⟩ := (taking_iff h reclen).mp htaking
      have hwell' := hwell hplace
      obtain ⟨hoff, hstop⟩ := h.stop_eq hplace
      rw [hoff, hstop] at hwell'
      obtain ⟨hnonneg, hrec⟩ := hwell' hfits
      obtain ⟨hslice, hlen⟩ := slice_follows h hplace hfits hnonneg
      have hle := hrec.length_le
      exact ⟨hnonneg, by omega, by rw [hslice]; exact (unpackFits_iff hle).mpr hrec⟩
  refine forall_congr' fun s => forall_congr' fun hs => ?_
  obtain ⟨a, -, hfollows⟩ := hs.exists_look
  exact hcopies s a hfollows

/-- The first chunk of a file that an `int` can tell the length of. -/
theorem lookReaches_chunk (hint : file.length < 2147483648) (hpos : 0 < file.length)
    (hnrecs : 0 ≤ nrecs) : LookReaches signedChar albuf file nrecs func
      ⟨.inner, file.length - sizeofBuf, file.length, 0, albuf.cells, []⟩ :=
  (lookReaches_start signedChar albuf nrecs func hint).step
    (lookStep_refill rfl (by dsimp only; omega) hpos)

end

/-- In a file of 16385 bytes 255 the last two claim a record of 65535 bytes, and one byte stands in
front of the buffer. -/
theorem ones_not_scanEnds : ¬ ∃ fuel r, wlogScanBackward fuel false (.fill _ 0) (.fill _ 0)
    (List.replicate 16385 255) 0 (fun _ => wlogContinueScan) = some r := by
  obtain ⟨file, hfile⟩ : ∃ file : List UInt8, file = List.replicate 16385 255 := ⟨_, rfl⟩
  have hlen : file.length = 16385 := by rw [hfile, List.length_replicate]
  have hbyte : ∀ i < 16385, file.getD i 0 = 255 := fun i hi => by
    rw [hfile, List.getD_replicate _ hi]
  have hclaimed : claimed false file file.length = 65535 := by
    rw [claimed, hbyte _ (by omega), hbyte _ (by omega)]
    rfl
  have hsize : sizeofBuf = 16384 := rfl
  rw [← hfile]
  simp only [wlogScanBackward_eq]
  exact not_exists_iterate_of_oversized (lookReaches_chunk (by omega) (by omega) le_rfl) rfl
    ⟨by dsimp only; omega, by rw [hclaimed]; omega⟩

/-- In a file of 458 bytes the last two claim a record of 456, which is longer than `albuf`. -/
theorem longRecord_not_copiesFit : ¬ ∀ s, ScanReaches false (.fill _ 0) (.fill _ 0)
    (List.replicate 456 0 ++ [1, 200]) 0 (fun _ => wlogContinueScan) s → CopiesFit false s := by
  obtain ⟨file, hfile⟩ : ∃ file : List UInt8, file = List.replicate 456 0 ++ [1, 200] := ⟨_, rfl⟩
  have hlen : file.length = 458 := by rw [hfile, List.length_append, List.length_replicate]; rfl
  have hclaimed : claimed false file file.length = 456 := by
    rw [claimed, hlen, hfile, List.getD_append_right _ _ _ _ (by rw [List.length_replicate]),
      List.getD_append_right _ _ _ _ (by rw [List.length_replicate]; omega),
      List.length_replicate]
    rfl
  have hsize : sizeofBuf = 16384 := rfl
  have hmax : wlogRecMaxSize = 450 := rfl
  rw [← hfile]
  intro h
  obtain ⟨s, hs, hfollows⟩ := Passes.exists_scan (.fill _ 0)
    (@lookReaches_chunk false (.fill _ 0) file 0 (fun _ => wlogContinueScan) (by omega) (by omega)
      le_rfl)
  have hfits : Fits false file (file.length - sizeofBuf) file.length :=
    ⟨by omega, by rw [hclaimed]; omega⟩
  have hcopies := h s hs _ ((taking_iff hfollows _).mpr ⟨rfl, hfits, rfl⟩)
  dsimp only at hcopies
  rw [hclaimed] at hcopies
  omega

end WriteLog

end SnowballLtp
