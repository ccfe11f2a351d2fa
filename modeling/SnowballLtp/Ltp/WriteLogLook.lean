import SnowballLtp.Ltp.WriteLogScan

/-!
# What a scan looks at

The buffer of `wlog_scan_backward` always shows a part of the file: in the inner loop the part from
`off`, where its first byte comes from, up to the end `stop` of what has not been taken, and in the
outer loop the part that is left over. So the scan can be followed on the file alone, whatever the
bytes of the file are and whether plain `char` is signed or not. Such a step sees two numbers and
the bytes between them, and nothing of the places in the buffer.

A file that is longer than an `int` can tell is scanned from the place where the `int` points.

## Main definitions

* `Look`, `lookStep`: the scan without its buffer.
* `Follows`: the part of the file that a state of the scan shows.
* `Next`: the record that is taken next.

## Main results

* `scanStep_simulates`: the scan follows what it looks at.
* `wlogScanBackward_eq`: both have the same result.
* `exists_call_iff`: the next call.
-/

namespace SnowballLtp

namespace WriteLog

/-- What the scan looks at, from `off` up to `stop`; the other components are those of
`ScanState`. -/
structure Look where
  place : Place
  off : ℕ
  stop : ℕ
  recnum : ℤ
  albuf : List UInt8
  calls : List WlogRec

section

variable (signedChar : Bool) (file : List UInt8) (nrecs : ℤ) (func : List WlogRec → ℤ)

/-- The length of a record as the two bytes in front of `stop` give it. -/
def claimed (stop : ℕ) : ℤ :=
  charValue signedChar (file.getD (stop - 2) 0) * 256 +
    charValue signedChar (file.getD (stop - 1) 0)

/-- The record in front of `stop` and its two bytes begin behind `off`. -/
def Fits (off stop : ℕ) : Prop :=
  2 ≤ stop - off ∧ claimed signedChar file stop + 2 ≤ (stop - off : ℕ)

instance (off stop : ℕ) : Decidable (Fits signedChar file off stop) :=
  inferInstanceAs (Decidable (_ ∧ _))

/-- The record in front of `stop`: the contents of `albuf` and what is unpacked from it. -/
def recordAt (albuf : List UInt8) (stop : ℕ) : Except Fault (List UInt8 × WlogRec) :=
  let reclen := claimed signedChar file stop
  match memcpy albuf 0 file (stop - (reclen + 2)) reclen with
  | .ok albuf => (wlogRecUnpack albuf).map (albuf, ·)
  | .error fault => .error fault

/-- Behind the call of the callback. -/
def Look.called (a : Look) (albuf : List UInt8) (wrec : WlogRec) : Look :=
  let calls := a.calls ++ [wrec]
  if func calls = wlogStopScan then ⟨.outer, a.off, a.off, a.recnum, albuf, calls⟩
  else
    let recnum := a.recnum + 1
    if nrecs ≠ 0 ∧ recnum ≥ nrecs then ⟨.outer, a.off, a.off, recnum, albuf, calls⟩
    else ⟨.inner, a.off, a.stop - (claimed signedChar file a.stop + 2).toNat, recnum, albuf, calls⟩

/-- A pass of the loop that the function has reached. -/
def lookStep (a : Look) : Look ⊕ Except Fault (ℤ × List WlogRec) :=
  match a.place with
  | .outer =>
    if (nrecs = 0 ∨ a.recnum < nrecs) ∧ 0 < a.off then
      .inl { a with place := .inner, off := a.stop - sizeofBuf }
    else .inr (.ok (0, a.calls))
  | .inner =>
    if Fits signedChar file a.off a.stop then
      match recordAt signedChar file a.albuf a.stop with
      | .ok (albuf, wrec) => .inl (a.called signedChar file nrecs func albuf wrec)
      | .error fault => .inr (.error fault)
    else .inl { a with place := .outer }

/-- The first look: in front of the place where the `int` points. -/
def Look.start (albuf : List UInt8) : Look :=
  ⟨.outer, (int32 file.length).toNat, (int32 file.length).toNat, 0, albuf, []⟩

/-- The variables of the scan at first. -/
def ScanState.start (buf : CArray UInt8 sizeofBuf) (albuf : CArray UInt8 wlogRecMaxSize) :
    ScanState :=
  { place := .outer, offset := int32 file.length, leftover := 0, bufstart := 0, cp := 0
    recnum := 0, buf := buf.cells, albuf := albuf.cells, calls := [] }

/-- The part of the buffer that the loop goes on with shows what the scan looks at. -/
def Shows (s : ScanState) (a : Look) (start : ℕ) : Prop :=
  match a.place with
  | .outer => s.offset.toNat = a.off ∧ s.leftover = (a.stop - a.off : ℕ) ∧
      slice s.buf (sizeofBuf - (a.stop - a.off)) (a.stop - a.off) =
        slice file a.off (a.stop - a.off)
  | .inner => s.offset = a.off ∧ s.leftover = 0 ∧ s.cp = (start + (a.stop - a.off) : ℕ) ∧
      start + (a.stop - a.off) ≤ sizeofBuf ∧
      slice s.buf start (a.stop - a.off) = slice file a.off (a.stop - a.off)

/-- The scan has reached the place and looks at the part of the file that `a` gives. -/
structure Follows (s : ScanState) (a : Look) : Prop where
  place_eq : s.place = a.place
  recnum_eq : s.recnum = a.recnum
  albuf_eq : s.albuf = a.albuf
  calls_eq : s.calls = a.calls
  length_buf : s.buf.length = sizeofBuf
  off_le : a.off ≤ a.stop
  near : a.stop - a.off ≤ sizeofBuf
  stop_le : a.stop ≤ file.length
  stop_lt : a.stop < 2147483648
  shows : ∃ start : ℕ, s.bufstart = start ∧ (start = 0 ∨ a.off = 0) ∧ Shows file s a start

end

/-! ### The steps -/

section

variable {signedChar : Bool} {file : List UInt8} {nrecs : ℤ} {func : List WlogRec → ℤ}
  {s : ScanState} {a : Look}

theorem follows_start (buf : CArray UInt8 sizeofBuf) (albuf : CArray UInt8 wlogRecMaxSize) :
    Follows file (ScanState.start file buf albuf) (Look.start file albuf.cells) := by
  have hlow : int32 file.length ≤ file.length ∧ int32 file.length < 2147483648 := by
    rw [int32]
    omega
  refine ⟨rfl, rfl, rfl, rfl, buf.length_eq, Nat.le_refl _, by simp [Look.start], ?_, ?_, 0, rfl,
    .inl rfl, by simp [Shows, ScanState.start, Look.start, slice]⟩
  · dsimp only [Look.start]
    omega
  · dsimp only [Look.start]
    omega

/-- Reading a chunk. -/
theorem refill_follows (h : Follows file s a) (hplace : a.place = .outer) (hoff : 0 < a.off) :
    ∃ s', refill file s = .ok s' ∧
      Follows file s' { a with place := .inner, off := a.stop - sizeofBuf } := by
  obtain ⟨start, hbufstart, hlast, hshows⟩ := h.shows
  rw [Shows, hplace] at hshows
  obtain ⟨hoffset, hleftover, hslice⟩ := hshows
  obtain rfl : start = 0 := hlast.resolve_right hoff.ne'
  have hle := h.off_le
  have hstop := h.stop_le
  have hlt := h.stop_lt
  have hsum : a.off + (a.stop - a.off) = a.stop := by omega
  obtain ⟨buf, hrefill, hbuf, hnew⟩ := refill_eq_ok (show s.offset = a.off by omega) hleftover
    hbufstart h.length_buf hoff h.near (by rw [hsum]; exact hstop) (by rw [hsum]; exact hlt) hslice
  rw [hsum] at hrefill hnew
  have hwindow : sizeofBuf - (sizeofBuf - a.stop) = a.stop - (a.stop - sizeofBuf) := by omega
  rw [hwindow] at hnew
  refine ⟨_, hrefill, ⟨rfl, h.recnum_eq, h.albuf_eq, h.calls_eq, hbuf, Nat.sub_le _ _, ?_, hstop,
    hlt, sizeofBuf - a.stop, rfl, ?_, rfl, rfl, ?_, ?_, hnew⟩⟩
  all_goals
    dsimp only
    omega

/-- Moving what is left over. -/
theorem carryOver_follows (h : Follows file s a) (hplace : a.place = .inner) :
    ∃ s', carryOver s = .ok s' ∧ Follows file s' { a with place := .outer } := by
  obtain ⟨start, hbufstart, hlast, hshows⟩ := h.shows
  rw [Shows, hplace] at hshows
  obtain ⟨hoffset, hleftover, hcp, hend, hslice⟩ := hshows
  obtain ⟨buf, hcarry, hbuf, hmoved⟩ :=
    carryOver_eq_ok hcp hbufstart h.length_buf (Nat.le_add_right _ _) hend
  rw [Nat.add_sub_cancel_left] at hcarry hmoved
  exact ⟨_, hcarry, ⟨rfl, h.recnum_eq, h.albuf_eq, h.calls_eq, hbuf, h.off_le, h.near, h.stop_le,
    h.stop_lt, start, hbufstart, hlast, by dsimp only; omega, rfl, hmoved.trans hslice⟩⟩

/-- The two bytes that give the length. -/
theorem cells_follow (h : Follows file s a) (hplace : a.place = .inner)
    (htwo : 2 ≤ a.stop - a.off) :
    cell s.buf (s.cp - 2) = .ok (file.getD (a.stop - 2) 0) ∧
      cell s.buf (s.cp - 1) = .ok (file.getD (a.stop - 1) 0) := by
  obtain ⟨start, -, -, hshows⟩ := h.shows
  rw [Shows, hplace] at hshows
  obtain ⟨-, -, hcp, -, hslice⟩ := hshows
  have hstop := h.stop_le
  have hcell : ∀ i : ℕ, 1 ≤ i → i ≤ 2 → cell s.buf (s.cp - i) = .ok (file.getD (a.stop - i) 0) := by
    intro i hone htwo'
    have hin : a.stop - i < file.length := by omega
    have hget := (slice_eq_slice_iff _ _ _ _ _).mp hslice (a.stop - a.off - i) (by omega)
    rw [show a.off + (a.stop - a.off - i) = a.stop - i by omega,
      List.getElem?_eq_getElem hin] at hget
    rw [hcp, show ((start + (a.stop - a.off) : ℕ) : ℤ) - i =
      (start + (a.stop - a.off - i) : ℕ) by omega, cell_eq_ok hget, List.getD_eq_getElem _ _ hin]
  exact ⟨hcell 2 (by decide) (by decide), hcell 1 (by decide) (by decide)⟩

/-- The record is the same in the buffer and in the file. -/
theorem load_follows (h : Follows file s a) (hplace : a.place = .inner) {reclen : ℤ}
    (hfits : reclen + 2 ≤ (a.stop - a.off : ℕ)) :
    load s.buf (s.cp - (reclen + 2)) reclen = load file (a.stop - (reclen + 2)) reclen := by
  obtain ⟨start, -, -, hshows⟩ := h.shows
  rw [Shows, hplace] at hshows
  obtain ⟨-, -, hcp, hend, hslice⟩ := hshows
  have hstop := h.stop_le
  have hbuf := h.length_buf
  have hoff := h.off_le
  by_cases hneg : reclen < 0
  · rw [load, load, if_pos hneg, if_pos hneg]
  obtain ⟨n, rfl⟩ : ∃ n : ℕ, reclen = n := ⟨reclen.toNat, by omega⟩
  obtain ⟨i, hi⟩ : ∃ i, i = a.stop - a.off - (n + 2) := ⟨_, rfl⟩
  rw [hcp, show ((start + (a.stop - a.off) : ℕ) : ℤ) - (n + 2) = (start + i : ℕ) by omega,
    show ((a.stop : ℕ) : ℤ) - (n + 2) = (a.off + i : ℕ) by omega,
    load_eq_ok _ _ _ (by omega), load_eq_ok _ _ _ (by omega),
    slice_congr_of_le hslice (by omega)]

/-- Taking a record. -/
theorem takeRecord_follows (h : Follows file s a) (hplace : a.place = .inner)
    (hfits : Fits signedChar file a.off a.stop) :
    (∃ s' albuf wrec, takeRecord nrecs func (claimed signedChar file a.stop) s = .ok s' ∧
        recordAt signedChar file a.albuf a.stop = .ok (albuf, wrec) ∧
        Follows file s' (a.called signedChar file nrecs func albuf wrec)) ∨
      ∃ fault, takeRecord nrecs func (claimed signedChar file a.stop) s = .error fault ∧
        recordAt signedChar file a.albuf a.stop = .error fault := by
  have hload := load_follows h hplace hfits.2
  have hmemcpy : memcpy s.albuf 0 s.buf (s.cp - (claimed signedChar file a.stop + 2))
      (claimed signedChar file a.stop) = memcpy a.albuf 0 file
        (a.stop - (claimed signedChar file a.stop + 2)) (claimed signedChar file a.stop) := by
    rw [memcpy, memcpy, hload, h.albuf_eq]
  obtain ⟨start, hbufstart, hlast, hshows⟩ := h.shows
  rw [Shows, hplace] at hshows
  obtain ⟨hoffset, hleftover, hcp, hend, hslice⟩ := hshows
  have hoff := h.off_le
  have hnear := h.near
  have hstop := h.stop_le
  have hlt := h.stop_lt
  rw [takeRecord, recordAt, hmemcpy]
  cases hcopy : memcpy a.albuf 0 file (a.stop - (claimed signedChar file a.stop + 2))
      (claimed signedChar file a.stop) with
  | error fault => exact .inr ⟨fault, rfl, rfl⟩
  | ok albuf =>
    have hnonneg := (memcpy_inv hcopy).1
    obtain ⟨n, hn⟩ := Int.eq_ofNat_of_zero_le hnonneg
    have hfits' := hfits.2
    rw [hn] at hfits' ⊢
    cases hunpack : wlogRecUnpack albuf with
    | error fault => exact .inr ⟨fault, by simp [hunpack], by simp [hunpack, Except.map]⟩
    | ok wrec =>
      refine .inl ?_
      have hstep : a.stop - (claimed signedChar file a.stop + 2).toNat = a.stop - (n + 2) := by
        rw [hn]
        omega
      -- behind the callback nothing is left over, wherever the function goes
      have houter : ∀ recnum calls cp, Follows file
          { s with place := .outer, cp, recnum, albuf, calls }
          ⟨.outer, a.off, a.off, recnum, albuf, calls⟩ := fun recnum calls cp =>
        ⟨rfl, rfl, rfl, rfl, h.length_buf, Nat.le_refl _, by simp, by dsimp only; omega,
          by dsimp only; omega, start, hbufstart, hlast, by simp [Shows, hoffset, hleftover, slice]⟩
      have hinner : ∀ recnum calls, Follows file
          { s with place := .inner, cp := s.cp - (n + 2), recnum, albuf, calls }
          ⟨.inner, a.off, a.stop - (n + 2), recnum, albuf, calls⟩ := by
        intro recnum calls
        have hfront := slice_congr_of_le hslice (i := 0) (n := a.stop - (n + 2) - a.off) (by omega)
        simp only [Nat.add_zero] at hfront
        exact ⟨rfl, rfl, rfl, rfl, h.length_buf, by dsimp only; omega, by dsimp only; omega,
          by dsimp only; omega, by dsimp only; omega, start, hbufstart, hlast, hoffset, hleftover,
          by dsimp only; omega, by dsimp only; omega, hfront⟩
      dsimp only
      rw [hunpack]
      simp only [Look.called, hstep, ← h.calls_eq, ← h.recnum_eq, Except.map]
      by_cases hstopped : func (s.calls ++ [wrec]) = wlogStopScan
      · simp only [if_pos hstopped]
        exact ⟨_, albuf, wrec, rfl, rfl, by simpa only [if_pos hstopped] using houter _ _ _⟩
      · simp only [if_neg hstopped]
        by_cases hreached : nrecs ≠ 0 ∧ s.recnum + 1 ≥ nrecs
        · exact ⟨_, albuf, wrec, rfl, rfl, by
            simpa only [if_neg hstopped, if_pos hreached] using houter _ _ _⟩
        · exact ⟨_, albuf, wrec, rfl, rfl, by
            simpa only [if_neg hstopped, if_neg hreached] using hinner _ _⟩

/-- A pass of the inner loop. -/
theorem innerStep_follows (h : Follows file s a) (hplace : a.place = .inner) :
    innerStep signedChar nrecs func s =
      if Fits signedChar file a.off a.stop then
        goOn (takeRecord nrecs func (claimed signedChar file a.stop) s)
      else goOn (carryOver s) := by
  obtain ⟨start, hbufstart, hlast, hshows⟩ := h.shows
  rw [Shows, hplace] at hshows
  obtain ⟨-, -, hcp, -, -⟩ := hshows
  have hlen : s.cp - s.bufstart = (a.stop - a.off : ℕ) := by omega
  rw [innerStep, hlen, if_pos (by omega)]
  by_cases htwo : a.stop - a.off < 2
  · rw [if_pos (by omega), if_neg fun hfits : Fits signedChar file a.off a.stop =>
      absurd hfits.1 (by omega)]
  · obtain ⟨hhigh, hlow⟩ := cells_follow h hplace (by omega)
    rw [if_neg (by omega), hhigh, hlow]
    dsimp only
    rw [← claimed]
    by_cases hfits : Fits signedChar file a.off a.stop
    · rw [if_pos hfits, if_neg (not_lt.mpr hfits.2)]
    · rw [if_neg hfits, if_pos (lt_of_not_ge fun hle => hfits ⟨by omega, hle⟩)]

/-- **The scan follows what it looks at.** -/
theorem scanStep_simulates : Simulates (scanStep signedChar file nrecs func)
    (lookStep signedChar file nrecs func) (Follows file) := by
  intro s a h
  cases hplace : a.place with
  | outer =>
    obtain ⟨start, hbufstart, hlast, hshows⟩ := h.shows
    rw [Shows, hplace] at hshows
    have hguard : ((nrecs = 0 ∨ s.recnum < nrecs) ∧ s.offset > 0) ↔
        (nrecs = 0 ∨ a.recnum < nrecs) ∧ 0 < a.off := by
      rw [h.recnum_eq, ← hshows.1, gt_iff_lt, Int.lt_toNat]
      rfl
    simp only [scanStep, lookStep, h.place_eq, hplace, hguard]
    by_cases hmore : (nrecs = 0 ∨ a.recnum < nrecs) ∧ 0 < a.off
    · obtain ⟨s', hrefill, hfollows⟩ := refill_follows h hplace hmore.2
      exact .inl ⟨s', _, by rw [if_pos hmore, hrefill]; rfl, if_pos hmore, hfollows⟩
    · exact .inr ⟨_, if_neg hmore, by rw [if_neg hmore, h.calls_eq]⟩
  | inner =>
    simp only [scanStep, lookStep, h.place_eq, hplace, innerStep_follows h hplace]
    by_cases hfits : Fits signedChar file a.off a.stop
    · simp only [if_pos hfits]
      obtain ⟨s', albuf, wrec, htake, hrecord, hfollows⟩ | ⟨fault, htake, hrecord⟩ :=
        @takeRecord_follows signedChar file nrecs func s a h hplace hfits
      · exact .inl ⟨s', _, by rw [htake]; rfl, by rw [hrecord], hfollows⟩
      · exact .inr ⟨_, by rw [htake]; rfl, by rw [hrecord]⟩
    · simp only [if_neg hfits]
      obtain ⟨s', hcarry, hfollows⟩ := carryOver_follows h hplace
      exact .inl ⟨s', _, by rw [hcarry]; rfl, rfl, hfollows⟩

/-- **The scan without its buffer** has the same result. -/
theorem wlogScanBackward_eq (fuel : ℕ) (buf : CArray UInt8 sizeofBuf)
    (albuf : CArray UInt8 wlogRecMaxSize) :
    wlogScanBackward fuel signedChar buf albuf file nrecs func =
      iterate (lookStep signedChar file nrecs func) fuel (Look.start file albuf.cells) :=
  iterate_eq_of_simulates scanStep_simulates fuel (follows_start buf albuf)

/-- The scan with the given contents of its buffers comes to the state `s`. -/
def ScanReaches (signedChar : Bool) (buf : CArray UInt8 sizeofBuf)
    (albuf : CArray UInt8 wlogRecMaxSize) (file : List UInt8) (nrecs : ℤ)
    (func : List WlogRec → ℤ) (s : ScanState) : Prop :=
  Passes (scanStep signedChar file nrecs func) (ScanState.start file buf albuf) s

/-- What the scan comes to look at. -/
abbrev LookReaches (signedChar : Bool) (albuf : CArray UInt8 wlogRecMaxSize) (file : List UInt8)
    (nrecs : ℤ) (func : List WlogRec → ℤ) (a : Look) : Prop :=
  Passes (lookStep signedChar file nrecs func) (Look.start file albuf.cells) a

theorem ScanReaches.exists_look {buf : CArray UInt8 sizeofBuf} {albuf : CArray UInt8 wlogRecMaxSize}
    (h : ScanReaches signedChar buf albuf file nrecs func s) :
    ∃ a, LookReaches signedChar albuf file nrecs func a ∧ Follows file s a :=
  scanStep_simulates.exists_right (follows_start buf albuf) h

theorem Passes.exists_scan (buf : CArray UInt8 sizeofBuf) {albuf : CArray UInt8 wlogRecMaxSize}
    (h : LookReaches signedChar albuf file nrecs func a) :
    ∃ s, ScanReaches signedChar buf albuf file nrecs func s ∧ Follows file s a :=
  scanStep_simulates.exists_left (follows_start buf albuf) h

/-! ### One step -/

theorem lookStep_refill (hplace : a.place = .outer) (hwanted : nrecs = 0 ∨ a.recnum < nrecs)
    (hoff : 0 < a.off) : lookStep signedChar file nrecs func a =
      .inl { a with place := .inner, off := a.stop - sizeofBuf } := by
  simp only [lookStep, hplace, if_pos (And.intro hwanted hoff)]

theorem lookStep_carry (hplace : a.place = .inner)
    (hfits : ¬ Fits signedChar file a.off a.stop) :
    lookStep signedChar file nrecs func a = .inl { a with place := .outer } := by
  simp only [lookStep, hplace, if_neg hfits]

theorem lookStep_take {albuf : List UInt8} {wrec : WlogRec} (hplace : a.place = .inner)
    (hfits : Fits signedChar file a.off a.stop)
    (hrecord : recordAt signedChar file a.albuf a.stop = .ok (albuf, wrec)) :
    lookStep signedChar file nrecs func a =
      .inl (a.called signedChar file nrecs func albuf wrec) := by
  simp only [lookStep, hplace, if_pos hfits, hrecord]

/-- A record that can be taken has a length. -/
theorem claimed_nonneg_of_recordAt {albuf : List UInt8} {stop : ℕ} {r : List UInt8 × WlogRec}
    (h : recordAt signedChar file albuf stop = .ok r) : 0 ≤ claimed signedChar file stop := by
  simp only [recordAt] at h
  cases hcopy : memcpy albuf 0 file (stop - (claimed signedChar file stop + 2))
      (claimed signedChar file stop) with
  | error fault => simp [hcopy] at h
  | ok obj => exact (memcpy_inv hcopy).1

/-- The cases of a step that goes on. -/
theorem lookStep_cases {b : Look} (h : lookStep signedChar file nrecs func a = .inl b) :
    (a.place = .outer ∧ (nrecs = 0 ∨ a.recnum < nrecs) ∧ 0 < a.off ∧
      b = { a with place := .inner, off := a.stop - sizeofBuf }) ∨
    (a.place = .inner ∧ ¬ Fits signedChar file a.off a.stop ∧ b = { a with place := .outer }) ∨
    (a.place = .inner ∧ Fits signedChar file a.off a.stop ∧ ∃ albuf wrec,
      recordAt signedChar file a.albuf a.stop = .ok (albuf, wrec) ∧
      b = a.called signedChar file nrecs func albuf wrec) := by
  cases hplace : a.place with
  | outer =>
    simp only [lookStep, hplace] at h
    split_ifs at h with hmore
    exact .inl ⟨rfl, hmore.1, hmore.2, (Sum.inl.inj h).symm⟩
  | inner =>
    simp only [lookStep, hplace] at h
    split_ifs at h with hfits
    · cases hrecord : recordAt signedChar file a.albuf a.stop with
      | error fault => simp [hrecord] at h
      | ok r =>
        simp only [hrecord] at h
        exact .inr (.inr ⟨rfl, hfits, r.1, r.2, rfl, (Sum.inl.inj h).symm⟩)
    · exact .inr (.inl ⟨rfl, hfits, (Sum.inl.inj h).symm⟩)

/-- The cases behind the callback. -/
theorem Look.called_cases (signedChar : Bool) (file : List UInt8) (nrecs : ℤ)
    (func : List WlogRec → ℤ) (a : Look) (albuf : List UInt8) (wrec : WlogRec) :
    (func (a.calls ++ [wrec]) = wlogStopScan ∧ a.called signedChar file nrecs func albuf wrec =
      ⟨.outer, a.off, a.off, a.recnum, albuf, a.calls ++ [wrec]⟩) ∨
    (func (a.calls ++ [wrec]) ≠ wlogStopScan ∧ nrecs ≠ 0 ∧ nrecs ≤ a.recnum + 1 ∧
      a.called signedChar file nrecs func albuf wrec =
        ⟨.outer, a.off, a.off, a.recnum + 1, albuf, a.calls ++ [wrec]⟩) ∨
    (func (a.calls ++ [wrec]) ≠ wlogStopScan ∧ (nrecs = 0 ∨ a.recnum + 1 < nrecs) ∧
      a.called signedChar file nrecs func albuf wrec =
        ⟨.inner, a.off, a.stop - (claimed signedChar file a.stop + 2).toNat, a.recnum + 1, albuf,
          a.calls ++ [wrec]⟩) := by
  simp only [Look.called]
  by_cases hstopped : func (a.calls ++ [wrec]) = wlogStopScan
  · exact .inl ⟨hstopped, if_pos hstopped⟩
  · rw [if_neg hstopped]
    by_cases hreached : nrecs ≠ 0 ∧ a.recnum + 1 ≥ nrecs
    · exact .inr (.inl ⟨hstopped, hreached.1, hreached.2, if_pos hreached⟩)
    · exact .inr (.inr ⟨hstopped, by omega, if_neg hreached⟩)

theorem Look.calls_called (a : Look) (albuf : List UInt8) (wrec : WlogRec) :
    (a.called signedChar file nrecs func albuf wrec).calls = a.calls ++ [wrec] := by
  obtain ⟨-, h⟩ | ⟨-, -, -, h⟩ | ⟨-, -, h⟩ :=
    Look.called_cases signedChar file nrecs func a albuf wrec
  all_goals rw [h]

/-- In the inner loop, and when the callback has stopped it, more records are wanted. -/
theorem wanted_of_reaches {albuf : CArray UInt8 wlogRecMaxSize}
    (h : LookReaches signedChar albuf file nrecs func a)
    (hplace : a.place = .inner ∨ a.calls ≠ [] ∧ func a.calls = wlogStopScan) :
    nrecs = 0 ∨ a.recnum < nrecs := by
  revert hplace
  refine h.invariant (fun a => (a.place = .inner ∨ a.calls ≠ [] ∧ func a.calls = wlogStopScan) →
    nrecs = 0 ∨ a.recnum < nrecs) (by simp [Look.start]) fun a b ih hstep hend => ?_
  obtain ⟨-, hmore, -, rfl⟩ | ⟨hinner, -, rfl⟩ | ⟨hinner, -, albuf, wrec, -, rfl⟩ :=
    lookStep_cases hstep
  · exact hmore
  · exact ih (.inl hinner)
  · have hwanted := ih (.inl hinner)
    obtain ⟨-, hb⟩ | ⟨hgo, -, -, hb⟩ | ⟨-, hmore, hb⟩ :=
      Look.called_cases signedChar file nrecs func a albuf wrec
    · rw [hb]
      exact hwanted
    · rw [hb] at hend
      exact absurd (hend.resolve_left (by simp)).2 hgo
    · rw [hb]
      exact hmore

/-- A file whose length an `int` can tell is scanned from its end. -/
theorem Look.start_eq (albuf : List UInt8) (hint : file.length < 2147483648) :
    Look.start file albuf = ⟨.outer, file.length, file.length, 0, albuf, []⟩ := by
  rw [Look.start, int32_eq_self ⟨by omega, by omega⟩, Int.toNat_natCast]

theorem lookReaches_start (signedChar : Bool) (albuf : CArray UInt8 wlogRecMaxSize)
    (nrecs : ℤ) (func : List WlogRec → ℤ) (hint : file.length < 2147483648) :
    LookReaches signedChar albuf file nrecs func
      ⟨.outer, file.length, file.length, 0, albuf.cells, []⟩ :=
  Look.start_eq albuf.cells hint ▸ Passes.refl _

/-! ### The next call -/

/-- More records are wanted, and the chunk that ends at `a.stop` ends with the record `wrec`: the
length that its last two bytes claim fits into it, and so many bytes can be copied to `albuf` and
are unpacked to `wrec`. -/
def Next (signedChar : Bool) (file : List UInt8) (nrecs : ℤ) (a : Look) (wrec : WlogRec) : Prop :=
  (nrecs = 0 ∨ a.recnum < nrecs) ∧ Fits signedChar file (a.stop - sizeofBuf) a.stop ∧
    ∃ albuf, recordAt signedChar file a.albuf a.stop = .ok (albuf, wrec)

section Next

variable {b : Look} {albuf : CArray UInt8 wlogRecMaxSize} {wrec : WlogRec}

/-- Calls are only added. -/
theorem prefix_calls (h : Passes (lookStep signedChar file nrecs func) a b) :
    a.calls <+: b.calls := by
  refine h.invariant (a.calls <+: ·.calls) (List.prefix_refl _) fun b c hb hstep => ?_
  obtain ⟨-, -, -, rfl⟩ | ⟨-, -, rfl⟩ | ⟨-, -, albuf', wrec, -, rfl⟩ := lookStep_cases hstep
  · exact hb
  · exact hb
  · rw [Look.calls_called]
    exact hb.trans (List.prefix_append _ _)

/-- Between two calls the scan stays at its place, with the contents of `albuf`. -/
theorem same_of_calls_eq (h : Passes (lookStep signedChar file nrecs func) a b)
    (hcalls : b.calls = a.calls) :
    b.stop = a.stop ∧ b.recnum = a.recnum ∧ b.albuf = a.albuf := by
  induction h with
  | refl => exact ⟨rfl, rfl, rfl⟩
  | @tail b c hb hstep ih =>
    obtain ⟨-, -, -, rfl⟩ | ⟨-, -, rfl⟩ | ⟨-, -, albuf', wrec, -, rfl⟩ := lookStep_cases hstep
    · exact ih hcalls
    · exact ih hcalls
    · rw [Look.calls_called] at hcalls
      have hle := (prefix_calls hb).length_le
      rw [← hcalls, List.length_append, List.length_singleton] at hle
      omega

/-- What the scan looks at is a part of the file that fits into the buffer. -/
theorem bounds_of_reaches (h : LookReaches signedChar albuf file nrecs func a) :
    a.off ≤ a.stop ∧ a.stop - a.off ≤ sizeofBuf := by
  obtain ⟨s, -, hfollows⟩ := Passes.exists_scan (.fill _ 0) h
  exact ⟨hfollows.off_le, hfollows.near⟩

theorem Fits.mono {off off' stop : ℕ} (h : Fits signedChar file off stop) (hle : off' ≤ off) :
    Fits signedChar file off' stop := by
  have htwo := h.1
  have hclaimed := h.2
  exact ⟨by omega, by omega⟩

/-- In the outer loop nothing is left over, or no whole record is. -/
theorem not_fits_of_outer (h : LookReaches signedChar albuf file nrecs func a)
    (hplace : a.place = .outer) : ¬ Fits signedChar file a.off a.stop := by
  revert hplace
  have hempty : ∀ off, ¬ Fits signedChar file off off := fun off hfits => by
    have htwo := hfits.1
    omega
  refine h.invariant (fun a => a.place = .outer → ¬ Fits signedChar file a.off a.stop)
    (fun _ => hempty _) fun a b _ hstep => ?_
  obtain ⟨-, -, -, rfl⟩ | ⟨-, hfits, rfl⟩ | ⟨-, -, albuf', wrec, -, rfl⟩ := lookStep_cases hstep
  · exact fun hplace => nomatch hplace
  · exact fun _ => hfits
  · obtain ⟨-, hb⟩ | ⟨-, -, -, hb⟩ | ⟨-, -, hb⟩ :=
      Look.called_cases signedChar file nrecs func a albuf' wrec
    · exact hb ▸ fun _ => hempty _
    · exact hb ▸ fun _ => hempty _
    · exact hb ▸ fun hplace => nomatch hplace

/-- The scan comes to look at the whole of a record that ends a chunk. -/
theorem exists_fits (h : LookReaches signedChar albuf file nrecs func a)
    (hwanted : nrecs = 0 ∨ a.recnum < nrecs)
    (hchunk : Fits signedChar file (a.stop - sizeofBuf) a.stop) :
    ∃ off, LookReaches signedChar albuf file nrecs func { a with place := .inner, off } ∧
      Fits signedChar file off a.stop := by
  have hnear := (bounds_of_reaches h).2
  -- where the whole record is not in the buffer the file does not begin there
  have hoff : ¬ Fits signedChar file a.off a.stop → 0 < a.off := fun hnot => by
    by_contra hzero
    exact hnot (by rwa [show a.stop - sizeofBuf = a.off by omega] at hchunk)
  cases hplace : a.place with
  | outer =>
    exact ⟨_, h.step (lookStep_refill hplace hwanted (hoff (not_fits_of_outer h hplace))), hchunk⟩
  | inner =>
    by_cases hfits : Fits signedChar file a.off a.stop
    · exact ⟨a.off, by rw [← hplace]; exact h, hfits⟩
    · exact ⟨_, (h.step (lookStep_carry hplace hfits)).step
        (lookStep_refill rfl hwanted (hoff hfits)), hchunk⟩

/-- **The next call** of a scan. -/
theorem exists_call_iff (h : LookReaches signedChar albuf file nrecs func a) :
    (∃ b, LookReaches signedChar albuf file nrecs func b ∧ b.calls = a.calls ++ [wrec]) ↔
      Next signedChar file nrecs a wrec := by
  constructor
  · rintro ⟨b, hb, hcalls⟩
    have hpasses : Passes (lookStep signedChar file nrecs func) a b := by
      refine (h.total hb).resolve_right fun hback => ?_
      have hle := (prefix_calls hback).length_le
      rw [hcalls, List.length_append, List.length_singleton] at hle
      omega
    clear hb
    induction hpasses with
    | refl => simp at hcalls
    | @tail b c hb hstep ih =>
      obtain ⟨-, -, -, rfl⟩ | ⟨-, -, rfl⟩ | ⟨hinner, hfits, albuf', wrec', hrecord, rfl⟩ :=
        lookStep_cases hstep
      · exact ih hcalls
      · exact ih hcalls
      · rw [Look.calls_called] at hcalls
        obtain ⟨hbefore, hwrec⟩ := List.append_inj' hcalls rfl
        obtain rfl := List.singleton_injective hwrec
        obtain ⟨hstop, hrecnum, halbuf⟩ := same_of_calls_eq hb hbefore
        have hreach : LookReaches signedChar albuf file nrecs func b := h.trans hb
        have hwanted := wanted_of_reaches hreach (.inl hinner)
        have hnear := (bounds_of_reaches hreach).2
        rw [hstop] at hfits hrecord hnear
        rw [halbuf] at hrecord
        exact ⟨hrecnum ▸ hwanted, hfits.mono (by omega), albuf', hrecord⟩
  · rintro ⟨hwanted, hchunk, albuf', hrecord⟩
    obtain ⟨off, hreach, hfits⟩ := exists_fits h hwanted hchunk
    exact ⟨_, hreach.step (lookStep_take rfl hfits hrecord), Look.calls_called _ albuf' wrec⟩

end Next

/-! ### Logs -/

section Logs

variable {es : List Entry} {e : Entry}

/-- At the end of a log the length of its last record is claimed; where `char` is signed, 256 less
if the record is long. -/
theorem claimed_of_log (hwhole : fileOf (es ++ [e]) <+: file) :
    claimed signedChar file (fileOf (es ++ [e])).length =
      if signedChar = true ∧ 128 ≤ e.reclen then (e.reclen : ℤ) - 256 else e.reclen := by
  have hbounds := e.reclen_bounds
  have hlen := length_fileOf_snoc es e
  obtain ⟨hhigh, hlow⟩ := cells_of_slice (slices_of_last hwhole).2
  rw [claimed, List.getD_eq_getElem?_getD, List.getD_eq_getElem?_getD,
    show (fileOf (es ++ [e])).length - 2 = (fileOf es).length + e.reclen by omega,
    show (fileOf (es ++ [e])).length - 1 = (fileOf es).length + e.reclen + 1 by omega, hhigh, hlow]
  have hzero : (UInt8.ofNat (e.reclen / 256)).toNat = 0 := by
    rw [UInt8.toNat_ofNat']
    omega
  have hreclen : (UInt8.ofNat (e.reclen % 256)).toNat = e.reclen := by
    rw [UInt8.toNat_ofNat']
    omega
  simp [charValue, hzero, hreclen]

/-- The last record of a log is unpacked. -/
theorem recordAt_of_log {albuf : List UInt8} (halbuf : albuf.length = wlogRecMaxSize)
    (hwhole : fileOf (es ++ [e]) <+: file)
    (hclaimed : claimed signedChar file (fileOf (es ++ [e])).length = e.reclen) :
    recordAt signedChar file albuf (fileOf (es ++ [e])).length =
      .ok (overwrite albuf 0 (e.head ++ e.wrec.strings), e.wrec.decoded) := by
  have hmax : wlogRecMaxSize = 450 := rfl
  have hbounds := e.reclen_bounds
  have hlen := length_fileOf_snoc es e
  have hle := hwhole.length_le
  have hbody := e.length_body
  have hcopy := memcpy_eq_ok albuf file 0 (fileOf es).length e.reclen (by omega) (by omega)
  rw [(slices_of_last hwhole).1, show ((0 : ℕ) : ℤ) = 0 from rfl] at hcopy
  have halign := slice_overwrite_start albuf (e.head ++ e.wrec.strings) 0 (by omega)
  rw [hbody, Nat.zero_add] at halign
  have hunpack := wlogRecUnpack_eq_ok (overwrite albuf 0 (e.head ++ e.wrec.strings)) e.hostFits
    e.encodes halign
  simp only [recordAt, hclaimed]
  rw [show (((fileOf (es ++ [e])).length : ℕ) : ℤ) - (e.reclen + 2) = (fileOf es).length by omega,
    hcopy]
  dsimp only
  rw [hunpack]
  rfl

end Logs

end

end WriteLog

end SnowballLtp
