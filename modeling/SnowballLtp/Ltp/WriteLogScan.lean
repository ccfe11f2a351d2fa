import Mathlib.Data.List.Forall2
import SnowballLtp.Machine.Loop
import SnowballLtp.Ltp.WriteLogFile

/-!
# Scanning a write log backwards

`wlog_scan_backward` finds the records of a log from its end: the two bytes in front of a record's
end give its length. It reads the file through a buffer of 32 blocks that is filled from behind. A
record that begins in front of the buffer is left over: what is there of it is moved to the end of
the buffer, and the next chunk is read in front of it. The last chunk, which does not fill the
buffer, starts further behind.

The two loops are one loop here, with the place the function has reached in its state. Between two
passes the part of the buffer that has not been looked at, or that is left over, is the part of the
file just in front of the records found so far. That is the invariant, `InnerInv` in the inner and
`OuterInv` in the outer loop.

## Main definitions

* `ScanState`, `scanStep`, `wlogScanBackward`.
* `InnerInv`, `OuterInv`.

## Main results

* `wlogScanBackward_fileOf`: the scan of the file of a log.
* `wlogScanBackward_writes`: the scan after any writes.
-/

namespace SnowballLtp

namespace WriteLog

/-- The size of `buf`, 32 blocks of `BSIZE` bytes. -/
def sizeofBuf : ℕ := 512 * 32

/-- `WLOG_STOP_SCAN`. -/
def wlogStopScan : ℤ := 0

/-- `WLOG_CONTINUE_SCAN`. -/
def wlogContinueScan : ℤ := 1

/-- The loop whose condition is tested next. -/
inductive Place
  | outer
  | inner
  deriving DecidableEq, Repr

/-- The variables of `wlog_scan_backward`, pointers as indices of `buf`, and the records that the
callback has been called on. -/
structure ScanState where
  place : Place
  offset : ℤ
  leftover : ℤ
  bufstart : ℤ
  cp : ℤ
  recnum : ℤ
  buf : List UInt8
  albuf : List UInt8
  calls : List WlogRec

/-- Read the next chunk in front of what is left over, and enter the inner loop. -/
def refill (file : List UInt8) (s : ScanState) : Except Fault ScanState :=
  let (bufstart, offset) :=
    if uint32 (s.offset + s.leftover) < sizeofBuf then (sizeofBuf - (s.offset + s.leftover), 0)
    else (s.bufstart, int32 (s.offset - (sizeofBuf - s.leftover)))
  let count := sizeofBuf - bufstart - s.leftover
  if count < 0 then .error .negativeLength
  else
    match store s.buf bufstart (slice file offset.toNat count.toNat) with
    | .ok buf =>
      .ok { s with place := .inner, offset, leftover := 0, bufstart, cp := sizeofBuf, buf }
    | .error fault => .error fault

/-- Move what is left over to the end of the buffer, and leave the inner loop. A copy of bytes onto
themselves leaves them as they are. -/
def carryOver (s : ScanState) : Except Fault ScanState :=
  let leftover := s.cp - s.bufstart
  match memcpy s.buf (sizeofBuf - leftover) s.buf s.bufstart leftover with
  | .ok buf => .ok { s with place := .outer, leftover, buf }
  | .error fault => .error fault

/-- Take the record in front of `cp` and call the callback, which knows the records so far. -/
def takeRecord (nrecs : ℤ) (func : List WlogRec → ℤ) (reclen : ℤ) (s : ScanState) :
    Except Fault ScanState :=
  let cp := s.cp - (reclen + 2)
  match memcpy s.albuf 0 s.buf cp reclen with
  | .ok albuf =>
    match wlogRecUnpack albuf with
    | .ok wrec =>
      let calls := s.calls ++ [wrec]
      if func calls = wlogStopScan then .ok { s with place := .outer, cp, albuf, calls }
      else
        let recnum := s.recnum + 1
        let place := if nrecs ≠ 0 ∧ recnum ≥ nrecs then .outer else .inner
        .ok { s with place, cp, recnum, albuf, calls }
    | .error fault => .error fault
  | .error fault => .error fault

/-- Go on with a new state, unless there is none. -/
def goOn : Except Fault ScanState → ScanState ⊕ Except Fault (ℤ × List WlogRec)
  | .ok s => .inl s
  | .error fault => .inr (.error fault)

/-- A pass of the inner loop. -/
def innerStep (signedChar : Bool) (nrecs : ℤ) (func : List WlogRec → ℤ) (s : ScanState) :
    ScanState ⊕ Except Fault (ℤ × List WlogRec) :=
  if s.cp ≥ s.bufstart then
    if s.cp - s.bufstart < 2 then goOn (carryOver s)
    else
      match cell s.buf (s.cp - 2), cell s.buf (s.cp - 1) with
      | .ok high, .ok low =>
        let reclen := charValue signedChar high * 256 + charValue signedChar low
        if s.cp - s.bufstart < reclen + 2 then goOn (carryOver s)
        else goOn (takeRecord nrecs func reclen s)
      | .error fault, _ => .inr (.error fault)
      | _, .error fault => .inr (.error fault)
  else .inl { s with place := .outer }

/-- A pass of the loop that the function has reached. -/
def scanStep (signedChar : Bool) (file : List UInt8) (nrecs : ℤ) (func : List WlogRec → ℤ)
    (s : ScanState) : ScanState ⊕ Except Fault (ℤ × List WlogRec) :=
  match s.place with
  | .outer =>
    if (nrecs = 0 ∨ s.recnum < nrecs) ∧ s.offset > 0 then goOn (refill file s)
    else .inr (.ok (0, s.calls))
  | .inner => innerStep signedChar nrecs func s

/-- `wlog_scan_backward`: the value returned and the records the callback was called on. The
contents of `buf` and `albuf` are indeterminate at first; reads and seeks succeed. -/
def wlogScanBackward (fuel : ℕ) (signedChar : Bool) (buf : CArray UInt8 sizeofBuf)
    (albuf : CArray UInt8 wlogRecMaxSize) (file : List UInt8) (nrecs : ℤ)
    (func : List WlogRec → ℤ) : Option (Except Fault (ℤ × List WlogRec)) :=
  iterate (scanStep signedChar file nrecs func) fuel
    { place := .outer, offset := int32 file.length, leftover := 0, bufstart := 0, cp := 0
      recnum := 0, buf := buf.cells, albuf := albuf.cells, calls := [] }

/-! ### The invariants -/

section Invariants

variable (file : List UInt8) (es : List Entry) (s : ScanState)

/-- In the inner loop the buffer from `start` to `cp` shows the end of the part of the file that
holds `es`, from `off` on. -/
structure InnerInv (off start cp : ℕ) : Prop where
  place_eq : s.place = .inner
  offset_eq : s.offset = off
  leftover_eq : s.leftover = 0
  bufstart_eq : s.bufstart = start
  cp_eq : s.cp = cp
  length_buf : s.buf.length = sizeofBuf
  length_albuf : s.albuf.length = wlogRecMaxSize
  start_le : start ≤ cp
  cp_le : cp ≤ sizeofBuf
  extent : off + cp = (fileOf es).length + start
  shows : slice s.buf start (cp - start) = slice file off (cp - start)
  last : start = 0 ∨ off = 0

/-- In the outer loop the end of the buffer shows what is left over of the part of the file that
holds `es`; in front of the first byte of the file nothing is. -/
structure OuterInv (off start left : ℕ) : Prop where
  place_eq : s.place = .outer
  offset_eq : s.offset = off
  leftover_eq : s.leftover = left
  bufstart_eq : s.bufstart = start
  length_buf : s.buf.length = sizeofBuf
  length_albuf : s.albuf.length = wlogRecMaxSize
  left_lt : left < sizeofBuf
  extent : off + left = (fileOf es).length
  shows : slice s.buf (sizeofBuf - left) left = slice file off left
  last : start = 0 ∨ off = 0
  none_left : off = 0 → left = 0

end Invariants

/-- The entries behind `es` have been found, the last one first. -/
def Found (all es : List Entry) (s : ScanState) : Prop :=
  ∃ found, all = es ++ found ∧ s.calls = (found.map fun e => e.wrec.decoded).reverse ∧
    s.recnum = found.length

section Steps

variable {file : List UInt8} {all es : List Entry} {s : ScanState} {off start cp left : ℕ}

/-- A chunk read in front of what is left over. -/
private theorem shows_refilled (buf file : List UInt8) (start off count left : ℕ)
    (hbuf : start + count + left ≤ buf.length) (hfile : off + count ≤ file.length)
    (h : slice buf (start + count) left = slice file (off + count) left) :
    slice (overwrite buf start (slice file off count)) start (count + left) =
      slice file off (count + left) := by
  have hdata : (slice file off count).length = count := length_slice hfile
  have hfit : start + (slice file off count).length ≤ buf.length := by rw [hdata]; omega
  have hself := slice_overwrite_self hfit
  rw [hdata] at hself
  rw [← slice_append, ← slice_append, hself,
    slice_overwrite_of_apart _ _ hfit (by rw [hdata]; exact .inr (Nat.le_refl _)), h]

/-- **Reading a chunk** in front of what is left over: as much as the buffer holds, or the whole
rest of the file, at the end of the buffer. -/
theorem refill_eq_ok (hoffset : s.offset = off) (hleftover : s.leftover = left)
    (hbufstart : s.bufstart = 0) (hbuf : s.buf.length = sizeofBuf) (hoff : 0 < off)
    (hleft : left ≤ sizeofBuf) (hfile : off + left ≤ file.length)
    (hint : off + left < 2147483648)
    (hshows : slice s.buf (sizeofBuf - left) left = slice file off left) :
    ∃ buf, refill file s = .ok
        { s with
          place := .inner
          offset := (off + left - sizeofBuf : ℕ)
          leftover := 0
          bufstart := (sizeofBuf - (off + left) : ℕ)
          cp := sizeofBuf
          buf } ∧
      buf.length = sizeofBuf ∧
      slice buf (sizeofBuf - (off + left)) (sizeofBuf - (sizeofBuf - (off + left))) =
        slice file (off + left - sizeofBuf) (sizeofBuf - (sizeofBuf - (off + left))) := by
  have hsize : sizeofBuf = 16384 := rfl
  obtain ⟨start, hstart⟩ : ∃ start, start = sizeofBuf - (off + left) := ⟨_, rfl⟩
  obtain ⟨pos, hpos⟩ : ∃ pos, pos = off + left - sizeofBuf := ⟨_, rfl⟩
  rw [← hstart, ← hpos]
  -- the two ways to place the chunk differ in where it begins
  have hplace : (if uint32 (s.offset + s.leftover) < sizeofBuf then
        ((sizeofBuf : ℤ) - (s.offset + s.leftover), 0)
      else (s.bufstart, int32 (s.offset - (sizeofBuf - s.leftover)))) =
        ((start : ℤ), (pos : ℤ)) := by
    have huint : uint32 ((off : ℤ) + left) = off + left := by
      rw [uint32]
      omega
    rw [hoffset, hleftover, hbufstart, huint]
    split_ifs with hsmall
    · ext <;> simp <;> omega
    · rw [int32_eq_self ⟨by omega, by omega⟩]
      ext <;> simp only <;> omega
  have hdata : (slice file pos (sizeofBuf - start - left)).length = sizeofBuf - start - left :=
    length_slice (by omega)
  have hstore := store_eq_ok s.buf (slice file pos (sizeofBuf - start - left)) start
    (by rw [hdata]; omega)
  have hcount : ((sizeofBuf : ℤ) - start - s.leftover).toNat = sizeofBuf - start - left := by
    rw [hleftover]
    omega
  refine ⟨overwrite s.buf start (slice file pos (sizeofBuf - start - left)), ?_, ?_, ?_⟩
  · rw [refill, hplace]
    dsimp only
    rw [if_neg (by rw [hleftover]; omega), Int.toNat_natCast, hcount, hstore]
  · rw [length_overwrite (by rw [hdata]; omega), hbuf]
  · have hrefilled := shows_refilled s.buf file start pos (sizeofBuf - start - left) left (by omega)
      (by omega) (by
        rw [show start + (sizeofBuf - start - left) = sizeofBuf - left by omega,
          show pos + (sizeofBuf - start - left) = off by omega]
        exact hshows)
    rwa [show sizeofBuf - start - left + left = sizeofBuf - start by omega] at hrefilled

/-- **Moving what is left over.** -/
theorem carryOver_eq_ok (hcp : s.cp = cp) (hbufstart : s.bufstart = start)
    (hbuf : s.buf.length = sizeofBuf) (hstart : start ≤ cp) (hle : cp ≤ sizeofBuf) :
    ∃ buf, carryOver s = .ok { s with place := .outer, leftover := (cp - start : ℕ), buf } ∧
      buf.length = sizeofBuf ∧
      slice buf (sizeofBuf - (cp - start)) (cp - start) = slice s.buf start (cp - start) := by
  have hcopy := memcpy_eq_ok s.buf s.buf (sizeofBuf - (cp - start)) start (cp - start)
    (by omega) (by omega)
  have hdata : (slice s.buf start (cp - start)).length = cp - start := length_slice (by omega)
  have hfit :
      sizeofBuf - (cp - start) + (slice s.buf start (cp - start)).length ≤ s.buf.length := by
    rw [hdata]
    omega
  have hself := slice_overwrite_self hfit
  rw [hdata] at hself
  refine ⟨_, ?_, by rw [length_overwrite hfit, hbuf], hself⟩
  rw [carryOver, hcp, hbufstart, ← Int.ofNat_sub hstart, ← Int.ofNat_sub (by omega), hcopy]

/-- Reading a chunk enters the inner loop with a smaller offset. -/
private theorem refill_of_outerInv (hwhole : fileOf es <+: file) (hint : file.length < 2147483648)
    (h : OuterInv file es s off start left) (hoff : 0 < off) :
    ∃ s' off' start', refill file s = .ok s' ∧ InnerInv file es s' off' start' sizeofBuf ∧
      off' < off ∧ s'.calls = s.calls ∧ s'.recnum = s.recnum := by
  have hlen := hwhole.length_le
  have hextent := h.extent
  have hleft := h.left_lt
  have hstart : start = 0 := h.last.resolve_right (by omega)
  obtain ⟨buf, hrefill, hbuf, hshows⟩ := refill_eq_ok h.offset_eq h.leftover_eq
    (by rw [h.bufstart_eq, hstart]; rfl) h.length_buf hoff hleft.le (by omega) (by omega) h.shows
  exact ⟨_, off + left - sizeofBuf, sizeofBuf - (off + left), hrefill,
    ⟨rfl, rfl, rfl, rfl, rfl, hbuf, h.length_albuf, by omega, Nat.le_refl _, by omega, hshows,
      by omega⟩, by omega, rfl, rfl⟩

/-- Moving what is left over enters the outer loop. -/
private theorem carryOver_of_innerInv (h : InnerInv file es s off start cp)
    (hleft : cp < start + sizeofBuf) (hnone : off = 0 → cp = start) :
    ∃ s', carryOver s = .ok s' ∧ OuterInv file es s' off start (cp - start) ∧
      s'.calls = s.calls ∧ s'.recnum = s.recnum := by
  have hstart := h.start_le
  have hcp := h.cp_le
  have hextent := h.extent
  obtain ⟨buf, hcarry, hbuf, hshows⟩ :=
    carryOver_eq_ok h.cp_eq h.bufstart_eq h.length_buf hstart hcp
  refine ⟨_, hcarry, ⟨rfl, h.offset_eq, rfl, h.bufstart_eq, hbuf, h.length_albuf, by omega,
    by omega, hshows.trans h.shows, h.last, fun hzero => ?_⟩, rfl, rfl⟩
  rw [hnone hzero, Nat.sub_self]

/-- The last bytes of the buffer are the last bytes of the part of the file that holds `es`. -/
private theorem InnerInv.tail (h : InnerInv file es s off start cp) {n : ℕ} (hn : n ≤ cp - start) :
    slice s.buf (cp - n) n = slice file ((fileOf es).length - n) n := by
  have hstart := h.start_le
  have hextent := h.extent
  have htail := slice_congr_of_le h.shows (i := cp - start - n) (n := n) (by omega)
  rwa [show start + (cp - start - n) = cp - n by omega,
    show off + (cp - start - n) = (fileOf es).length - n by omega] at htail

theorem length_fileOf_snoc (es : List Entry) (e : Entry) :
    (fileOf (es ++ [e])).length = (fileOf es).length + (e.reclen + 2) := by
  rw [fileOf_append, fileOf_singleton, List.length_append, e.length_image]

theorem Entry.length_body (e : Entry) : (e.head ++ e.wrec.strings).length = e.reclen := by
  rw [List.length_append, e.encodes.length_eq, Entry.reclen]

/-- The last image in the file, where its record is and where its trailer. -/
theorem slices_of_last {e : Entry} (hwhole : fileOf (es ++ [e]) <+: file) :
    slice file (fileOf es).length e.reclen = e.head ++ e.wrec.strings ∧
      slice file ((fileOf es).length + e.reclen) 2 = trailer e.reclen := by
  obtain ⟨rest, rfl⟩ := hwhole
  have hbody := e.length_body
  have hrecord := slice_append_append (fileOf es) (e.head ++ e.wrec.strings)
    (trailer e.reclen ++ rest)
  have htrailer := slice_append_append (fileOf es ++ (e.head ++ e.wrec.strings))
    (trailer e.reclen) rest
  rw [hbody] at hrecord
  rw [List.length_append, hbody] at htrailer
  rw [fileOf_append, fileOf_singleton, Entry.image]
  simp only [List.append_assoc] at hrecord htrailer ⊢
  exact ⟨hrecord, htrailer⟩

theorem cells_of_slice {obj : List UInt8} {pos : ℕ} {x y : UInt8}
    (h : slice obj pos 2 = [x, y]) : obj[pos]? = some x ∧ obj[pos + 1]? = some y := by
  have hfirst := congrArg (fun l => l[0]?) h
  have hsecond := congrArg (fun l => l[1]?) h
  simp only [getElem?_slice] at hfirst hsecond
  exact ⟨hfirst, hsecond⟩

/-- The trailer gives the length of the last record, and the record is taken if it begins in the
buffer. -/
private theorem innerStep_eq {e : Entry} (nrecs : ℤ) (func : List WlogRec → ℤ)
    (hwhole : fileOf (es ++ [e]) <+: file) (h : InnerInv file (es ++ [e]) s off start cp) :
    innerStep false nrecs func s = if cp < start + (e.reclen + 2) then goOn (carryOver s)
      else goOn (takeRecord nrecs func e.reclen s) := by
  have hstart := h.start_le
  have hbounds := e.reclen_bounds
  rw [innerStep, h.cp_eq, h.bufstart_eq, if_pos (by omega)]
  by_cases htwo : cp < start + 2
  · rw [if_pos (by omega), if_pos (by omega)]
  rw [if_neg (by omega)]
  have htail := h.tail (n := 2) (by omega)
  have hlen := length_fileOf_snoc es e
  rw [← Nat.add_assoc] at hlen
  rw [hlen, Nat.add_sub_cancel, (slices_of_last hwhole).2] at htail
  obtain ⟨hhigh, hlow⟩ := cells_of_slice htail
  rw [show cp - 2 + 1 = cp - 1 by omega] at hlow
  rw [show (cp : ℤ) - 2 = (cp - 2 : ℕ) by omega, show (cp : ℤ) - 1 = (cp - 1 : ℕ) by omega,
    cell_eq_ok hhigh, cell_eq_ok hlow]
  have hreclen : charValue false (UInt8.ofNat (e.reclen / 256)) * 256 +
      charValue false (UInt8.ofNat (e.reclen % 256)) = e.reclen := by
    simp only [charValue, UInt8.toNat_ofNat']
    rw [if_neg (by simp), if_neg (by simp)]
    omega
  dsimp only
  rw [hreclen]
  by_cases hfit : cp < start + (e.reclen + 2)
  · rw [if_pos (by omega), if_pos hfit]
  · rw [if_neg (by omega), if_neg hfit]

/-- Taking a record copies it to the aligned buffer, unpacks it there and passes it to the
callback. -/
private theorem takeRecord_eq {e : Entry} (nrecs : ℤ) {func : List WlogRec → ℤ}
    (hfunc : ∀ calls, func calls ≠ wlogStopScan) (hwhole : fileOf (es ++ [e]) <+: file)
    (h : InnerInv file (es ++ [e]) s off start cp) (hfit : start + (e.reclen + 2) ≤ cp) :
    takeRecord nrecs func e.reclen s = .ok
      { s with
        place := if nrecs ≠ 0 ∧ s.recnum + 1 ≥ nrecs then .outer else .inner
        cp := (cp - (e.reclen + 2) : ℕ)
        recnum := s.recnum + 1
        albuf := overwrite s.albuf 0 (e.head ++ e.wrec.strings)
        calls := s.calls ++ [e.wrec.decoded] } := by
  have hsize : sizeofBuf = 16384 := rfl
  have hmax : wlogRecMaxSize = 450 := rfl
  have hbounds := e.reclen_bounds
  have hcp := h.cp_le
  have hbuf := h.length_buf
  have halbuf := h.length_albuf
  have hlen := length_fileOf_snoc es e
  -- the record as it stands in `buf`, and then in `albuf`
  have htail := h.tail (n := e.reclen + 2) (by omega)
  rw [hlen, Nat.add_sub_cancel] at htail
  have hrecord := slice_congr_of_le htail (i := 0) (n := e.reclen) (by omega)
  simp only [Nat.add_zero, (slices_of_last hwhole).1] at hrecord
  have hcopy := memcpy_eq_ok s.albuf s.buf 0 (cp - (e.reclen + 2)) e.reclen
    (by omega) (by omega)
  have hbody := e.length_body
  have halign := slice_overwrite_start s.albuf (e.head ++ e.wrec.strings) 0
    (by omega)
  rw [hbody, Nat.zero_add] at halign
  have hunpack := wlogRecUnpack_eq_ok (overwrite s.albuf 0 (e.head ++ e.wrec.strings))
    e.hostFits e.encodes halign
  rw [hrecord, show ((0 : ℕ) : ℤ) = 0 from rfl] at hcopy
  simp only [takeRecord, h.cp_eq]
  rw [show (cp : ℤ) - (e.reclen + 2) = (cp - (e.reclen + 2) : ℕ) by omega, hcopy]
  dsimp only
  rw [hunpack]
  dsimp only
  rw [if_neg (hfunc _)]

/-- Taking a record passes it to the callback and steps in front of it. -/
private theorem takeRecord_of_innerInv {e : Entry} (nrecs : ℤ) {func : List WlogRec → ℤ}
    (hfunc : ∀ calls, func calls ≠ wlogStopScan) (hwhole : fileOf (es ++ [e]) <+: file)
    (h : InnerInv file (es ++ [e]) s off start cp) (hfit : start + (e.reclen + 2) ≤ cp) :
    ∃ s', takeRecord nrecs func e.reclen s = .ok s' ∧
      s'.calls = s.calls ++ [e.wrec.decoded] ∧ s'.recnum = s.recnum + 1 ∧
      s'.offset = off ∧ s'.leftover = 0 ∧
      (nrecs ≠ 0 ∧ s.recnum + 1 ≥ nrecs ∧ s'.place = .outer ∨
        ¬ (nrecs ≠ 0 ∧ s.recnum + 1 ≥ nrecs) ∧
          InnerInv file es s' off start (cp - (e.reclen + 2))) := by
  have hmax : wlogRecMaxSize = 450 := rfl
  have hbounds := e.reclen_bounds
  have hcp := h.cp_le
  have halbuf := h.length_albuf
  have hextent := h.extent
  have hbody := e.length_body
  have hlen := length_fileOf_snoc es e
  refine ⟨_, takeRecord_eq nrecs hfunc hwhole h hfit, rfl, rfl, h.offset_eq, h.leftover_eq, ?_⟩
  by_cases hreached : nrecs ≠ 0 ∧ s.recnum + 1 ≥ nrecs
  · exact .inl ⟨hreached.1, hreached.2, if_pos hreached⟩
  · refine .inr ⟨hreached, if_neg hreached, h.offset_eq, h.leftover_eq, h.bufstart_eq, rfl,
      h.length_buf, ?_, by omega, by omega, by omega, ?_, h.last⟩
    · dsimp only
      rw [length_overwrite (by omega), halbuf]
    · have hfront := slice_congr_of_le h.shows (i := 0) (n := cp - (e.reclen + 2) - start)
        (by omega)
      simpa only [Nat.add_zero] using hfront

end Steps

/-! ### The whole scan -/

/-- The newest `nrecs` elements of a list, all of them for 0, the newest first. -/
def newest {α : Type*} (nrecs : ℤ) (l : List α) : List α :=
  if nrecs = 0 then l.reverse else l.reverse.take nrecs.toNat

/-- Between two passes: some entries have been found, and either more are wanted and the rest of
the file is in front of the scan, or as many as wanted have been found. -/
def ScanInv (file : List UInt8) (all : List Entry) (nrecs : ℤ) (s : ScanState) : Prop :=
  ∃ es, Found all es s ∧
    ((nrecs = 0 ∨ s.recnum < nrecs) ∧
        ((∃ off start cp, InnerInv file es s off start cp) ∨
          ∃ off start left, OuterInv file es s off start left) ∨
      s.place = .outer ∧ nrecs ≠ 0 ∧ s.recnum = nrecs)

/-- The bytes in front of the scan, and the offset, which every chunk lowers. -/
def scanMeasure (s : ScanState) : ℕ :=
  match s.place with
  | .outer => (3 * s.offset + s.leftover).toNat
  | .inner => (3 * s.offset + (s.cp - s.bufstart) + 1).toNat

section Scan

variable {file : List UInt8} {all es : List Entry} {s : ScanState} {nrecs : ℤ}
  {func : List WlogRec → ℤ}

theorem Found.prefix_of_eq (h : Found all es s) (hfile : file = fileOf all) :
    fileOf es <+: file := by
  obtain ⟨found, rfl, -⟩ := h
  rw [hfile, fileOf_append]
  exact List.prefix_append _ _

/-- The entry in front of what has been found is found next. -/
theorem Found.next {e : Entry} {s' : ScanState} (h : Found all (es ++ [e]) s)
    (hcalls : s'.calls = s.calls ++ [e.wrec.decoded]) (hrecnum : s'.recnum = s.recnum + 1) :
    Found all es s' := by
  obtain ⟨found, rfl, hfound, hnum⟩ := h
  refine ⟨e :: found, by simp, ?_, ?_⟩
  · rw [hcalls, hfound]
    simp
  · rw [hrecnum, hnum]
    simp

theorem Found.congr {s' : ScanState} (h : Found all es s) (hcalls : s'.calls = s.calls)
    (hrecnum : s'.recnum = s.recnum) : Found all es s' := by
  obtain ⟨found, rfl, hfound, hnum⟩ := h
  exact ⟨found, rfl, hcalls.trans hfound, hrecnum.trans hnum⟩

theorem length_fileOf_pos (es : List Entry) (e : Entry) : 30 ≤ (fileOf (es ++ [e])).length := by
  have hbounds := e.reclen_bounds
  rw [length_fileOf_snoc]
  omega

/-- A pass of the inner loop keeps the invariant. -/
private theorem innerStep_of_inv {off start cp : ℕ} (hfunc : ∀ calls, func calls ≠ wlogStopScan)
    (hfile : file = fileOf all) (hfound : Found all es s)
    (hbelow : nrecs = 0 ∨ s.recnum < nrecs) (h : InnerInv file es s off start cp) :
    ∃ s', innerStep false nrecs func s = .inl s' ∧ ScanInv file all nrecs s' ∧
      scanMeasure s' < scanMeasure s := by
  have hstart := h.start_le
  have hmeasure : scanMeasure s = 3 * off + (cp - start) + 1 := by
    rw [scanMeasure, h.place_eq]
    dsimp only
    rw [h.offset_eq, h.cp_eq, h.bufstart_eq]
    omega
  have hcarry : cp < start + sizeofBuf → (off = 0 → cp = start) →
      innerStep false nrecs func s = goOn (carryOver s) →
      ∃ s', innerStep false nrecs func s = .inl s' ∧ ScanInv file all nrecs s' ∧
        scanMeasure s' < scanMeasure s := by
    intro hleft hnone hstep
    obtain ⟨s', hs', hinv, hcalls, hrecnum⟩ := carryOver_of_innerInv h hleft hnone
    refine ⟨s', by rw [hstep, hs']; rfl, ⟨es, hfound.congr hcalls hrecnum,
      .inl ⟨by rw [hrecnum]; exact hbelow, .inr ⟨_, _, _, hinv⟩⟩⟩, ?_⟩
    rw [hmeasure, scanMeasure, hinv.place_eq]
    dsimp only
    rw [hinv.offset_eq, hinv.leftover_eq]
    omega
  have hextent := h.extent
  have hsize : sizeofBuf = 16384 := rfl
  rcases List.eq_nil_or_concat es with rfl | ⟨es, e, rfl⟩
  · -- nothing is in front of the scan
    rw [fileOf_nil, List.length_nil] at hextent
    refine hcarry (by omega) (by omega) ?_
    rw [innerStep, h.cp_eq, h.bufstart_eq, if_pos (by omega), if_pos (by omega)]
  · rw [List.concat_eq_append] at hfound h hextent
    have hbounds := e.reclen_bounds
    have hpos := length_fileOf_pos es e
    have hstep := innerStep_eq nrecs func (hfound.prefix_of_eq hfile) h
    by_cases hshort : cp < start + (e.reclen + 2)
    · -- the record begins in front of the buffer, so the file does too
      rw [if_pos hshort] at hstep
      have hlen := length_fileOf_snoc es e
      exact hcarry (by omega) (by omega) hstep
    · rw [if_neg hshort] at hstep
      obtain ⟨s', hs', hcalls, hrecnum, hoffset, hleftover, hcase⟩ := takeRecord_of_innerInv
        nrecs hfunc (hfound.prefix_of_eq hfile) h (by omega)
      refine ⟨s', by rw [hstep, hs']; rfl, ⟨es, hfound.next hcalls hrecnum, ?_⟩, ?_⟩
      · rcases hcase with ⟨hnrecs, hreached, hplace⟩ | ⟨hmore, hinv⟩
        · exact .inr ⟨hplace, hnrecs, by rw [hrecnum]; omega⟩
        · refine .inl ⟨?_, .inl ⟨_, _, _, hinv⟩⟩
          rw [hrecnum]
          omega
      · rw [hmeasure, scanMeasure]
        rcases hcase with ⟨-, -, hplace⟩ | ⟨-, hinv⟩
        · rw [hplace]
          dsimp only
          rw [hoffset, hleftover]
          omega
        · rw [hinv.place_eq]
          dsimp only
          rw [hoffset, hinv.cp_eq, hinv.bufstart_eq]
          omega

/-- What has been found when the outer loop ends. -/
private theorem calls_of_exit (hfile : file = fileOf all) (hnrecs : 0 ≤ nrecs)
    (h : ScanInv file all nrecs s) (hplace : s.place = .outer)
    (hexit : ¬ ((nrecs = 0 ∨ s.recnum < nrecs) ∧ s.offset > 0)) :
    s.calls = (newest nrecs all).map fun e => e.wrec.decoded := by
  obtain ⟨es, ⟨found, rfl, hcalls, hrecnum⟩, ⟨hbelow, hinv⟩ | ⟨-, hne, hreached⟩⟩ := h
  · obtain ⟨off, start, cp, hinv⟩ | ⟨off, start, left, hinv⟩ := hinv
    · cases hinv.place_eq.symm.trans hplace
    -- the offset is 0, so nothing is left over and no record is left
    have hoff : off = 0 := by
      have := hinv.offset_eq
      omega
    have hextent := hinv.extent
    rw [hoff, hinv.none_left hoff] at hextent
    rcases List.eq_nil_or_concat es with rfl | ⟨es, e, rfl⟩
    · rw [hcalls, List.nil_append, newest]
      split_ifs with hzero
      · rw [List.map_reverse]
      · have hlen : found.length ≤ nrecs.toNat := by omega
        rw [List.take_of_length_le (by rw [List.length_reverse]; exact hlen), List.map_reverse]
    · have hpos := length_fileOf_pos es e
      rw [List.concat_eq_append] at hextent
      omega
  · have hlen : found.reverse.length = nrecs.toNat := by
      rw [List.length_reverse]
      omega
    rw [hcalls, newest, if_neg hne, List.reverse_append, ← hlen, List.take_left, List.map_reverse]

/-- A pass of the function keeps the invariant or leaves with the newest records. -/
private theorem scanStep_of_inv (hfunc : ∀ calls, func calls ≠ wlogStopScan)
    (hfile : file = fileOf all) (hint : file.length < 2147483648) (hnrecs : 0 ≤ nrecs)
    (h : ScanInv file all nrecs s) :
    (∃ s', scanStep false file nrecs func s = .inl s' ∧ ScanInv file all nrecs s' ∧
      scanMeasure s' < scanMeasure s) ∨
    ∃ r, scanStep false file nrecs func s = .inr r ∧
      r = .ok (0, (newest nrecs all).map fun e => e.wrec.decoded) := by
  cases hplace : s.place with
  | outer =>
    by_cases hmore : (nrecs = 0 ∨ s.recnum < nrecs) ∧ s.offset > 0
    · obtain ⟨es, hfound, ⟨hbelow, hinv⟩ | ⟨-, hne, hreached⟩⟩ := h
      · obtain ⟨off, start, cp, hinv⟩ | ⟨off, start, left, hinv⟩ := hinv
        · cases hinv.place_eq.symm.trans hplace
        have hoff := hinv.offset_eq
        have hextent := hinv.extent
        obtain ⟨s', off', start', hs', hinner, hlt, hcalls, hrecnum⟩ :=
          refill_of_outerInv (hfound.prefix_of_eq hfile) hint hinv (by omega)
        have hextent' := hinner.extent
        refine .inl ⟨s', ?_, ⟨es, hfound.congr hcalls hrecnum,
          .inl ⟨by rw [hrecnum]; exact hbelow, .inl ⟨_, _, _, hinner⟩⟩⟩, ?_⟩
        · rw [scanStep, hplace]
          dsimp only
          rw [if_pos hmore, hs']
          rfl
        · rw [scanMeasure, hinner.place_eq, scanMeasure, hplace]
          dsimp only
          rw [hinner.offset_eq, hinner.cp_eq, hinner.bufstart_eq, hinv.offset_eq, hinv.leftover_eq]
          omega
      · omega
    · refine .inr ⟨_, ?_, rfl⟩
      rw [scanStep, hplace]
      dsimp only
      rw [if_neg hmore, calls_of_exit hfile hnrecs h hplace hmore]
  | inner =>
    obtain ⟨es, hfound, ⟨hbelow, hinv⟩ | ⟨hout, -, -⟩⟩ := h
    · obtain ⟨off, start, cp, hinv⟩ | ⟨off, start, left, hinv⟩ := hinv
      · obtain ⟨s', hs', hinv', hlt⟩ := innerStep_of_inv hfunc hfile hfound hbelow hinv
        refine .inl ⟨s', ?_, hinv', hlt⟩
        rw [scanStep, hplace]
        exact hs'
      · cases hinv.place_eq.symm.trans hplace
    · cases hout.symm.trans hplace

/-- **Scanning.** The scan of the file of a log calls the callback on the newest `nrecs` records,
the newest first, if the callback never stops it. -/
theorem wlogScanBackward_fileOf {fuel : ℕ} (buf : CArray UInt8 sizeofBuf)
    (albuf : CArray UInt8 wlogRecMaxSize) (hfunc : ∀ calls, func calls ≠ wlogStopScan)
    (hfile : file = fileOf all) (hint : file.length < 2147483648) (hnrecs : 0 ≤ nrecs)
    (hfuel : 3 * file.length < fuel) :
    wlogScanBackward fuel false buf albuf file nrecs func =
      some (.ok (0, (newest nrecs all).map fun e => e.wrec.decoded)) := by
  have hoffset : int32 file.length = file.length := int32_eq_self ⟨by omega, by omega⟩
  suffices hrun : ∃ r, wlogScanBackward fuel false buf albuf file nrecs func = some r ∧
      r = .ok (0, (newest nrecs all).map fun e => e.wrec.decoded) by
    obtain ⟨r, hr, rfl⟩ := hrun
    exact hr
  refine iterate_of_measure (ScanInv file all nrecs) scanMeasure _
    (fun s hs => scanStep_of_inv hfunc hfile hint hnrecs hs) ?_ ?_
  · refine ⟨all, ⟨[], by simp, rfl, rfl⟩, .inl ⟨by dsimp only; omega, .inr
      ⟨file.length, 0, 0, rfl, hoffset, rfl, rfl, buf.length_eq, albuf.length_eq, by decide,
        by rw [hfile]; omega, by simp [slice], .inl rfl, fun _ => rfl⟩⟩⟩
  · simp only [scanMeasure, hoffset]
    omega

theorem newest_map {α β : Type*} (f : α → β) (nrecs : ℤ) (l : List α) :
    newest nrecs (l.map f) = (newest nrecs l).map f := by
  simp only [newest]
  split_ifs <;> simp

theorem mem_of_mem_newest {α : Type*} {nrecs : ℤ} {l : List α} {x : α} (h : x ∈ newest nrecs l) :
    x ∈ l := by
  rw [newest] at h
  split_ifs at h
  · exact List.mem_reverse.mp h
  · exact List.mem_reverse.mp (List.mem_of_mem_take h)

end Scan

/-- **The scan recovers the log.** After any valid sequence of writes to an empty log, a scan whose
callback always goes on calls it on the newest `nrecs` of the records appended, all of them for 0,
the newest first, each with the scalars of its last write and the strings of its append. -/
theorem wlogScanBackward_writes {requests : List Request} (hvalid : AllValid [] requests)
    {nrecs : ℤ} (hnrecs : 0 ≤ nrecs) (buf : CArray UInt8 sizeofBuf)
    (albuf : CArray UInt8 wlogRecMaxSize) :
    ∃ log, Log.writes { file := [], offsets := [] } requests = .ok log ∧
      (log.file.length < 2147483648 → ∀ fuel, 3 * log.file.length < fuel →
        ∃ calls, wlogScanBackward fuel false buf albuf log.file nrecs
            (fun _ => wlogContinueScan) = some (.ok (0, calls)) ∧
          List.Forall₂ SameRecord (newest nrecs (requests.foldl record [])) calls) := by
  obtain ⟨log, es, hwrites, hrepresents⟩ := writes_refine Represents.nil hvalid
  refine ⟨log, hwrites, fun hint fuel hfuel => ?_⟩
  refine ⟨_, wlogScanBackward_fileOf buf albuf (fun _ => by decide) hrepresents.file_eq hint
    hnrecs hfuel, ?_⟩
  have hrecordable := hrepresents.recordable
  rw [hrepresents.recs_eq] at hrecordable ⊢
  rw [newest_map, List.forall₂_map_left_iff, List.forall₂_map_right_iff, List.forall₂_same]
  intro e he
  have h := hrecordable e.wrec (List.mem_map_of_mem (mem_of_mem_newest he))
  exact sameRecord_decoded h.toWithinMaxima h.pathlen_lt h.patternlen_lt

/-- Two appends, and an overlay of the first of them. -/
def threeRequests : List Request :=
  [.append (.fill _ 0) (recordWithPath 3) (-1), .append (.fill _ 0) (recordWithPath 5) (-1),
    .overlay (.fill _ 0) { recordWithPath 3 with done := 0 } 0]

theorem wlogScanBackward_threeRequests :
    ∃ log calls, Log.writes { file := [], offsets := [] } threeRequests = .ok log ∧
      wlogScanBackward 300 false (.fill _ 0) (.fill _ 0) log.file 1
        (fun _ => wlogContinueScan) = some (.ok (0, calls)) ∧
      List.Forall₂ SameRecord (newest 1 (threeRequests.foldl record [])) calls := by
  have hrecordable : ∀ pathlen : ℤ, 0 ≤ pathlen → pathlen < 128 →
      Recordable (recordWithPath pathlen) := fun pathlen hlow hhigh =>
    ⟨withinMaxima_recordWithPath pathlen hlow (Int.le_of_lt hhigh), hhigh, by simp [recordWithPath]⟩
  have hoverlay : Recordable { recordWithPath 3 with done := 0 } :=
    { hrecordable 3 (by decide) (by decide) with done := .inl rfl }
  obtain ⟨log, hlog, hscan⟩ := @wlogScanBackward_writes threeRequests
    ⟨⟨hrecordable 3 (by decide) (by decide), by decide⟩,
      ⟨hrecordable 5 (by decide) (by decide), by decide⟩,
      ⟨hoverlay, recordWithPath 3, rfl, rfl, rfl, rfl⟩, trivial⟩
    1 (by decide) (.fill _ 0) (.fill _ 0)
  have hsize : (Log.writes { file := [], offsets := [] } threeRequests).map
      (fun log => log.file.length) = .ok 68 := by decide +kernel
  rw [hlog] at hsize
  have hlen : log.file.length = 68 := Except.ok.inj hsize
  obtain ⟨calls, hcalls, hsame⟩ := hscan (by omega) 300 (by omega)
  exact ⟨log, calls, hlog, hcalls, hsame⟩

end WriteLog

end SnowballLtp
