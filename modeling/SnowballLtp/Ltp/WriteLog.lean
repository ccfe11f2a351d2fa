import SnowballLtp.Machine.Bitfield
import SnowballLtp.Machine.CInt

/-!
# Records of a write log

A write log is a file of records of variable length. `wlog_rec_pack` packs a `wlog_rec` into a
buffer: a head of seven words with bit-fields, then the path, the host and the pattern without
their terminators; `wlog_rec_unpack` takes such a buffer apart again. `wlog_record_write` appends
a packed record and its length in two bytes, or overlays the head of a record that is in the file.

What a buffer has to hold to stand for a record is said by `Encodes`: packing establishes it and
unpacking needs no more than it. The head keeps the low bits of every field only, so what is
unpacked is `WlogRec.decoded`, the record as far as the bit-fields can hold it.

## Main definitions

* `WlogRec`, `WlogRecDisk`.
* `wlogRecPack`, `wlogRecUnpack`, `wlogRecordWrite`.
* `Encodes`, `WlogRec.decoded`.

## Main results

* `wlogRecPack_spec`, `wlogRecUnpack_spec`.
* `roundTrips_iff`.
-/

namespace SnowballLtp

namespace WriteLog

/-- `WLOG_MAX_PATH`. -/
def wlogMaxPath : ℕ := 128

/-- `WLOG_MAX_PATTERN`. -/
def wlogMaxPattern : ℕ := 64

/-- `WLOG_MAX_HOST`. -/
def wlogMaxHost : ℕ := 8

/-- The size of `struct wlog_rec`: nine ints and three arrays, each padded to a word. -/
def sizeofWlogRec : ℕ := 248

/-- `WLOG_REC_MAX_SIZE`. -/
def wlogRecMaxSize : ℕ := sizeofWlogRec + wlogMaxPath + wlogMaxPattern + wlogMaxHost + 2

/-- `struct wlog_rec`. -/
structure WlogRec where
  pid : ℤ
  offset : ℤ
  nbytes : ℤ
  oflags : ℤ
  done : ℤ
  async : ℤ
  host : CArray UInt8 (wlogMaxHost + 1)
  hostlen : ℤ
  path : CArray UInt8 (wlogMaxPath + 1)
  pathlen : ℤ
  pattern : CArray UInt8 (wlogMaxPattern + 1)
  patternlen : ℤ

/-! ### The head of a record on disk -/

/-- The size of `struct wlog_rec_disk`: no bit-field crosses the end of a word, so `w_hostlen` and
`w_extra2` each start a new one. -/
def sizeofWlogRecDisk : ℕ := 28

namespace WlogRecDisk

def offset : BitField := ⟨0, 0, 32, by decide⟩
def nbytes : BitField := ⟨2, 0, 32, by decide⟩
def oflags : BitField := ⟨3, 0, 32, by decide⟩
def pid : BitField := ⟨4, 0, 17, by decide⟩
def pathlen : BitField := ⟨4, 17, 7, by decide⟩
def patternlen : BitField := ⟨4, 24, 6, by decide⟩
def hostlen : BitField := ⟨5, 0, 4, by decide⟩
def done : BitField := ⟨5, 4, 1, by decide⟩
def async : BitField := ⟨5, 5, 1, by decide⟩

end WlogRecDisk

/-- What `wlog_rec_pack` assigns to the head, in its order. -/
def WlogRec.fields (wrec : WlogRec) : List (BitField × ℕ) :=
  [(WlogRecDisk.pid, uint32 wrec.pid),
    (WlogRecDisk.offset, uint32 wrec.offset),
    (WlogRecDisk.nbytes, uint32 wrec.nbytes),
    (WlogRecDisk.oflags, uint32 wrec.oflags),
    (WlogRecDisk.done, uint32 wrec.done),
    (WlogRecDisk.async, uint32 wrec.async),
    (WlogRecDisk.pathlen, if wrec.pathlen > 0 then uint32 wrec.pathlen else 0),
    (WlogRecDisk.hostlen, if wrec.hostlen > 0 then uint32 wrec.hostlen else 0),
    (WlogRecDisk.patternlen, if wrec.patternlen > 0 then uint32 wrec.patternlen else 0)]

/-- Copy a string into the buffer unless it is empty. -/
def packString (buf : List UInt8) (pos : ℕ) (str : List UInt8) (len : ℕ) :
    Except Fault (List UInt8) :=
  if len > 0 then memcpy buf pos str 0 len else .ok buf

/-- `wlog_rec_pack`: the size of the packed record and the buffer. -/
def wlogRecPack (wrec : WlogRec) (buf : List UInt8) (flag : Bool) :
    Except Fault (ℕ × List UInt8) :=
  if buf.length < sizeofWlogRecDisk then .error .outOfBounds
  else
    let buf := putAll buf wrec.fields
    if flag then do
      let pathlen := WlogRecDisk.pathlen.get buf
      let hostlen := WlogRecDisk.hostlen.get buf
      let patternlen := WlogRecDisk.patternlen.get buf
      let file := sizeofWlogRecDisk
      let host := file + pathlen
      let pattern := host + hostlen
      let buf ← packString buf file wrec.path.cells pathlen
      let buf ← packString buf host wrec.host.cells hostlen
      let buf ← packString buf pattern wrec.pattern.cells patternlen
      return (sizeofWlogRecDisk + pathlen + hostlen + patternlen, buf)
    else .ok (sizeofWlogRecDisk, buf)

/-- Copy a string out of the buffer unless it is empty; the array has been zeroed before. -/
def unpackString {n : ℕ} (buf : List UInt8) (pos len : ℕ) : Except Fault (CArray UInt8 n) :=
  if len > 0 then (CArray.fill n 0).memcpy buf pos len else .ok (CArray.fill n 0)

/-- `wlog_rec_unpack`. -/
def wlogRecUnpack (buf : List UInt8) : Except Fault WlogRec :=
  if buf.length < sizeofWlogRecDisk then .error .outOfBounds
  else do
    let hostlen := WlogRecDisk.hostlen.get buf
    let pathlen := WlogRecDisk.pathlen.get buf
    let patternlen := WlogRecDisk.patternlen.get buf
    let path ← unpackString buf sizeofWlogRecDisk pathlen
    let host ← unpackString buf (sizeofWlogRecDisk + pathlen) hostlen
    let pattern ← unpackString buf (sizeofWlogRecDisk + pathlen + hostlen) patternlen
    return {
      pid := WlogRecDisk.pid.get buf
      offset := int32 (WlogRecDisk.offset.get buf)
      nbytes := int32 (WlogRecDisk.nbytes.get buf)
      oflags := int32 (WlogRecDisk.oflags.get buf)
      done := WlogRecDisk.done.get buf
      async := WlogRecDisk.async.get buf
      host, hostlen, path, pathlen, pattern, patternlen }

/-- `wlog_record_write`: the value returned and the file. `wbuf` is the local buffer, whose
contents are indeterminate at first; writes and seeks succeed. -/
def wlogRecordWrite (wbuf : CArray UInt8 (wlogRecMaxSize + 2)) (wrec : WlogRec) (offset : ℤ)
    (file : List UInt8) : Except Fault (ℤ × List UInt8) := do
  let (reclen, wbuf) ← wlogRecPack wrec wbuf.cells (offset < 0)
  if offset < 0 then do
    let wbuf ← store wbuf reclen [UInt8.ofNat (reclen / 256)]
    let wbuf ← store wbuf (reclen + 1 : ℕ) [UInt8.ofNat (reclen % 256)]
    let data ← load wbuf 0 (reclen + 2 : ℕ)
    let file := file ++ data
    return ((file.length : ℤ) - (reclen + 2 : ℕ), file)
  else do
    let data ← load wbuf 0 reclen
    let pos := offset.toNat
    return (offset, file.take pos ++ List.replicate (pos - file.length) 0 ++ data ++
      file.drop (pos + data.length))

/-! ### What stands for a record -/

namespace WlogRec

variable (wrec : WlogRec)

/-- The lengths as the head holds them. -/
def diskPathlen : ℕ := (if wrec.pathlen > 0 then uint32 wrec.pathlen else 0) % 128

def diskHostlen : ℕ := (if wrec.hostlen > 0 then uint32 wrec.hostlen else 0) % 16

def diskPatternlen : ℕ := (if wrec.patternlen > 0 then uint32 wrec.patternlen else 0) % 64

/-- The strings as they follow the head. -/
def strings : List UInt8 :=
  slice wrec.path.cells 0 wrec.diskPathlen ++ (slice wrec.host.cells 0 wrec.diskHostlen ++
    slice wrec.pattern.cells 0 wrec.diskPatternlen)

/-- The length of the host name is in range as the head holds it; those of path and pattern always
are. -/
def HostFits : Prop := wrec.diskHostlen ≤ wlogMaxHost + 1

/-- The record as far as the head can hold it, with zeros behind the strings. -/
def decoded : WlogRec where
  pid := (uint32 wrec.pid % 2 ^ 17 : ℕ)
  offset := int32 (uint32 wrec.offset)
  nbytes := int32 (uint32 wrec.nbytes)
  oflags := int32 (uint32 wrec.oflags)
  done := (uint32 wrec.done % 2 : ℕ)
  async := (uint32 wrec.async % 2 : ℕ)
  host := .pad _ 0 (slice wrec.host.cells 0 wrec.diskHostlen)
  hostlen := wrec.diskHostlen
  path := .pad _ 0 (slice wrec.path.cells 0 wrec.diskPathlen)
  pathlen := wrec.diskPathlen
  pattern := .pad _ 0 (slice wrec.pattern.cells 0 wrec.diskPatternlen)
  patternlen := wrec.diskPatternlen

theorem diskPathlen_le : wrec.diskPathlen ≤ wlogMaxPath + 1 := by
  have : wrec.diskPathlen < 128 := Nat.mod_lt _ (by decide)
  rw [wlogMaxPath]
  omega

theorem diskPatternlen_le : wrec.diskPatternlen ≤ wlogMaxPattern + 1 := by
  have : wrec.diskPatternlen < 64 := Nat.mod_lt _ (by decide)
  rw [wlogMaxPattern]
  omega

theorem uint32_lt (x : ℤ) : uint32 x < 2 ^ 32 := by
  rw [uint32]
  omega

theorem inside_of_mem_fields (wrec : WlogRec) {len : ℕ} (hlen : sizeofWlogRecDisk ≤ len) :
    ∀ fv ∈ wrec.fields, fv.1.Inside len := by
  rw [sizeofWlogRecDisk] at hlen
  have hword : ∀ fv ∈ wrec.fields, fv.1.word ≤ 6 := by
    simp [fields, WlogRecDisk.pid, WlogRecDisk.offset, WlogRecDisk.nbytes, WlogRecDisk.oflags,
      WlogRecDisk.done, WlogRecDisk.async, WlogRecDisk.pathlen, WlogRecDisk.hostlen,
      WlogRecDisk.patternlen]
  intro fv hfv
  have := hword fv hfv
  rw [BitField.Inside]
  omega

/-- No two fields of the head share a bit. -/
theorem pairwise_fields : wrec.fields.Pairwise fun fv gw => gw.1.Apart fv.1 := by
  simp only [fields, List.pairwise_cons, List.forall_mem_cons, List.not_mem_nil, false_implies,
    implies_true, List.Pairwise.nil, and_true]
  decide

end WlogRec

/-- Seven words that hold the fields of a record. -/
structure EncodesHead (head : List UInt8) (wrec : WlogRec) : Prop where
  length_eq : head.length = sizeofWlogRecDisk
  fields : ∀ fv ∈ wrec.fields, fv.1.get head = fv.2 % 2 ^ fv.1.width

/-- The values of the fields, one by one. -/
structure HeadValues (obj : List UInt8) (wrec : WlogRec) : Prop where
  pid : WlogRecDisk.pid.get obj = uint32 wrec.pid % 2 ^ 17
  offset : WlogRecDisk.offset.get obj = uint32 wrec.offset
  nbytes : WlogRecDisk.nbytes.get obj = uint32 wrec.nbytes
  oflags : WlogRecDisk.oflags.get obj = uint32 wrec.oflags
  done : WlogRecDisk.done.get obj = uint32 wrec.done % 2
  async : WlogRecDisk.async.get obj = uint32 wrec.async % 2
  pathlen : WlogRecDisk.pathlen.get obj = wrec.diskPathlen
  hostlen : WlogRecDisk.hostlen.get obj = wrec.diskHostlen
  patternlen : WlogRecDisk.patternlen.get obj = wrec.diskPatternlen

theorem headValues_of_fields {obj : List UInt8} {wrec : WlogRec}
    (h : ∀ fv ∈ wrec.fields, fv.1.get obj = fv.2 % 2 ^ fv.1.width) : HeadValues obj wrec := by
  simp only [WlogRec.fields, List.forall_mem_cons] at h
  obtain ⟨hpid, hoffset, hnbytes, hoflags, hdone, hasync, hpathlen, hhostlen, hpatternlen, -⟩ := h
  exact ⟨hpid, hoffset.trans (Nat.mod_eq_of_lt (WlogRec.uint32_lt _)),
    hnbytes.trans (Nat.mod_eq_of_lt (WlogRec.uint32_lt _)),
    hoflags.trans (Nat.mod_eq_of_lt (WlogRec.uint32_lt _)), hdone, hasync, hpathlen, hhostlen,
    hpatternlen⟩

/-! ### Packing -/

section Packing

variable {wrec : WlogRec} {buf : List UInt8}

private theorem length_pathBytes (wrec : WlogRec) :
    (slice wrec.path.cells 0 wrec.diskPathlen).length = wrec.diskPathlen :=
  length_slice (by rw [wrec.path.length_eq, Nat.zero_add]; exact wrec.diskPathlen_le)

private theorem length_hostBytes (h : wrec.HostFits) :
    (slice wrec.host.cells 0 wrec.diskHostlen).length = wrec.diskHostlen :=
  length_slice (by rw [wrec.host.length_eq, Nat.zero_add]; exact h)

private theorem length_patternBytes (wrec : WlogRec) :
    (slice wrec.pattern.cells 0 wrec.diskPatternlen).length = wrec.diskPatternlen :=
  length_slice (by rw [wrec.pattern.length_eq, Nat.zero_add]; exact wrec.diskPatternlen_le)

theorem length_strings (h : wrec.HostFits) : wrec.strings.length =
    wrec.diskPathlen + (wrec.diskHostlen + wrec.diskPatternlen) := by
  rw [WlogRec.strings, List.length_append, List.length_append, length_pathBytes,
    length_hostBytes h, length_patternBytes]

/-- A record takes at most 28 + 127 + 9 + 63 bytes. -/
theorem length_strings_le (h : wrec.HostFits) : wrec.strings.length ≤ 199 := by
  have hpath : wrec.diskPathlen < 128 := Nat.mod_lt _ (by decide)
  have hpattern : wrec.diskPatternlen < 64 := Nat.mod_lt _ (by decide)
  have hhost : wrec.diskHostlen ≤ 8 + 1 := h
  rw [length_strings h]
  omega

/-- The head that packing leaves in a buffer encodes the record. -/
theorem encodesHead_putAll (wrec : WlogRec) (buf : List UInt8)
    (hbuf : sizeofWlogRecDisk ≤ buf.length) :
    EncodesHead (slice (putAll buf wrec.fields) 0 sizeofWlogRecDisk) wrec := by
  have hinside := WlogRec.inside_of_mem_fields wrec hbuf
  have hlen := length_putAll hinside
  have hslice : (slice (putAll buf wrec.fields) 0 sizeofWlogRecDisk).length = sizeofWlogRecDisk :=
    length_slice (by omega)
  refine ⟨hslice, fun fv hfv => ?_⟩
  rw [← get_putAll hinside wrec.pairwise_fields fv hfv]
  refine BitField.get_congr
    (WlogRec.inside_of_mem_fields wrec (Nat.le_refl sizeofWlogRecDisk) fv hfv) ?_
  simp [slice, List.take_take]

/-- A string goes behind the data that is there already. -/
private theorem packString_append (obj data str : List UInt8) (pos len : ℕ)
    (hpos : pos + (data.length + len) ≤ obj.length) (hlen : len ≤ str.length) :
    packString (overwrite obj pos data) (pos + data.length) str len =
      .ok (overwrite obj pos (data ++ slice str 0 len)) := by
  have hslice : (slice str 0 len).length = len := length_slice (by omega)
  have hobj : (overwrite obj pos data).length = obj.length := length_overwrite (by omega)
  rw [← overwrite_overwrite_append _ _ _ _ (by rw [List.length_append]; omega), packString]
  split_ifs with h
  · exact memcpy_eq_ok _ _ _ 0 _ (by omega) (by omega)
  · obtain rfl : len = 0 := by omega
    simp [slice]

private theorem packStrings_eq_ok {obj a b c : List UInt8} {pos p h q n : ℕ}
    (hpos : pos + (p + (h + q)) ≤ obj.length) (hp : p ≤ a.length) (hh : h ≤ b.length)
    (hq : q ≤ c.length) :
    (do
      let buf ← packString obj pos a p
      let buf ← packString buf (pos + p) b h
      let buf ← packString buf (pos + p + h) c q
      return (n, buf)) =
    Except.ok (ε := Fault)
      (n, overwrite obj pos (slice a 0 p ++ (slice b 0 h ++ slice c 0 q))) := by
  have hplen : (slice a 0 p).length = p := length_slice (by omega)
  have hhlen : (slice b 0 h).length = h := length_slice (by omega)
  have hone := packString_append obj [] a pos p
    (by simp only [List.length_nil]; omega) hp
  have htwo := packString_append obj (slice a 0 p) b pos h (by omega) hh
  have hthree := packString_append obj (slice a 0 p ++ slice b 0 h) c pos q
    (by rw [List.length_append]; omega) hq
  rw [overwrite_nil, List.length_nil, Nat.add_zero, List.nil_append] at hone
  rw [hplen] at htwo
  rw [List.length_append, hplen, hhlen, ← Nat.add_assoc, List.append_assoc] at hthree
  simp only [hone, htwo, hthree, bind, Except.bind, pure, Except.pure]

/-- Packing writes the fields and, behind the head, the strings. -/
theorem wlogRecPack_eq_ok (buf : List UInt8) (h : wrec.HostFits)
    (hbuf : sizeofWlogRecDisk + wrec.strings.length ≤ buf.length) :
    wlogRecPack wrec buf true = .ok (sizeofWlogRecDisk + wrec.strings.length,
      overwrite (putAll buf wrec.fields) sizeofWlogRecDisk wrec.strings) := by
  have hinside := WlogRec.inside_of_mem_fields wrec
    (show sizeofWlogRecDisk ≤ buf.length by omega)
  have hlen := length_putAll hinside
  have hvalues := headValues_of_fields (get_putAll hinside wrec.pairwise_fields)
  rw [length_strings h] at hbuf ⊢
  rw [wlogRecPack, if_neg (by omega), if_pos rfl, hvalues.pathlen, hvalues.hostlen,
    hvalues.patternlen, WlogRec.strings, ← Nat.add_assoc, ← Nat.add_assoc]
  exact packStrings_eq_ok (by omega) (by rw [wrec.path.length_eq]; exact wrec.diskPathlen_le)
    (by rw [wrec.host.length_eq]; exact h)
    (by rw [wrec.pattern.length_eq]; exact wrec.diskPatternlen_le)

theorem wlogRecPack_false (wrec : WlogRec) (buf : List UInt8)
    (hbuf : sizeofWlogRecDisk ≤ buf.length) :
    wlogRecPack wrec buf false = .ok (sizeofWlogRecDisk, putAll buf wrec.fields) := by
  rw [wlogRecPack, if_neg (by omega)]
  rfl

end Packing

/-! ### Unpacking -/

section Unpacking

variable {wrec : WlogRec} {buf head : List UInt8}

private theorem unpackString_eq_ok (buf : List UInt8) (pos : ℕ) {n len : ℕ} (hlen : len ≤ n)
    (hpos : pos + len ≤ buf.length) :
    unpackString (n := n) buf pos len = .ok (.pad n 0 (slice buf pos len)) := by
  rw [unpackString]
  split_ifs with h
  · exact CArray.memcpy_fill hlen hpos
  · obtain rfl : len = 0 := by omega
    simp [slice, CArray.pad_nil]

/-- The pieces of the strings, where they stand one behind the other. -/
private theorem slices_of_slice_eq (h : wrec.HostFits) {pos : ℕ}
    (hstrings : slice buf pos wrec.strings.length = wrec.strings) :
    slice buf pos wrec.diskPathlen = slice wrec.path.cells 0 wrec.diskPathlen ∧
    slice buf (pos + wrec.diskPathlen) wrec.diskHostlen =
      slice wrec.host.cells 0 wrec.diskHostlen ∧
    slice buf (pos + wrec.diskPathlen + wrec.diskHostlen) wrec.diskPatternlen =
      slice wrec.pattern.cells 0 wrec.diskPatternlen := by
  have hlen := congrArg List.length hstrings
  rw [length_strings h, ← slice_append, ← slice_append] at hstrings
  have hle : pos + (wrec.diskPathlen + (wrec.diskHostlen + wrec.diskPatternlen)) ≤ buf.length ∨
      wrec.diskPathlen + (wrec.diskHostlen + wrec.diskPatternlen) = 0 := by
    rw [length_strings h] at hlen
    simp only [slice, List.length_take, List.length_drop] at hlen
    omega
  have hpath : (slice buf pos wrec.diskPathlen).length = wrec.diskPathlen := by
    simp only [slice, List.length_take, List.length_drop]
    omega
  have hhost : (slice buf (pos + wrec.diskPathlen) wrec.diskHostlen).length =
      wrec.diskHostlen := by
    simp only [slice, List.length_take, List.length_drop]
    omega
  obtain ⟨hone, hrest⟩ := List.append_inj hstrings (by rw [hpath, length_pathBytes])
  obtain ⟨htwo, hthree⟩ := List.append_inj hrest (by rw [hhost, length_hostBytes h])
  exact ⟨hone, htwo, hthree⟩

/-- **Unpacking.** A buffer that starts with a head and the strings of a record is unpacked to that
record, as far as the head can hold it. -/
theorem wlogRecUnpack_eq_ok (buf : List UInt8) (h : wrec.HostFits) (hhead : EncodesHead head wrec)
    (hbuf : slice buf 0 (sizeofWlogRecDisk + wrec.strings.length) = head ++ wrec.strings) :
    wlogRecUnpack buf = .ok wrec.decoded := by
  have hroom : sizeofWlogRecDisk + wrec.strings.length ≤ buf.length := by
    have hlen := congrArg List.length hbuf
    simp only [slice, List.length_take, List.length_drop, List.length_append,
      hhead.length_eq] at hlen
    omega
  rw [← slice_append] at hbuf
  obtain ⟨hheadslice, hstrings⟩ := List.append_inj hbuf
    (by rw [length_slice (by omega), hhead.length_eq])
  rw [Nat.zero_add] at hstrings
  have hvalues : HeadValues buf wrec := headValues_of_fields fun fv hfv => by
    rw [← hhead.fields fv hfv]
    refine BitField.get_congr
      (WlogRec.inside_of_mem_fields wrec (Nat.le_refl sizeofWlogRecDisk) fv hfv) ?_
    rw [hheadslice, ← hhead.length_eq]
    simp [slice]
  obtain ⟨hpath, hhost, hpattern⟩ := slices_of_slice_eq h hstrings
  rw [length_strings h] at hroom
  rw [wlogRecUnpack, if_neg (by omega)]
  simp only [hvalues.pathlen, hvalues.hostlen, hvalues.patternlen,
    unpackString_eq_ok buf sizeofWlogRecDisk wrec.diskPathlen_le (by omega),
    unpackString_eq_ok buf (sizeofWlogRecDisk + wrec.diskPathlen) h (by omega),
    unpackString_eq_ok buf (sizeofWlogRecDisk + wrec.diskPathlen + wrec.diskHostlen)
      wrec.diskPatternlen_le (by omega),
    hpath, hhost, hpattern, hvalues.pid, hvalues.offset, hvalues.nbytes, hvalues.oflags,
    hvalues.done, hvalues.async, bind, Except.bind, pure, Except.pure, WlogRec.decoded]

end Unpacking

/-! ### Round trips -/

/-- The records agree in their scalars, their lengths and the bytes of their strings. -/
structure SameRecord (wrec wrec' : WlogRec) : Prop where
  pid : wrec'.pid = wrec.pid
  offset : wrec'.offset = wrec.offset
  nbytes : wrec'.nbytes = wrec.nbytes
  oflags : wrec'.oflags = wrec.oflags
  done : wrec'.done = wrec.done
  async : wrec'.async = wrec.async
  hostlen : wrec'.hostlen = wrec.hostlen
  pathlen : wrec'.pathlen = wrec.pathlen
  patternlen : wrec'.patternlen = wrec.patternlen
  host : slice wrec'.host.cells 0 wrec.hostlen.toNat = slice wrec.host.cells 0 wrec.hostlen.toNat
  path : slice wrec'.path.cells 0 wrec.pathlen.toNat = slice wrec.path.cells 0 wrec.pathlen.toNat
  pattern : slice wrec'.pattern.cells 0 wrec.patternlen.toNat =
    slice wrec.pattern.cells 0 wrec.patternlen.toNat

/-- A record that respects the documented maxima. -/
structure WithinMaxima (wrec : WlogRec) : Prop where
  pid : 0 ≤ wrec.pid ∧ wrec.pid < 131072
  offset : InInt32 wrec.offset
  nbytes : InInt32 wrec.nbytes
  oflags : InInt32 wrec.oflags
  done : wrec.done = 0 ∨ wrec.done = 1
  async : wrec.async = 0 ∨ wrec.async = 1
  hostlen : 0 ≤ wrec.hostlen ∧ wrec.hostlen ≤ wlogMaxHost
  pathlen : 0 ≤ wrec.pathlen ∧ wrec.pathlen ≤ wlogMaxPath
  patternlen : 0 ≤ wrec.patternlen ∧ wrec.patternlen ≤ wlogMaxPattern

/-- Packing into the buffer and unpacking from it gives the record back. -/
def RoundTrips (wrec : WlogRec) (buf : List UInt8) : Prop :=
  ∃ reclen packed wrec', wlogRecPack wrec buf true = .ok (reclen, packed) ∧
    wlogRecUnpack packed = .ok wrec' ∧ SameRecord wrec wrec'

section RoundTrip

variable {wrec : WlogRec} {buf : List UInt8}

/-- A length that fits into its bit-field is stored as it is, and a negative one as 0. -/
theorem diskLen_eq {len : ℤ} {m : ℕ} (hm : 0 < m ∧ m ≤ 128) (h : len < m) :
    (if len > 0 then uint32 len else 0) % m = len.toNat := by
  have huint : (if len > 0 then uint32 len else 0) = len.toNat := by
    rw [uint32]
    split_ifs <;> omega
  rw [huint, Nat.mod_eq_of_lt (by omega)]

theorem WithinMaxima.diskHostlen_eq (h : WithinMaxima wrec) :
    wrec.diskHostlen = wrec.hostlen.toNat := by
  obtain ⟨hlow, hhigh⟩ := h.hostlen
  rw [wlogMaxHost] at hhigh
  exact diskLen_eq (by omega) (by omega)

theorem WithinMaxima.hostFits (h : WithinMaxima wrec) : wrec.HostFits := by
  obtain ⟨hlow, hhigh⟩ := h.hostlen
  rw [WlogRec.HostFits, h.diskHostlen_eq]
  omega

private theorem slice_pad {n p : ℕ} {l : List UInt8} (hlen : l.length = p) (hp : p ≤ n) :
    slice (CArray.pad n 0 l).cells 0 p = l := by
  rw [slice, CArray.pad, List.drop_zero, List.take_take, Nat.min_eq_left hp, List.take_append,
    List.take_of_length_le (Nat.le_of_eq hlen), hlen, Nat.sub_self, List.take_zero,
    List.append_nil]

/-- Within the maxima, and with lengths that the head can hold, nothing is lost. -/
theorem sameRecord_decoded (h : WithinMaxima wrec) (hpathlen : wrec.pathlen < 128)
    (hpatternlen : wrec.patternlen < 64) : SameRecord wrec wrec.decoded := by
  have hhost := h.diskHostlen_eq
  have hpath : wrec.diskPathlen = wrec.pathlen.toNat :=
    diskLen_eq (by omega) (by omega)
  have hpattern : wrec.diskPatternlen = wrec.patternlen.toNat :=
    diskLen_eq (by omega) (by omega)
  refine
    { pid := ?_, offset := int32_uint32 h.offset, nbytes := int32_uint32 h.nbytes
      oflags := int32_uint32 h.oflags, done := ?_, async := ?_, hostlen := ?_, pathlen := ?_
      patternlen := ?_, host := ?_, path := ?_, pattern := ?_ }
  · obtain ⟨hlow, hhigh⟩ := h.pid
    simp only [WlogRec.decoded, uint32]
    omega
  · rcases h.done with hdone | hdone <;> simp [WlogRec.decoded, hdone, uint32]
  · rcases h.async with hasync | hasync <;> simp [WlogRec.decoded, hasync, uint32]
  · simp only [WlogRec.decoded, hhost]
    exact Int.toNat_of_nonneg h.hostlen.1
  · simp only [WlogRec.decoded, hpath]
    exact Int.toNat_of_nonneg h.pathlen.1
  · simp only [WlogRec.decoded, hpattern]
    exact Int.toNat_of_nonneg h.patternlen.1
  · rw [WlogRec.decoded, ← hhost]
    exact slice_pad (length_hostBytes h.hostFits) h.hostFits
  · rw [WlogRec.decoded, ← hpath]
    exact slice_pad (length_pathBytes wrec) wrec.diskPathlen_le
  · rw [WlogRec.decoded, ← hpattern]
    exact slice_pad (length_patternBytes wrec) wrec.diskPatternlen_le

/-- What is packed is unpacked to the record as far as the head can hold it. -/
theorem wlogRecUnpack_pack (h : wrec.HostFits) (buf : List UInt8)
    (hbuf : wlogRecMaxSize ≤ buf.length) :
    ∃ packed, wlogRecPack wrec buf true =
        .ok (sizeofWlogRecDisk + wrec.strings.length, packed) ∧
      wlogRecUnpack packed = .ok wrec.decoded := by
  have hstrings := length_strings_le h
  have hmax : wlogRecMaxSize = 450 := rfl
  have hdisk : sizeofWlogRecDisk = 28 := rfl
  have hlen := length_putAll (WlogRec.inside_of_mem_fields wrec
    (show sizeofWlogRecDisk ≤ buf.length by omega))
  have hroom : sizeofWlogRecDisk + wrec.strings.length ≤ (putAll buf wrec.fields).length := by
    omega
  refine ⟨_, wlogRecPack_eq_ok _ h (by omega),
    wlogRecUnpack_eq_ok _ h (encodesHead_putAll _ buf (by omega))
      (slice_overwrite_start _ _ _ hroom)⟩

/-- **Where packing can be undone.** A record within the documented maxima is unpacked from its
packed form if and only if its path has not 128 bytes and its pattern has not 64: the head has
seven bits for the one length and six for the other. -/
theorem roundTrips_iff (h : WithinMaxima wrec) (hbuf : wlogRecMaxSize ≤ buf.length) :
    RoundTrips wrec buf ↔ wrec.pathlen ≠ wlogMaxPath ∧ wrec.patternlen ≠ wlogMaxPattern := by
  obtain ⟨packed, hpack, hunpack⟩ := wlogRecUnpack_pack h.hostFits buf hbuf
  obtain ⟨hpathlow, hpathhigh⟩ := h.pathlen
  obtain ⟨hpatternlow, hpatternhigh⟩ := h.patternlen
  constructor
  · rintro ⟨reclen, packed', wrec', hpack', hunpack', hsame⟩
    obtain ⟨-, rfl⟩ := Prod.mk.inj (Except.ok.inj (hpack.symm.trans hpack'))
    obtain rfl := Except.ok.inj (hunpack.symm.trans hunpack')
    refine ⟨fun hmax => ?_, fun hmax => ?_⟩
    · have hlen := hsame.pathlen
      simp [WlogRec.decoded, WlogRec.diskPathlen, hmax, wlogMaxPath, uint32] at hlen
    · have hlen := hsame.patternlen
      simp [WlogRec.decoded, WlogRec.diskPatternlen, hmax, wlogMaxPattern, uint32] at hlen
  · rintro ⟨hpath, hpattern⟩
    rw [wlogMaxPath] at hpath hpathhigh
    rw [wlogMaxPattern] at hpattern hpatternhigh
    exact ⟨_, packed, _, hpack, hunpack, sameRecord_decoded h (by omega) (by omega)⟩

end RoundTrip

/-- A record with a path of the given length. -/
def recordWithPath (pathlen : ℤ) : WlogRec where
  pid := 1
  offset := 0
  nbytes := 512
  oflags := 1
  done := 1
  async := 0
  host := .fill _ 0
  hostlen := 0
  path := .fill _ 97
  pathlen
  pattern := .fill _ 0
  patternlen := 0

theorem withinMaxima_recordWithPath (pathlen : ℤ) (hlow : 0 ≤ pathlen) (hhigh : pathlen ≤ 128) :
    WithinMaxima (recordWithPath pathlen) where
  pid := by simp [recordWithPath]
  offset := by simp [recordWithPath, InInt32]
  nbytes := by simp [recordWithPath, InInt32]
  oflags := by simp [recordWithPath, InInt32]
  done := .inr rfl
  async := .inl rfl
  hostlen := by simp [recordWithPath]
  pathlen := ⟨hlow, hhigh⟩
  patternlen := by simp [recordWithPath]

theorem roundTrips_recordWithPath_127 :
    RoundTrips (recordWithPath 127) (List.replicate wlogRecMaxSize 0) :=
  (roundTrips_iff (withinMaxima_recordWithPath 127 (by decide) (by decide)) (by simp)).mpr
    ⟨by decide, by decide⟩

/-- A path of the documented maximum of 128 bytes is lost altogether. -/
theorem not_roundTrips_recordWithPath_128 : WithinMaxima (recordWithPath 128) ∧
    ¬ RoundTrips (recordWithPath 128) (List.replicate wlogRecMaxSize 0) := by
  have hwithin := withinMaxima_recordWithPath 128 (by decide) (by decide)
  refine ⟨hwithin, ?_⟩
  obtain ⟨packed, hpack, hunpack⟩ := wlogRecUnpack_pack hwithin.hostFits
    (List.replicate wlogRecMaxSize 0) (by simp)
  rintro ⟨reclen, packed', wrec', hpack', hunpack', hsame⟩
  obtain ⟨-, rfl⟩ := Prod.mk.inj (Except.ok.inj (hpack.symm.trans hpack'))
  obtain rfl := Except.ok.inj (hunpack.symm.trans hunpack')
  exact absurd hsame.pathlen (by decide)

end WriteLog

end SnowballLtp
