import SnowballLtp.Ltp.WriteLog

/-!
# The file of a write log

Seen from outside, a write log is a list of records: an append puts a record at its end, an overlay
gives an earlier record the scalars of a new one and leaves its strings. The file holds one image
for each record, the head, the strings and the length of both in two bytes. `fileOf` is the file of
a list of entries, a record together with the head that stands for it; `writes_refine` says that
any sequence of writes which names its overlays by offsets returned earlier leaves the file of the
abstract log.

## Main definitions

* `Entry`, `Entry.image`, `fileOf`.
* `Request`, `Request.Valid`, `record`: what is asked of the log, and the abstract log.
* `writes`: the calls of `wlog_record_write`.

## Main results

* `writes_refine`.
-/

namespace SnowballLtp

namespace WriteLog

/-! ### Images -/

/-- The two bytes behind a record. -/
def trailer (reclen : ℕ) : List UInt8 := [UInt8.ofNat (reclen / 256), UInt8.ofNat (reclen % 256)]

/-- A record and the head that stands for it in the file. -/
structure Entry where
  head : List UInt8
  wrec : WlogRec
  encodes : EncodesHead head wrec
  hostFits : wrec.HostFits

namespace Entry

/-- The size of the record without its trailer. -/
def reclen (e : Entry) : ℕ := sizeofWlogRecDisk + e.wrec.strings.length

/-- The bytes of the record in the file. -/
def image (e : Entry) : List UInt8 := e.head ++ e.wrec.strings ++ trailer e.reclen

theorem length_image (e : Entry) : e.image.length = e.reclen + 2 := by
  simp [image, trailer, reclen, e.encodes.length_eq, Nat.add_assoc]

theorem reclen_bounds (e : Entry) : 28 ≤ e.reclen ∧ e.reclen ≤ 227 := by
  have := length_strings_le e.hostFits
  rw [reclen, sizeofWlogRecDisk]
  omega

end Entry

/-- The file of a log. -/
def fileOf (es : List Entry) : List UInt8 := es.flatMap Entry.image

@[simp] theorem fileOf_nil : fileOf [] = [] := rfl

theorem fileOf_append (es fs : List Entry) : fileOf (es ++ fs) = fileOf es ++ fileOf fs :=
  List.flatMap_append

theorem fileOf_singleton (e : Entry) : fileOf [e] = e.image := by
  simp [fileOf]

/-! ### One write -/

/-- Two bytes stored behind the data of a buffer, and all of it read again. -/
private theorem load_trailer (obj data : List UInt8) (pos : ℕ) (x y : UInt8)
    (hfit : pos + data.length + 2 ≤ obj.length) :
    store (overwrite obj pos data) (pos + data.length : ℕ) [x] =
      .ok (overwrite obj pos (data ++ [x])) ∧
    store (overwrite obj pos (data ++ [x])) (pos + data.length + 1 : ℕ) [y] =
      .ok (overwrite obj pos (data ++ [x, y])) ∧
    load (overwrite obj pos (data ++ [x, y])) 0 (pos + data.length + 2 : ℕ) =
      .ok (slice obj 0 pos ++ data ++ [x, y]) := by
  have hfirst := store_overwrite_append obj data [x] pos
    (by rw [List.length_append, List.length_singleton]; omega)
  have hsecond := store_overwrite_append obj (data ++ [x]) [y] pos
    (by simp only [List.length_append, List.length_singleton]; omega)
  have hall : pos + (data ++ [x, y]).length ≤ obj.length := by
    simp only [List.length_append, List.length_cons, List.length_nil]
    omega
  have hload := load_eq_ok (overwrite obj pos (data ++ [x, y])) 0
    (pos + (data ++ [x, y]).length) (by rw [length_overwrite hall]; omega)
  rw [List.append_assoc, List.length_append, List.length_singleton, ← Nat.add_assoc] at hsecond
  rw [slice_overwrite_start _ _ _ hall, List.length_append, ← List.append_assoc,
    ← Nat.add_assoc] at hload
  exact ⟨hfirst, hsecond, hload⟩

section Writes

variable {wrec : WlogRec} (wbuf : CArray UInt8 (wlogRecMaxSize + 2)) {offset : ℤ}
  (file : List UInt8)

/-- An append puts the image of the record at the end and returns where it begins. -/
theorem wlogRecordWrite_append (h : wrec.HostFits) (hoffset : offset < 0) :
    ∃ e : Entry, e.wrec = wrec ∧ wlogRecordWrite wbuf wrec offset file =
      .ok (file.length, file ++ e.image) := by
  have hstrings := length_strings_le h
  have hdisk : sizeofWlogRecDisk = 28 := rfl
  have hwbuf : wbuf.cells.length = 452 := wbuf.length_eq
  have hlen := length_putAll (WlogRec.inside_of_mem_fields wrec
    (show sizeofWlogRecDisk ≤ wbuf.cells.length by omega))
  have hpack := wlogRecPack_eq_ok wbuf.cells h (by omega)
  obtain ⟨hfirst, hsecond, hload⟩ := load_trailer (putAll wbuf.cells wrec.fields)
    wrec.strings sizeofWlogRecDisk
    (UInt8.ofNat ((sizeofWlogRecDisk + wrec.strings.length) / 256))
    (UInt8.ofNat ((sizeofWlogRecDisk + wrec.strings.length) % 256)) (by omega)
  have hencodes := encodesHead_putAll wrec wbuf.cells (by omega)
  have hslice := hencodes.length_eq
  refine ⟨⟨slice (putAll wbuf.cells wrec.fields) 0 sizeofWlogRecDisk, wrec, hencodes, h⟩, rfl,
    ?_⟩
  simp only [wlogRecordWrite, decide_eq_true hoffset, hpack, if_pos hoffset, hfirst, hsecond,
    hload, bind, Except.bind, pure, Except.pure, Entry.image, Entry.reclen, trailer,
    Except.ok.injEq, Prod.mk.injEq, and_true]
  rw [List.length_append, List.length_append, List.length_append, hslice]
  simp only [List.length_cons, List.length_nil]
  omega

/-- An overlay replaces the head at the offset and returns the offset. -/
theorem wlogRecordWrite_overlay (wrec : WlogRec) {pos : ℕ} (hpos : pos ≤ file.length) :
    ∃ head, EncodesHead head wrec ∧ wlogRecordWrite wbuf wrec pos file =
      .ok (pos, file.take pos ++ head ++ file.drop (pos + sizeofWlogRecDisk)) := by
  have hdisk : sizeofWlogRecDisk = 28 := rfl
  have hwbuf : wbuf.cells.length = 452 := wbuf.length_eq
  have hlen := length_putAll (WlogRec.inside_of_mem_fields wrec
    (show sizeofWlogRecDisk ≤ wbuf.cells.length by omega))
  have hencodes := encodesHead_putAll wrec wbuf.cells (by omega)
  have hload := load_eq_ok (putAll wbuf.cells wrec.fields) 0 sizeofWlogRecDisk
    (by omega)
  rw [show ((0 : ℕ) : ℤ) = 0 from rfl] at hload
  refine ⟨_, hencodes, ?_⟩
  have hnonneg : ¬ (pos : ℤ) < 0 := by omega
  simp only [wlogRecordWrite, decide_eq_false hnonneg, if_neg hnonneg,
    wlogRecPack_false wrec wbuf.cells (by omega), hload, bind, Except.bind,
    pure, Except.pure, Int.toNat_natCast, hencodes.length_eq]
  rw [Nat.sub_eq_zero_of_le hpos, List.replicate_zero, List.append_nil]

end Writes

/-! ### Sequences of writes -/

/-- A record within the maxima whose lengths the head can hold. -/
structure Recordable (wrec : WlogRec) : Prop extends WithinMaxima wrec where
  pathlen_lt : wrec.pathlen < 128
  patternlen_lt : wrec.patternlen < 64

/-- The strings of both records have the same lengths. -/
structure SameLengths (wrec wrec' : WlogRec) : Prop where
  hostlen : wrec'.hostlen = wrec.hostlen
  pathlen : wrec'.pathlen = wrec.pathlen
  patternlen : wrec'.patternlen = wrec.patternlen

/-- The strings of the old record with everything else of the new one. -/
def WlogRec.overlaidBy (old new : WlogRec) : WlogRec :=
  { new with host := old.host, path := old.path, pattern := old.pattern }

/-- What is asked of the log: to append a record, which any negative offset does, or to overlay the
record of an earlier append at the offset which that append returned. -/
inductive Request
  | append (wbuf : CArray UInt8 (wlogRecMaxSize + 2)) (wrec : WlogRec) (offset : ℤ)
  | overlay (wbuf : CArray UInt8 (wlogRecMaxSize + 2)) (wrec : WlogRec) (nth : ℕ)

/-- The log as a list of records. -/
def record (recs : List WlogRec) : Request → List WlogRec
  | .append _ wrec _ => recs ++ [wrec]
  | .overlay _ wrec nth =>
    match recs[nth]? with
    | some old => recs.set nth (old.overlaidBy wrec)
    | none => recs

/-- The request respects the format and, for an overlay, the lengths of the record it overlays. -/
def Request.Valid (recs : List WlogRec) : Request → Prop
  | .append _ wrec offset => Recordable wrec ∧ offset < 0
  | .overlay _ wrec nth => Recordable wrec ∧ ∃ old, recs[nth]? = some old ∧ SameLengths old wrec

/-- Every request is valid when its turn comes. -/
def AllValid : List WlogRec → List Request → Prop
  | _, [] => True
  | recs, request :: requests => request.Valid recs ∧ AllValid (record recs request) requests

/-- The file and the offsets that the appends have returned. -/
structure Log where
  file : List UInt8
  offsets : List ℤ

/-- The call of `wlog_record_write` for a request. -/
def Log.write (log : Log) : Request → Except Fault Log
  | .append wbuf wrec offset => do
    let (ret, file) ← wlogRecordWrite wbuf wrec offset log.file
    return { file, offsets := log.offsets ++ [ret] }
  | .overlay wbuf wrec nth => do
    let (_, file) ← wlogRecordWrite wbuf wrec (log.offsets.getD nth 0) log.file
    return { log with file }

/-- The calls one after the other. -/
def Log.writes : Log → List Request → Except Fault Log
  | log, [] => .ok log
  | log, request :: requests => do
    let log ← log.write request
    log.writes requests

/-! ### The file follows the log -/

/-- The file holds the images of the records, and each append has returned where its image
begins. -/
structure Represents (recs : List WlogRec) (es : List Entry) (log : Log) : Prop where
  recs_eq : recs = es.map Entry.wrec
  recordable : ∀ wrec ∈ recs, Recordable wrec
  file_eq : log.file = fileOf es
  length_offsets : log.offsets.length = es.length
  offset_eq : ∀ n < es.length, log.offsets[n]? = some ((fileOf (es.take n)).length : ℤ)

theorem Represents.nil : Represents [] [] { file := [], offsets := [] } :=
  ⟨rfl, fun _ h => absurd h List.not_mem_nil, rfl, rfl, fun _ h => absurd h (Nat.not_lt_zero _)⟩

section Overlay

variable {old new : WlogRec}

theorem WlogRec.strings_overlaidBy (h : SameLengths old new) :
    (old.overlaidBy new).strings = old.strings := by
  simp only [WlogRec.strings, WlogRec.diskPathlen, WlogRec.diskHostlen, WlogRec.diskPatternlen,
    WlogRec.overlaidBy, h.hostlen, h.pathlen, h.patternlen]

theorem Recordable.overlaidBy (h : Recordable new) : Recordable (old.overlaidBy new) :=
  ⟨⟨h.pid, h.offset, h.nbytes, h.oflags, h.done, h.async, h.hostlen, h.pathlen, h.patternlen⟩,
    h.pathlen_lt, h.patternlen_lt⟩

/-- The entry after its head has been replaced. -/
private def Entry.overlay (e : Entry) {head : List UInt8} (hhead : EncodesHead head new)
    (h : Recordable new) : Entry where
  head
  wrec := e.wrec.overlaidBy new
  encodes := ⟨hhead.length_eq, hhead.fields⟩
  hostFits := h.overlaidBy.hostFits

private theorem Entry.reclen_overlay (e : Entry) {head : List UInt8} (hhead : EncodesHead head new)
    (h : Recordable new) (hsame : SameLengths e.wrec new) :
    (e.overlay hhead h).reclen = e.reclen := by
  rw [Entry.reclen, Entry.overlay, WlogRec.strings_overlaidBy hsame, Entry.reclen]

end Overlay

/-- An entry of the same size in the place of another leaves every offset where it is. -/
private theorem length_fileOf_set {es : List Entry} {n : ℕ} {e e' : Entry} (he : es[n]? = some e)
    (hlen : e'.reclen = e.reclen) : (fileOf (es.set n e')).length = (fileOf es).length := by
  obtain ⟨hn, rfl⟩ := List.getElem?_eq_some_iff.mp he
  conv_rhs => rw [← List.set_getElem_self hn]
  rw [List.set_eq_take_append_cons_drop, List.set_eq_take_append_cons_drop, if_pos hn, if_pos hn]
  simp only [fileOf, List.flatMap_append, List.flatMap_cons, List.length_append,
    Entry.length_image, hlen]

/-- Replacing a head in the file is replacing the entry. -/
private theorem fileOf_set {es : List Entry} {n : ℕ} {e : Entry} (e' : Entry)
    (he : es[n]? = some e)
    (hstrings : e'.wrec.strings = e.wrec.strings) :
    fileOf (es.set n e') = (fileOf es).take (fileOf (es.take n)).length ++ e'.head ++
      (fileOf es).drop ((fileOf (es.take n)).length + sizeofWlogRecDisk) := by
  obtain ⟨hn, rfl⟩ := List.getElem?_eq_some_iff.mp he
  have hsplit : fileOf es = fileOf (es.take n) ++ ((es[n]).head ++
      ((es[n]).wrec.strings ++ trailer (es[n]).reclen ++ fileOf (es.drop (n + 1)))) := by
    conv_lhs => rw [← List.set_getElem_self hn, List.set_eq_take_append_cons_drop, if_pos hn]
    simp only [fileOf, List.flatMap_append, List.flatMap_cons, Entry.image, List.append_assoc]
  have hset : fileOf (es.set n e') = fileOf (es.take n) ++ (e'.head ++
      (e'.wrec.strings ++ trailer e'.reclen ++ fileOf (es.drop (n + 1)))) := by
    rw [List.set_eq_take_append_cons_drop, if_pos hn]
    simp only [fileOf, List.flatMap_append, List.flatMap_cons, Entry.image, List.append_assoc]
  have hreclen : e'.reclen = (es[n]).reclen := by rw [Entry.reclen, hstrings, Entry.reclen]
  generalize fileOf (es.drop (n + 1)) = rest at hset hsplit
  rw [hset, hsplit, List.take_left, hstrings, hreclen, ← (es[n]).encodes.length_eq,
    ← List.drop_drop, List.drop_left, List.drop_left]
  simp only [List.append_assoc]

/-- What an append does to the log. -/
private theorem Represents.append {recs : List WlogRec} {es : List Entry} {log : Log}
    {wrec : WlogRec} {offset : ℤ} (h : Represents recs es log)
    (wbuf : CArray UInt8 (wlogRecMaxSize + 2)) (hwrec : Recordable wrec) (hneg : offset < 0) :
    ∃ log' es', log.write (.append wbuf wrec offset) = .ok log' ∧
      Represents (record recs (.append wbuf wrec offset)) es' log' := by
  obtain ⟨rfl, hrecordable, hfile, hoffsets, hoffset⟩ := h
  obtain ⟨e, rfl, hwrite⟩ := wlogRecordWrite_append wbuf log.file hwrec.hostFits hneg
  refine ⟨⟨log.file ++ e.image, log.offsets ++ [(log.file.length : ℤ)]⟩, es ++ [e],
    by simp only [Log.write, hwrite, bind, Except.bind, pure, Except.pure], ?_⟩
  refine ⟨by simp [record], ?_, ?_, by simp [hoffsets], fun n hn => ?_⟩
  · intro wrec hmem
    rcases List.mem_append.mp hmem with hold | hnew
    · exact hrecordable wrec hold
    · rw [List.mem_singleton.mp hnew]
      exact hwrec
  · rw [fileOf_append, fileOf_singleton, hfile]
  · rw [List.length_append, List.length_singleton] at hn
    rcases Nat.lt_or_ge n es.length with hlt | hge
    · rw [List.getElem?_append_left (by omega), List.take_append_of_le_length (by omega)]
      exact hoffset n hlt
    · obtain rfl : n = es.length := by omega
      rw [List.getElem?_append_right (by omega), hoffsets, Nat.sub_self, List.take_left, hfile]
      rfl

/-- What an overlay does to the log. -/
private theorem Represents.overlay {recs : List WlogRec} {es : List Entry} {log : Log}
    {wrec old : WlogRec} {nth : ℕ} (h : Represents recs es log)
    (wbuf : CArray UInt8 (wlogRecMaxSize + 2)) (hwrec : Recordable wrec)
    (hold : recs[nth]? = some old) (hsame : SameLengths old wrec) :
    ∃ log' es', log.write (.overlay wbuf wrec nth) = .ok log' ∧
      Represents (record recs (.overlay wbuf wrec nth)) es' log' := by
  obtain ⟨rfl, hrecordable, hfile, hoffsets, hoffset⟩ := h
  rw [List.getElem?_map, Option.map_eq_some_iff] at hold
  obtain ⟨e, he, rfl⟩ := hold
  have hnth : nth < es.length := (List.getElem?_eq_some_iff.mp he).1
  have hpos : (fileOf (es.take nth)).length ≤ log.file.length := by
    rw [hfile]
    conv_rhs => rw [← List.take_append_drop nth es, fileOf_append, List.length_append]
    omega
  obtain ⟨head, hhead, hwrite⟩ := wlogRecordWrite_overlay wbuf log.file wrec hpos
  have hreclen := e.reclen_overlay hhead hwrec hsame
  have hrecs : record (es.map Entry.wrec) (.overlay wbuf wrec nth) =
      (es.map Entry.wrec).set nth (e.wrec.overlaidBy wrec) := by
    simp [record, List.getElem?_map, he]
  refine ⟨⟨log.file.take (fileOf (es.take nth)).length ++ head ++
    log.file.drop ((fileOf (es.take nth)).length + sizeofWlogRecDisk), log.offsets⟩,
    es.set nth (e.overlay hhead hwrec), ?_, ?_⟩
  · simp only [Log.write, List.getD_eq_getElem?_getD, hoffset nth hnth, Option.getD_some, hwrite,
      bind, Except.bind, pure, Except.pure]
  · rw [hrecs]
    refine ⟨by rw [List.map_set]; rfl, ?_, ?_, by simpa using hoffsets, fun n hn => ?_⟩
    · intro wrec' hmem
      rcases List.mem_or_eq_of_mem_set hmem with hold | rfl
      · exact hrecordable wrec' hold
      · exact hwrec.overlaidBy
    · rw [fileOf_set (e.overlay hhead hwrec) he (WlogRec.strings_overlaidBy hsame), ← hfile]
      rfl
    · rw [List.length_set] at hn
      rw [hoffset n hn, List.take_set]
      congr 2
      rcases Nat.lt_or_ge nth n with hlt | hge
      · rw [length_fileOf_set (by rw [List.getElem?_take_of_lt hlt]; exact he) hreclen]
      · rw [List.set_eq_of_length_le (by rw [List.length_take]; omega)]

/-- What one request does to the log. -/
private theorem Represents.write {recs : List WlogRec} {es : List Entry} {log : Log}
    {request : Request} (h : Represents recs es log) (hvalid : request.Valid recs) :
    ∃ log' es', log.write request = .ok log' ∧ Represents (record recs request) es' log' := by
  cases request with
  | append wbuf wrec offset => exact h.append wbuf hvalid.1 hvalid.2
  | overlay wbuf wrec nth =>
    obtain ⟨hwrec, old, hold, hsame⟩ := hvalid
    exact h.overlay wbuf hwrec hold hsame

/-- **The file refines the abstract log.** A valid sequence of requests is carried out, and leaves
the images of the records that the requests describe. -/
theorem writes_refine {recs : List WlogRec} {es : List Entry} {log : Log}
    {requests : List Request} (h : Represents recs es log) (hvalid : AllValid recs requests) :
    ∃ log' es', log.writes requests = .ok log' ∧
      Represents (requests.foldl record recs) es' log' := by
  induction requests generalizing recs es log with
  | nil => exact ⟨log, es, rfl, h⟩
  | cons request requests ih =>
    obtain ⟨hfirst, hrest⟩ := hvalid
    obtain ⟨log', es', hwrite, h'⟩ := h.write hfirst
    obtain ⟨log'', es'', hwrites, h''⟩ := ih h' hrest
    exact ⟨log'', es'', by rw [Log.writes, hwrite]; exact hwrites, h''⟩

end WriteLog

end SnowballLtp
