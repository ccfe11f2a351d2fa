import SnowballLtp.Ltp.WriteLogLook

/-!
# Stopping a scan

When the callback returns `WLOG_STOP_SCAN`, `wlog_scan_backward` leaves its inner loop and nothing
else: the outer loop reads the chunk in front of the one that was looked at and goes on in it, as
if a record ended where that chunk does. A log that fits into the buffer has no such chunk. In a
longer one the two bytes at the end of the chunk decide: when they claim a record that begins in
the chunk, the callback is called again.

## Main definitions

* `NotCalledAgain`, `StopsForGood`.
* `TakenAt`: what is taken for a record at the end of a chunk.

## Main results

* `stopsForGood_iff`.
* `stopsForGood_of_length_le`: a log that fits into the buffer.
* `not_stopsForGood_of_log`, `manyRequests_not_stopsForGood`: a log of 513 records.
-/

namespace SnowballLtp

namespace WriteLog

section

variable (signedChar : Bool) (buf : CArray UInt8 sizeofBuf) (albuf : CArray UInt8 wlogRecMaxSize)
  (file : List UInt8) (nrecs : ℤ) (func : List WlogRec → ℤ)

/-- The callback has stopped the scan at none of its calls but the last. -/
def NotCalledAgain (calls : List WlogRec) : Prop :=
  ∀ n, 0 < n → n < calls.length → func (calls.take n) ≠ wlogStopScan

/-- Once the callback has stopped the scan it is not called again. -/
def StopsForGood : Prop :=
  ∀ s, ScanReaches signedChar buf albuf file nrecs func s → NotCalledAgain func s.calls

/-- A chunk that ends at `stop` is seen as ending with a record: the length that its last two bytes
claim fits into it, and so many bytes can be copied to `albuf` and unpacked. -/
def TakenAt (albuf : List UInt8) (stop : ℕ) : Prop :=
  Fits signedChar file (stop - sizeofBuf) stop ∧
    ∃ r, recordAt signedChar file albuf stop = .ok r

end

section

variable {signedChar : Bool} {buf : CArray UInt8 sizeofBuf} {albuf : CArray UInt8 wlogRecMaxSize}
  {file : List UInt8} {nrecs : ℤ} {func : List WlogRec → ℤ} {a b : Look} {calls : List WlogRec}

theorem notCalledAgain_nil : NotCalledAgain func [] := fun _ _ hlt => absurd hlt (Nat.not_lt_zero _)

/-- One more call of a callback that has not stopped the scan. -/
theorem NotCalledAgain.append (h : NotCalledAgain func calls)
    (hgo : calls ≠ [] → func calls ≠ wlogStopScan) (wrec : WlogRec) :
    NotCalledAgain func (calls ++ [wrec]) := by
  intro n hpos hlt
  rw [List.length_append, List.length_singleton] at hlt
  rw [List.take_append_of_le_length (Nat.le_of_lt_succ hlt)]
  rcases Nat.lt_or_eq_of_le (Nat.le_of_lt_succ hlt) with hlt | rfl
  · exact h n hpos hlt
  · rw [List.take_length]
    exact hgo (List.length_pos_iff.mp hpos)

/-- One more call of a callback that has stopped the scan. -/
theorem not_notCalledAgain_append (hne : calls ≠ []) (hstopped : func calls = wlogStopScan)
    (wrec : WlogRec) : ¬ NotCalledAgain func (calls ++ [wrec]) := by
  intro h
  have hfunc := h calls.length (List.length_pos_iff.mpr hne) (by simp)
  rw [List.take_left] at hfunc
  exact hfunc hstopped

/-- The callback has just stopped the scan at the place `a.off`. -/
structure JustStopped (func : List WlogRec → ℤ) (a : Look) : Prop where
  place_eq : a.place = .outer
  stop_eq : a.stop = a.off
  calls_ne : a.calls ≠ []
  stopped : func a.calls = wlogStopScan

/-- Behind a stop the scan looks at whole chunks in which nothing is taken. -/
def Barren (signedChar : Bool) (file : List UInt8) (a : Look) : Prop :=
  ¬ TakenAt signedChar file a.albuf a.stop ∧
    (a.place = .outer ∧ a.stop = a.off ∨ a.off = a.stop - sizeofBuf)

/-- **Behind a stop** nothing is taken if nothing can be taken at the first chunk. -/
theorem notCalledAgain_of_reaches (h : LookReaches signedChar albuf file nrecs func a)
    (hcond : ∀ b, LookReaches signedChar albuf file nrecs func b → JustStopped func b →
      ¬ TakenAt signedChar file b.albuf b.off) :
    NotCalledAgain func a.calls ∧
      (a.calls ≠ [] → func a.calls = wlogStopScan → Barren signedChar file a) := by
  induction h with
  | refl => exact ⟨notCalledAgain_nil, fun hne => absurd rfl hne⟩
  | @tail a b ha hstep ih =>
    obtain ⟨hagain, hbarren⟩ := ih
    obtain ⟨houter, -, -, rfl⟩ | ⟨hinner, -, rfl⟩ | ⟨hinner, hfits, albuf', wrec, hrecord, rfl⟩ :=
      lookStep_cases hstep
    · exact ⟨hagain, fun hne hstopped => ⟨(hbarren hne hstopped).1, .inr rfl⟩⟩
    · refine ⟨hagain, fun hne hstopped => ⟨(hbarren hne hstopped).1, .inr ?_⟩⟩
      refine (hbarren hne hstopped).2.resolve_left fun hplace => ?_
      exact absurd (hinner.symm.trans hplace.1) (by decide)
    · have hgo : a.calls ≠ [] → func a.calls ≠ wlogStopScan := by
        intro hne hstopped
        obtain ⟨htaken, hwhere⟩ := hbarren hne hstopped
        have hoff : a.off = a.stop - sizeofBuf := hwhere.resolve_left fun hplace =>
          absurd (hinner.symm.trans hplace.1) (by decide)
        exact htaken ⟨hoff ▸ hfits, _, hrecord⟩
      have hcalls := @Look.calls_called signedChar file nrecs func a albuf' wrec
      refine ⟨by rw [hcalls]; exact hagain.append hgo wrec, fun hne hstopped => ?_⟩
      rw [hcalls] at hne hstopped
      obtain ⟨-, hb⟩ | ⟨hnot, -⟩ | ⟨hnot, -⟩ :=
        Look.called_cases signedChar file nrecs func a albuf' wrec
      · have hreach := Passes.step ha hstep
        rw [hb] at hreach ⊢
        exact ⟨hcond _ hreach ⟨rfl, rfl, hne, hstopped⟩, .inl ⟨rfl, rfl⟩⟩
      · exact absurd hstopped hnot
      · exact absurd hstopped hnot

/-- The call behind a stop, when something can be taken. -/
theorem called_of_taken (h : LookReaches signedChar albuf file nrecs func a)
    (hstopped : JustStopped func a) (htaken : TakenAt signedChar file a.albuf a.off) :
    ∃ b wrec, LookReaches signedChar albuf file nrecs func b ∧ b.calls = a.calls ++ [wrec] := by
  have hwanted := wanted_of_reaches h (.inr ⟨hstopped.calls_ne, hstopped.stopped⟩)
  rw [← hstopped.stop_eq] at htaken
  obtain ⟨hfits, r, hrecord⟩ := htaken
  obtain ⟨b, hb, hcalls⟩ := (exists_call_iff h).mpr ⟨hwanted, hfits, r.1, hrecord⟩
  exact ⟨b, r.2, hb, hcalls⟩

/-- **A stop is final** if and only if, whenever the callback has stopped the scan with the last
chunk read from `offset` on, no record is seen at the end of the chunk in front of it. -/
theorem stopsForGood_iff :
    StopsForGood signedChar buf albuf file nrecs func ↔
      ∀ s, ScanReaches signedChar buf albuf file nrecs func s → s.place = .outer →
        s.leftover = 0 → s.calls ≠ [] → func s.calls = wlogStopScan →
          ¬ TakenAt signedChar file s.albuf s.offset.toNat := by
  have hjust : ∀ s a, Follows file s a → a.place = .outer →
      s.offset.toNat = a.off ∧ (s.leftover = 0 ↔ a.stop = a.off) := by
    intro s a h hplace
    obtain ⟨start, -, -, hshows⟩ := h.shows
    rw [Shows, hplace] at hshows
    have hle := h.off_le
    exact ⟨hshows.1, by rw [hshows.2.1]; omega⟩
  constructor
  · intro h s hs hplace hleftover hne hstopped htaken
    obtain ⟨a, ha, hfollows⟩ := hs.exists_look
    have hplace' : a.place = .outer := hfollows.place_eq.symm.trans hplace
    obtain ⟨hoff, hstop⟩ := hjust s a hfollows hplace'
    rw [hfollows.calls_eq] at hne hstopped
    rw [hfollows.albuf_eq, hoff] at htaken
    obtain ⟨b, wrec, hb, hcalls⟩ :=
      called_of_taken ha ⟨hplace', hstop.mp hleftover, hne, hstopped⟩ htaken
    obtain ⟨t, ht, hfollows'⟩ := Passes.exists_scan buf hb
    have hagain := h t ht
    rw [hfollows'.calls_eq, hcalls] at hagain
    exact not_notCalledAgain_append hne hstopped wrec hagain
  · intro h s hs
    obtain ⟨a, ha, hfollows⟩ := hs.exists_look
    rw [hfollows.calls_eq]
    refine (notCalledAgain_of_reaches ha fun b hb hstopped => ?_).1
    obtain ⟨t, ht, hfollows'⟩ := Passes.exists_scan buf hb
    obtain ⟨hoff, hstop⟩ := hjust t b hfollows' hstopped.place_eq
    have hcond := h t ht (hfollows'.place_eq.trans hstopped.place_eq) (hstop.mpr hstopped.stop_eq)
    rw [hfollows'.calls_eq, hfollows'.albuf_eq, hoff] at hcond
    exact hcond hstopped.calls_ne hstopped.stopped

/-- **A log that fits into the buffer** has no chunk in front of the first one. -/
theorem stopsForGood_of_length_le (h : file.length ≤ sizeofBuf) :
    StopsForGood signedChar buf albuf file nrecs func := by
  refine stopsForGood_iff.mpr fun s hs hplace _ hne _ htaken => ?_
  obtain ⟨a, ha, hfollows⟩ := hs.exists_look
  have hzero : a.stop ≤ sizeofBuf ∧ (a.place = .inner ∨ a.calls ≠ [] → a.off = 0) := by
    refine ha.invariant
      (fun a => a.stop ≤ sizeofBuf ∧ (a.place = .inner ∨ a.calls ≠ [] → a.off = 0))
      ⟨?_, by simp [Look.start]⟩ fun a b ⟨hstop, hoff⟩ hstep => ?_
    · have hlow : int32 file.length ≤ file.length := by
        rw [int32]
        omega
      dsimp only [Look.start]
      omega
    · obtain ⟨-, -, -, rfl⟩ | ⟨hinner, -, rfl⟩ | ⟨hinner, -, albuf', wrec, -, rfl⟩ :=
        lookStep_cases hstep
      · exact ⟨hstop, fun _ => Nat.sub_eq_zero_of_le hstop⟩
      · exact ⟨hstop, fun _ => hoff (.inl hinner)⟩
      · have hb := hoff (.inl hinner)
        obtain ⟨-, h⟩ | ⟨-, -, -, h⟩ | ⟨-, -, h⟩ :=
          Look.called_cases signedChar file nrecs func a albuf' wrec
        · rw [h]
          exact ⟨by dsimp only; omega, fun _ => hb⟩
        · rw [h]
          exact ⟨by dsimp only; omega, fun _ => hb⟩
        · rw [h]
          exact ⟨by dsimp only; omega, fun _ => hb⟩
  obtain ⟨start, -, -, hshows⟩ := hfollows.shows
  rw [Shows, hfollows.place_eq.symm.trans hplace] at hshows
  rw [hfollows.calls_eq] at hne
  have htwo := htaken.1.1
  rw [hshows.1, hzero.2 (.inr hne)] at htwo
  omega

/-- A log whose last records fill the buffer, where the callback stops at once: the scan goes on at
the place where they begin. -/
theorem lookReaches_stop_of_log {signedChar : Bool} {es fs : List Entry} {e' : Entry}
    (hfile : file = fileOf (es ++ (fs ++ [e']))) (hint : file.length < 2147483648)
    (hfull : (fileOf (fs ++ [e'])).length = sizeofBuf) (hnrecs : 0 ≤ nrecs)
    (hshort : ¬ (signedChar = true ∧ 128 ≤ e'.reclen)) (hpos : 0 < (fileOf es).length)
    (hfunc : ∀ calls, func calls = wlogStopScan) :
    ∃ albuf', albuf'.length = wlogRecMaxSize ∧
      LookReaches signedChar albuf file nrecs func
        ⟨.outer, (fileOf es).length, (fileOf es).length, 0, albuf', [e'.wrec.decoded]⟩ := by
  have hsize : sizeofBuf = 16384 := rfl
  have hmax : wlogRecMaxSize = 450 := rfl
  have hall : file = fileOf (es ++ fs ++ [e']) := by rw [hfile, List.append_assoc]
  have hwhole : fileOf (es ++ fs ++ [e']) <+: file := hall ▸ List.prefix_refl _
  have hlen : (fileOf (es ++ fs ++ [e'])).length = file.length := by rw [← hall]
  have hsplit : file.length = (fileOf es).length + sizeofBuf := by
    rw [hfile, fileOf_append, List.length_append, hfull]
  have hbounds := e'.reclen_bounds
  have hclaimed : claimed signedChar file file.length = e'.reclen := by
    rw [← hlen, claimed_of_log hwhole, if_neg hshort]
  have hchunk := (lookReaches_start signedChar albuf nrecs func hint).step
    (lookStep_refill rfl (by dsimp only; omega) (by dsimp only; omega))
  dsimp only at hchunk
  rw [show file.length - sizeofBuf = (fileOf es).length by omega] at hchunk
  have hrecord := recordAt_of_log albuf.length_eq hwhole (by rw [hlen, hclaimed])
  rw [hlen] at hrecord
  have hfits : Fits signedChar file (fileOf es).length file.length :=
    ⟨by omega, by rw [hclaimed]; omega⟩
  have hcalled := hchunk.step (lookStep_take rfl hfits hrecord)
  refine ⟨overwrite albuf.cells 0 (e'.head ++ e'.wrec.strings), ?_, ?_⟩
  · rw [length_overwrite (by rw [e'.length_body, albuf.length_eq]; omega), albuf.length_eq]
  · obtain ⟨-, hb⟩ | ⟨hgo, -⟩ | ⟨hgo, -⟩ := Look.called_cases signedChar file nrecs func
      ⟨.inner, (fileOf es).length, file.length, 0, albuf.cells, []⟩
      (overwrite albuf.cells 0 (e'.head ++ e'.wrec.strings)) e'.wrec.decoded
    · rwa [hb] at hcalled
    · exact absurd (hfunc _) hgo
    · exact absurd (hfunc _) hgo

/-- Where the scan goes on at the end of a record, that record is taken. -/
theorem next_of_log {signedChar : Bool} {es : List Entry} {e : Entry}
    (hfront : fileOf (es ++ [e]) <+: file) (hshort : ¬ (signedChar = true ∧ 128 ≤ e.reclen))
    (hwanted : nrecs = 0 ∨ a.recnum < nrecs) (hstop : a.stop = (fileOf (es ++ [e])).length)
    (halbuf : a.albuf.length = wlogRecMaxSize) : Next signedChar file nrecs a e.wrec.decoded := by
  have hsize : sizeofBuf = 16384 := rfl
  have hbounds := e.reclen_bounds
  have hlen := length_fileOf_snoc es e
  have hclaimed : claimed signedChar file (fileOf (es ++ [e])).length = e.reclen := by
    rw [claimed_of_log hfront, if_neg hshort]
  have hrecord := recordAt_of_log halbuf hfront hclaimed
  rw [← hstop] at hclaimed hlen hrecord
  exact ⟨hwanted, ⟨by omega, by rw [hclaimed]; omega⟩, _, hrecord⟩

/-- Then the record in front of them is taken as well. -/
theorem not_stopsForGood_of_log {es fs : List Entry} {e e' : Entry}
    (hfile : file = fileOf (es ++ [e] ++ (fs ++ [e']))) (hint : file.length < 2147483648)
    (hfull : (fileOf (fs ++ [e'])).length = sizeofBuf) (hnrecs : 0 ≤ nrecs)
    (hfunc : ∀ calls, func calls = wlogStopScan) :
    ¬ StopsForGood false buf albuf file nrecs func := by
  have hfront : fileOf (es ++ [e]) <+: file := by
    rw [hfile, fileOf_append (es ++ [e])]
    exact List.prefix_append _ _
  have hpos := length_fileOf_pos es e
  obtain ⟨albuf', halbuf, hreach⟩ := @lookReaches_stop_of_log albuf file nrecs func false _ _ _
    hfile hint hfull hnrecs (by simp) (by omega) hfunc
  obtain ⟨b, hb, hcalls⟩ := (exists_call_iff hreach).mpr
    (next_of_log hfront (by simp) (by dsimp only; omega) rfl halbuf)
  obtain ⟨s, hs, hfollows⟩ := Passes.exists_scan buf hb
  intro h
  have hagain := h s hs
  rw [hfollows.calls_eq, hcalls] at hagain
  exact not_notCalledAgain_append (by simp) (hfunc _) e.wrec.decoded hagain

end

/-! ### A log of 513 records -/

/-- The same append a number of times. -/
theorem foldl_record_replicate (wbuf : CArray UInt8 (wlogRecMaxSize + 2)) (wrec : WlogRec)
    (offset : ℤ) (n : ℕ) (recs : List WlogRec) :
    (List.replicate n (Request.append wbuf wrec offset)).foldl record recs =
      recs ++ List.replicate n wrec := by
  induction n generalizing recs with
  | zero => simp
  | succ n ih =>
    rw [List.replicate_succ, List.foldl_cons, ih, record, List.append_assoc, List.replicate_succ]
    rfl

theorem allValid_replicate {wbuf : CArray UInt8 (wlogRecMaxSize + 2)} {wrec : WlogRec}
    {offset : ℤ} (hwrec : Recordable wrec) (hoffset : offset < 0) (n : ℕ) (recs : List WlogRec) :
    AllValid recs (List.replicate n (.append wbuf wrec offset)) := by
  induction n generalizing recs with
  | zero => trivial
  | succ n ih => exact ⟨⟨hwrec, hoffset⟩, ih _⟩

theorem length_fileOf_of_reclen {es : List Entry} {n : ℕ} (h : ∀ e ∈ es, e.reclen = n) :
    (fileOf es).length = es.length * (n + 2) := by
  induction es with
  | nil => simp
  | cons e es ih =>
    obtain ⟨he, hes⟩ := List.forall_mem_cons.mp h
    rw [show fileOf (e :: es) = e.image ++ fileOf es from rfl, List.length_append, e.length_image,
      he, ih hes, List.length_cons, Nat.succ_mul, Nat.add_comm]

/-- 513 appends of a record whose path has two bytes. -/
def manyRequests : List Request :=
  List.replicate 513 (.append (.fill _ 0) (recordWithPath 2) (-1))

/-- The file is 32 bytes longer than the buffer, and a callback that always stops the scan is called
a second time. -/
theorem manyRequests_not_stopsForGood :
    ∃ log, Log.writes { file := [], offsets := [] } manyRequests = .ok log ∧
      AllValid [] manyRequests ∧
      ¬ StopsForGood false (.fill _ 0) (.fill _ 0) log.file 0 fun _ => wlogStopScan := by
  have hrecordable : Recordable (recordWithPath 2) :=
    ⟨withinMaxima_recordWithPath 2 (by decide) (by decide), by decide, by decide⟩
  have hvalid : AllValid [] manyRequests := allValid_replicate hrecordable (by decide) 513 []
  obtain ⟨log, entries, hwrites, hrepresents⟩ := writes_refine Represents.nil hvalid
  refine ⟨log, hwrites, hvalid, ?_⟩
  have hrecs := hrepresents.recs_eq
  rw [manyRequests, foldl_record_replicate, List.nil_append] at hrecs
  have hlen : entries.length = 513 := by
    have h := congrArg List.length hrecs
    rwa [List.length_replicate, List.length_map, eq_comm] at h
  have hreclen : ∀ e ∈ entries, e.reclen = 30 := by
    intro e he
    have hwrec : e.wrec ∈ List.replicate 513 (recordWithPath 2) :=
      hrecs ▸ List.mem_map_of_mem he
    rw [Entry.reclen, List.eq_of_mem_replicate hwrec]
    decide
  have hfile := hrepresents.file_eq
  obtain ⟨e, rest, rfl⟩ := List.exists_cons_of_length_eq_add_one hlen
  obtain rfl | ⟨fs, e', rfl⟩ := List.eq_nil_or_concat rest
  · simp at hlen
  rw [List.concat_eq_append] at hfile hlen hreclen
  have hrest : (fs ++ [e']).length = 512 := by simpa using hlen
  have hfull := length_fileOf_of_reclen fun x hx => hreclen x (List.mem_cons_of_mem e hx)
  have hwhole := length_fileOf_of_reclen hreclen
  rw [hrest] at hfull
  rw [hlen, ← hfile] at hwhole
  have hfile' : log.file = fileOf ([] ++ [e] ++ (fs ++ [e'])) := hfile
  exact not_stopsForGood_of_log hfile' (by omega) hfull le_rfl fun _ => rfl

end WriteLog

end SnowballLtp
