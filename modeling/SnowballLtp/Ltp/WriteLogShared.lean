import Mathlib.Logic.Function.Basic
import SnowballLtp.Machine.Reachability
import SnowballLtp.Ltp.WriteLogScan

/-!
# A write log of several processes

Any number of processes write to one log, each through its `wlog_file`: a descriptor for appends
and one for overlays. A call of `wlog_record_write` makes two system calls, and those of other
processes come in between. An append writes its record at the end of the file in one call, and
asks in a second one where its descriptor stands. An overlay moves its descriptor in the first
call, and writes in the second one.

When every process has opened the log itself, nobody moves its descriptors. Then a run of all
processes has the effect of its writes one after the other on the abstract log: an append returns
where its own record begins, an overlay replaces the head of its own record, and a scan finds every
record once. Two processes that have inherited one `wlog_file` may each be told where the record
of the other begins.

## Main definitions

* `writtenBytes`, `writeAt`: what a call writes, and where.
* `Shared`, `SharedStep`, `sharedMachine`: the system calls of the processes.
* `SharedInv`.

## Main results

* `wlogRecordWrite_eq`: a call without others in between.
* `offsetsRight_iff`: when the appends of every run return where their records begin.
* `scan_of_shared`: what a scan finds, at any moment.
-/

namespace SnowballLtp

namespace WriteLog

/-! ### The system calls of one call -/

/-- What `wlog_record_write` writes: the packed record, with its length when it is appended. -/
def writtenBytes (wbuf : CArray UInt8 (wlogRecMaxSize + 2)) (wrec : WlogRec) (flag : Bool) :
    Except Fault (List UInt8) := do
  let (reclen, wbuf) ← wlogRecPack wrec wbuf.cells flag
  if flag then do
    let wbuf ← store wbuf reclen [UInt8.ofNat (reclen / 256)]
    let wbuf ← store wbuf (reclen + 1 : ℕ) [UInt8.ofNat (reclen % 256)]
    load wbuf 0 (reclen + 2 : ℕ)
  else load wbuf 0 reclen

/-- A `write` at a place of the file, which may be behind its end. -/
def writeAt (file : List UInt8) (pos : ℕ) (data : List UInt8) : List UInt8 :=
  file.take pos ++ List.replicate (pos - file.length) 0 ++ data ++ file.drop (pos + data.length)

theorem length_of_load {obj data : List UInt8} {len : ℕ} (h : load obj 0 len = .ok data) :
    data.length = len := by
  rw [load] at h
  split_ifs at h with hneg hbounds
  obtain rfl := Except.ok.inj h
  rw [Int.toNat_zero, Int.toNat_natCast]
  exact length_slice (by omega)

/-- **A call without others in between.** An append returns where its descriptor stands behind the
write, less what it has written. -/
theorem wlogRecordWrite_eq (wbuf : CArray UInt8 (wlogRecMaxSize + 2)) (wrec : WlogRec) (offset : ℤ)
    (file : List UInt8) :
    wlogRecordWrite wbuf wrec offset file =
      (writtenBytes wbuf wrec (offset < 0)).map fun data =>
        if offset < 0 then (((file ++ data).length : ℤ) - data.length, file ++ data)
        else (offset, writeAt file offset.toNat data) := by
  rw [wlogRecordWrite, writtenBytes]
  cases hpack : wlogRecPack wrec wbuf.cells (offset < 0) with
  | error fault => rfl
  | ok packed =>
    obtain ⟨reclen, buf⟩ := packed
    by_cases hoffset : offset < 0
    · simp only [hoffset, decide_true, if_true, bind, Except.bind]
      cases hfirst : store buf reclen [UInt8.ofNat (reclen / 256)] with
      | error fault => rfl
      | ok buf₁ =>
        dsimp only
        cases hsecond : store buf₁ (reclen + 1 : ℕ) [UInt8.ofNat (reclen % 256)] with
        | error fault => rfl
        | ok buf₂ =>
          dsimp only
          cases hload : load buf₂ 0 (reclen + 2 : ℕ) with
          | error fault => rfl
          | ok data =>
            rw [← length_of_load hload]
            rfl
    · simp only [hoffset, decide_false, if_false, bind, Except.bind, Bool.false_eq_true]
      cases hload : load buf 0 (reclen : ℤ) with
      | error fault => rfl
      | ok data => rfl

section Requests

variable {wbuf : CArray UInt8 (wlogRecMaxSize + 2)} {wrec : WlogRec} {data : List UInt8}

theorem Log.write_append (hdata : writtenBytes wbuf wrec true = .ok data) (log : Log) :
    log.write (.append wbuf wrec (-1)) =
      .ok { file := log.file ++ data, offsets := log.offsets ++ [(log.file.length : ℤ)] } := by
  have hneg : (-1 : ℤ) < 0 := by decide
  rw [Log.write, wlogRecordWrite_eq, decide_eq_true hneg, hdata]
  simp [Except.map, bind, Except.bind, pure, Except.pure]

theorem Log.write_overlay (hdata : writtenBytes wbuf wrec false = .ok data) {log : Log} {n pos : ℕ}
    (hoffset : log.offsets[n]? = some (pos : ℤ)) :
    log.write (.overlay wbuf wrec n) = .ok { log with file := writeAt log.file pos data } := by
  have hnonneg : ¬(pos : ℤ) < 0 := by omega
  rw [Log.write, List.getD_eq_getElem?_getD, hoffset, Option.getD_some, wlogRecordWrite_eq,
    decide_eq_false hnonneg, hdata]
  simp [Except.map, hnonneg, bind, Except.bind, pure, Except.pure]

end Requests

/-- One request, carried out. -/
theorem Represents.of_write {recs : List WlogRec} {es : List Entry} {log log' : Log}
    {request : Request} (h : Represents recs es log) (hvalid : request.Valid recs)
    (hwrite : log.write request = .ok log') :
    ∃ es', Represents (record recs request) es' log' := by
  have hall : AllValid recs [request] := ⟨hvalid, trivial⟩
  obtain ⟨log'', es', hwrites, h'⟩ := writes_refine h hall
  rw [Log.writes, hwrite] at hwrites
  obtain rfl : log' = log'' := Except.ok.inj hwrites
  exact ⟨es', h'⟩

/-- An overlay stays valid while the log is written to. -/
theorem Request.Valid.record {recs : List WlogRec} {wbuf : CArray UInt8 (wlogRecMaxSize + 2)}
    {wrec : WlogRec} {n : ℕ} (h : (Request.overlay wbuf wrec n).Valid recs) {request : Request}
    (hrequest : request.Valid recs) :
    (Request.overlay wbuf wrec n).Valid (record recs request) := by
  obtain ⟨hwrec, old, hold, hsame⟩ := h
  obtain ⟨hlt, -⟩ := List.getElem?_eq_some_iff.mp hold
  refine ⟨hwrec, ?_⟩
  cases request with
  | append wbuf' wrec' offset =>
    exact ⟨old, by rw [WriteLog.record, List.getElem?_append_left hlt, hold], hsame⟩
  | overlay wbuf' wrec' n' =>
    obtain ⟨-, old', hold', hsame'⟩ := hrequest
    simp only [WriteLog.record, hold']
    by_cases hn : n' = n
    · subst hn
      obtain rfl : old' = old := Option.some.inj (hold'.symm.trans hold)
      exact ⟨_, List.getElem?_set_self hlt, hsame.hostlen.trans hsame'.hostlen.symm,
        hsame.pathlen.trans hsame'.pathlen.symm, hsame.patternlen.trans hsame'.patternlen.symm⟩
    · exact ⟨old, by rw [List.getElem?_set_ne hn, hold], hsame⟩

/-! ### The processes -/

/-- Where a process is: outside `wlog_record_write`, or between its two system calls, with the
number of the record that it is about. -/
inductive Stage
  | ready
  | appended (reclen n : ℕ)
  | sought (wbuf : CArray UInt8 (wlogRecMaxSize + 2)) (wrec : WlogRec) (n : ℕ)

/-- The system calls of process `i`. -/
inductive SharedStep (ι : Type*)
  /-- `write (w_afd)` in an append. -/
  | append (i : ι) (wbuf : CArray UInt8 (wlogRecMaxSize + 2)) (wrec : WlogRec)
  /-- `lseek (w_afd, 0, SEEK_CUR)` behind it, and the return. -/
  | tell (i : ι)
  /-- `lseek (w_rfd, offset, SEEK_SET)` in an overlay, at the offset of the `k`-th append of the
  process. -/
  | seek (i : ι) (wbuf : CArray UInt8 (wlogRecMaxSize + 2)) (wrec : WlogRec) (k : ℕ)
  /-- `write (w_rfd)` behind it, and the return. -/
  | put (i : ι)

/-- The log, and the processes that write to it. A `wlog_file` has two positions. -/
structure Shared (ι δ : Type*) where
  /-- The file, and where each record begins in it. -/
  log : Log
  /-- The abstract log. -/
  recs : List WlogRec
  afd : δ → ℕ
  rfd : δ → ℕ
  stage : ι → Stage
  /-- The offsets that the appends of a process have returned, with the numbers of their
  records. -/
  returned : ι → List (ℤ × ℕ)

section Machine

variable {ι δ : Type*} [DecidableEq ι] [DecidableEq δ] (d : ι → δ)

/-- The state after a system call; process `i` writes through the `wlog_file` `d i`. -/
def Shared.next (s : Shared ι δ) : SharedStep ι → Option (Shared ι δ)
  | .append i wbuf wrec =>
    match s.stage i, writtenBytes wbuf wrec true with
    | .ready, .ok data => some { s with
        log :=
          { file := s.log.file ++ data, offsets := s.log.offsets ++ [(s.log.file.length : ℤ)] }
        recs := record s.recs (.append wbuf wrec (-1))
        afd := Function.update s.afd (d i) (s.log.file ++ data).length
        stage := Function.update s.stage i (.appended data.length s.recs.length) }
    | _, _ => none
  | .tell i =>
    match s.stage i with
    | .appended reclen n => some { s with
        stage := Function.update s.stage i .ready
        returned := Function.update s.returned i
          (s.returned i ++ [((s.afd (d i) : ℤ) - reclen, n)]) }
    | _ => none
  | .seek i wbuf wrec k =>
    match s.stage i, (s.returned i)[k]? with
    | .ready, some (offset, n) =>
      if 0 ≤ offset then some { s with
        rfd := Function.update s.rfd (d i) offset.toNat
        stage := Function.update s.stage i (.sought wbuf wrec n) }
      else none
    | _, _ => none
  | .put i =>
    match s.stage i with
    | .sought wbuf wrec n =>
      match writtenBytes wbuf wrec false with
      | .ok data => some { s with
          log := { s.log with file := writeAt s.log.file (s.rfd (d i)) data }
          recs := record s.recs (.overlay wbuf wrec n)
          rfd := Function.update s.rfd (d i) (s.rfd (d i) + data.length)
          stage := Function.update s.stage i .ready }
      | .error _ => none
    | _ => none

/-- The processes begin with a log that any writes have left. -/
def sharedMachine : Machine (Shared ι δ) (SharedStep ι) where
  init s := (∃ es, Represents s.recs es s.log) ∧ (∀ i, s.stage i = .ready) ∧
    ∀ i, s.returned i = []
  next := Shared.next d

/-- The records respect the format, and an overlay the lengths of the record that it is to
replace. -/
def Shared.Valid (s : Shared ι δ) : SharedStep ι → Prop
  | .append _ _ wrec => Recordable wrec
  | .seek i _ wrec k => Recordable wrec ∧
      ∀ r ∈ (s.returned i)[k]?, ∃ old, s.recs[r.2]? = some old ∧ SameLengths old wrec
  | _ => True

/-- Every append has returned where its record begins. -/
def Shared.OffsetsRight (s : Shared ι δ) : Prop :=
  ∀ i, ∀ r ∈ s.returned i, s.log.offsets[r.2]? = some r.1

/-! ### What a system call does -/

variable {d} {s s' : Shared ι δ} {step : SharedStep ι}

/-- The system calls that are made, with what they find. -/
inductive SharedMove (d : ι → δ) (s : Shared ι δ) : SharedStep ι → Shared ι δ → Prop
  | append (i : ι) (wbuf : CArray UInt8 (wlogRecMaxSize + 2)) (wrec : WlogRec) (data : List UInt8)
      (hstage : s.stage i = .ready) (hdata : writtenBytes wbuf wrec true = .ok data) :
      SharedMove d s (.append i wbuf wrec) { s with
        log :=
          { file := s.log.file ++ data, offsets := s.log.offsets ++ [(s.log.file.length : ℤ)] }
        recs := record s.recs (.append wbuf wrec (-1))
        afd := Function.update s.afd (d i) (s.log.file ++ data).length
        stage := Function.update s.stage i (.appended data.length s.recs.length) }
  | tell (i : ι) (reclen n : ℕ) (hstage : s.stage i = .appended reclen n) :
      SharedMove d s (.tell i) { s with
        stage := Function.update s.stage i .ready
        returned := Function.update s.returned i
          (s.returned i ++ [((s.afd (d i) : ℤ) - reclen, n)]) }
  | seek (i : ι) (wbuf : CArray UInt8 (wlogRecMaxSize + 2)) (wrec : WlogRec) (k pos n : ℕ)
      (hstage : s.stage i = .ready) (hoffset : (s.returned i)[k]? = some ((pos : ℤ), n)) :
      SharedMove d s (.seek i wbuf wrec k) { s with
        rfd := Function.update s.rfd (d i) pos
        stage := Function.update s.stage i (.sought wbuf wrec n) }
  | put (i : ι) (wbuf : CArray UInt8 (wlogRecMaxSize + 2)) (wrec : WlogRec) (n : ℕ)
      (data : List UInt8) (hstage : s.stage i = .sought wbuf wrec n)
      (hdata : writtenBytes wbuf wrec false = .ok data) :
      SharedMove d s (.put i) { s with
        log := { s.log with file := writeAt s.log.file (s.rfd (d i)) data }
        recs := record s.recs (.overlay wbuf wrec n)
        rfd := Function.update s.rfd (d i) (s.rfd (d i) + data.length)
        stage := Function.update s.stage i .ready }

theorem sharedMove_of_next (h : s.next d step = some s') : SharedMove d s step s' := by
  cases step with
  | append i wbuf wrec =>
    rw [Shared.next] at h
    split at h
    · obtain rfl := Option.some.inj h
      exact .append i wbuf wrec _ ‹_› ‹_›
    · cases h
  | tell i =>
    rw [Shared.next] at h
    split at h
    · obtain rfl := Option.some.inj h
      exact .tell i _ _ ‹_›
    · cases h
  | seek i wbuf wrec k =>
    rw [Shared.next] at h
    split at h
    · obtain ⟨hnonneg, h⟩ := Option.ite_none_right_eq_some.mp h
      obtain rfl := Option.some.inj h
      exact .seek i wbuf wrec k _ _ ‹_› (by rwa [Int.toNat_of_nonneg hnonneg])
    · cases h
  | put i =>
    rw [Shared.next] at h
    split at h
    · split at h
      · obtain rfl := Option.some.inj h
        exact .put i _ _ _ _ ‹_› ‹_›
      · cases h
    · cases h

theorem SharedMove.next (h : SharedMove d s step s') : s.next d step = some s' := by
  cases h with
  | append i wbuf wrec data hstage hdata => simp only [Shared.next, hstage, hdata]
  | tell i reclen n hstage => simp only [Shared.next, hstage]
  | seek i wbuf wrec k pos n hstage hoffset =>
    simp only [Shared.next, hstage, hoffset, Int.natCast_nonneg, if_true, Int.toNat_natCast]
  | put i wbuf wrec n data hstage hdata => simp only [Shared.next, hstage, hdata]

/-! ### Processes that have opened the log themselves -/

/-- The file holds the abstract log, and the descriptors of the processes stand where they have
been left. -/
structure SharedInv (d : ι → δ) (s : Shared ι δ) : Prop where
  represents : ∃ es, Represents s.recs es s.log
  right : s.OffsetsRight
  appended : ∀ i reclen n, s.stage i = .appended reclen n →
    s.log.offsets[n]? = some ((s.afd (d i) : ℤ) - reclen)
  sought : ∀ i wbuf wrec n, s.stage i = .sought wbuf wrec n →
    s.log.offsets[n]? = some (s.rfd (d i) : ℤ) ∧ (Request.overlay wbuf wrec n).Valid s.recs

/-- The stage of a process behind a call of process `i`. -/
theorem stage_update {stage : ι → Stage} {i j : ι} {new t : Stage}
    (h : Function.update stage i new j = t) : j = i ∧ new = t ∨ j ≠ i ∧ stage j = t := by
  by_cases hj : j = i
  · subst hj
    exact .inl ⟨rfl, by rwa [Function.update_self] at h⟩
  · exact .inr ⟨hj, by rwa [Function.update_of_ne hj] at h⟩

/-- **Every system call keeps the invariant.** -/
theorem SharedInv.next (hd : Function.Injective d) (h : SharedInv d s) (hvalid : s.Valid step)
    (hnext : s.next d step = some s') : SharedInv d s' := by
  obtain ⟨es, hrepresents⟩ := h.represents
  cases sharedMove_of_next hnext with
  | append i wbuf wrec data hstage hdata =>
    have hrequest : (Request.append wbuf wrec (-1)).Valid s.recs := ⟨hvalid, by decide⟩
    have hgrow {n : ℕ} {offset : ℤ} (hn : s.log.offsets[n]? = some offset) :
        (s.log.offsets ++ [(s.log.file.length : ℤ)])[n]? = some offset := by
      rw [List.getElem?_append_left (List.getElem?_eq_some_iff.mp hn).1, hn]
    refine ⟨hrepresents.of_write hrequest (s.log.write_append hdata), fun j r hr => ?_,
      fun j reclen n hj => ?_, fun j wbuf' wrec' n hj => ?_⟩
    · exact hgrow (h.right j r hr)
    · obtain ⟨rfl, hnew⟩ | ⟨hne, hold⟩ := stage_update hj
      · obtain ⟨rfl, rfl⟩ := Stage.appended.inj hnew
        have hlen : s.recs.length = s.log.offsets.length := by
          rw [hrepresents.recs_eq, List.length_map, hrepresents.length_offsets]
        dsimp only
        rw [Function.update_self, hlen, List.getElem?_concat_length, List.length_append]
        simp
      · dsimp only
        rw [Function.update_of_ne (hd.ne hne)]
        exact hgrow (h.appended j reclen n hold)
    · obtain ⟨rfl, hnew⟩ | ⟨hne, hold⟩ := stage_update hj
      · cases hnew
      · obtain ⟨hoffset, hoverlay⟩ := h.sought j wbuf' wrec' n hold
        exact ⟨hgrow hoffset, hoverlay.record hrequest⟩
  | tell i reclen n hstage =>
    refine ⟨⟨es, hrepresents⟩, fun j r hr => ?_, fun j reclen' n' hj => ?_,
      fun j wbuf' wrec' n' hj => ?_⟩
    · dsimp only at hr
      by_cases hj : j = i
      · subst hj
        rw [Function.update_self] at hr
        obtain hr | hr := List.mem_append.mp hr
        · exact h.right j r hr
        · rw [List.mem_singleton.mp hr]
          exact h.appended j reclen n hstage
      · rw [Function.update_of_ne hj] at hr
        exact h.right j r hr
    · obtain ⟨rfl, hnew⟩ | ⟨hne, hold⟩ := stage_update hj
      · cases hnew
      · exact h.appended j reclen' n' hold
    · obtain ⟨rfl, hnew⟩ | ⟨hne, hold⟩ := stage_update hj
      · cases hnew
      · exact h.sought j wbuf' wrec' n' hold
  | seek i wbuf wrec k pos n hstage hoffset =>
    refine ⟨⟨es, hrepresents⟩, h.right, fun j reclen n' hj => ?_, fun j wbuf' wrec' n' hj => ?_⟩
    · obtain ⟨rfl, hnew⟩ | ⟨hne, hold⟩ := stage_update hj
      · cases hnew
      · exact h.appended j reclen n' hold
    · obtain ⟨rfl, hnew⟩ | ⟨hne, hold⟩ := stage_update hj
      · obtain ⟨rfl, rfl, rfl⟩ := Stage.sought.inj hnew
        dsimp only
        rw [Function.update_self]
        exact ⟨h.right j _ (List.mem_of_getElem? hoffset), hvalid.1, hvalid.2 _ hoffset⟩
      · dsimp only
        rw [Function.update_of_ne (hd.ne hne)]
        exact h.sought j wbuf' wrec' n' hold
  | put i wbuf wrec n data hstage hdata =>
    obtain ⟨hoffset, hrequest⟩ := h.sought i wbuf wrec n hstage
    refine ⟨hrepresents.of_write hrequest (Log.write_overlay hdata hoffset), h.right,
      fun j reclen n' hj => ?_, fun j wbuf' wrec' n' hj => ?_⟩
    · obtain ⟨rfl, hnew⟩ | ⟨hne, hold⟩ := stage_update hj
      · cases hnew
      · exact h.appended j reclen n' hold
    · obtain ⟨rfl, hnew⟩ | ⟨hne, hold⟩ := stage_update hj
      · cases hnew
      · obtain ⟨hoffset', hoverlay⟩ := h.sought j wbuf' wrec' n' hold
        dsimp only
        rw [Function.update_of_ne (hd.ne hne)]
        exact ⟨hoffset', hoverlay.record hrequest⟩

theorem sharedInv_of_reachable (hd : Function.Injective d)
    (h : (sharedMachine d).ReachableVia Shared.Valid s) : SharedInv d s := by
  refine h.invariant (fun s hs => ?_) fun s step s' hI hvalid hnext => hI.next hd hvalid hnext
  obtain ⟨hrepresents, hready, hnone⟩ := hs
  exact ⟨hrepresents, fun i r hr => by simp [hnone] at hr, fun i _ _ hi => by simp [hready] at hi,
    fun i _ _ _ hi => by simp [hready] at hi⟩

/-! ### The offsets and the scan -/

/-- The bytes of an append are the image of an entry of the record. -/
theorem writtenBytes_append (wbuf : CArray UInt8 (wlogRecMaxSize + 2)) {wrec : WlogRec}
    (h : wrec.HostFits) :
    ∃ e : Entry, e.wrec = wrec ∧ writtenBytes wbuf wrec true = .ok e.image := by
  have hneg : (-1 : ℤ) < 0 := by decide
  obtain ⟨e, hwrec, hwrite⟩ := wlogRecordWrite_append wbuf [] h hneg
  refine ⟨e, hwrec, ?_⟩
  rw [wlogRecordWrite_eq, decide_eq_true hneg] at hwrite
  cases hbytes : writtenBytes wbuf wrec true with
  | error fault =>
    rw [hbytes] at hwrite
    cases hwrite
  | ok data =>
    rw [hbytes] at hwrite
    have hfile := congrArg Prod.snd (Except.ok.inj hwrite)
    exact congrArg Except.ok hfile

variable (d)

/-- The processes before their first calls, with an empty log. -/
def Shared.fresh : Shared ι δ where
  log := { file := [], offsets := [] }
  recs := []
  afd _ := 0
  rfd _ := 0
  stage _ := .ready
  returned _ := []

/-- Two processes append the same record before either of them asks for its offset. -/
theorem exists_two_appends {i j : ι} (hne : i ≠ j) {wrec : WlogRec} (hrecordable : Recordable wrec)
    (wbuf : CArray UInt8 (wlogRecMaxSize + 2)) :
    ∃ (e : Entry) (s : Shared ι δ), (sharedMachine d).ReachableVia Shared.Valid s ∧
      s.log = { file := e.image ++ e.image, offsets := [0, (e.image.length : ℤ)] } ∧
      s.recs = [wrec, wrec] ∧ s.stage i = .appended e.image.length 0 ∧
      s.afd (d j) = e.image.length + e.image.length := by
  obtain ⟨e, -, hdata⟩ := writtenBytes_append wbuf hrecordable.hostFits
  have hstart : (sharedMachine d).ReachableVia Shared.Valid Shared.fresh :=
    .init ⟨⟨[], Represents.nil⟩, fun _ => rfl, fun _ => rfl⟩
  have hready : (Shared.fresh : Shared ι δ).stage i = .ready := rfl
  have hfirst := hstart.step (SharedStep.append i wbuf wrec) hrecordable
    (SharedMove.append i _ _ _ hready hdata).next
  have hready' : Function.update (fun _ : ι => Stage.ready) i (.appended e.image.length 0) j =
      .ready := Function.update_of_ne hne.symm _ _
  have hsecond := hfirst.step (SharedStep.append j wbuf wrec) hrecordable
    (SharedMove.append j _ _ _ hready' hdata).next
  refine ⟨e, _, hsecond, rfl, rfl, ?_, ?_⟩
  · dsimp only
    rw [Function.update_of_ne hne, Function.update_self]
    rfl
  · dsimp only [Shared.fresh]
    rw [Function.update_self, List.nil_append, List.length_append]

/-- With one `wlog_file`, the first of the two is told where the record of the second begins. -/
theorem not_offsetsRight {i j : ι} (hne : i ≠ j) (hd : d i = d j) {wrec : WlogRec}
    (hrecordable : Recordable wrec) (wbuf : CArray UInt8 (wlogRecMaxSize + 2)) :
    ∃ s, (sharedMachine d).ReachableVia Shared.Valid s ∧ ¬s.OffsetsRight := by
  obtain ⟨e, s, hs, hlog, -, hstage, hafd⟩ := exists_two_appends d hne hrecordable wbuf
  have htold := hs.step (SharedStep.tell i) trivial (SharedMove.tell i _ _ hstage).next
  refine ⟨_, htold, fun hright => ?_⟩
  have hwrong := hright i (e.image.length, 0) (by
    dsimp only
    rw [Function.update_self, hd, hafd]
    simp)
  dsimp only at hwrong
  rw [hlog] at hwrong
  have hlen := e.length_image
  have hzero : ((e.image.length : ℕ) : ℤ) = 0 := (Option.some.inj hwrong).symm
  omega

/-- **The offsets of a shared log.** In every run of the processes each append returns where its
own record begins, if and only if no two of them write through one `wlog_file`. -/
theorem offsetsRight_iff : (∀ s, (sharedMachine d).ReachableVia Shared.Valid s → s.OffsetsRight) ↔
    Function.Injective d := by
  constructor
  · intro hright i j hd
    by_contra hne
    obtain ⟨s, hreachable, hwrong⟩ := not_offsetsRight d hne hd
      ⟨withinMaxima_recordWithPath 3 (by decide) (by decide), by decide, by decide⟩ (.fill _ 0)
    exact hwrong (hright s hreachable)
  · exact fun hd s hreachable => (sharedInv_of_reachable hd hreachable).right

variable {d}

/-- **A scan of a shared log.** When every process has opened the log itself, a scan at any moment
of any run finds the records whose appends have been written, each of them once, the newest first,
and each with the scalars of the last overlay that has been written to it. -/
theorem scan_of_shared (hd : Function.Injective d)
    (hreachable : (sharedMachine d).ReachableVia Shared.Valid s) {nrecs : ℤ} (hnrecs : 0 ≤ nrecs)
    (hint : s.log.file.length < 2147483648) {fuel : ℕ} (hfuel : 3 * s.log.file.length < fuel)
    (buf : CArray UInt8 sizeofBuf) (albuf : CArray UInt8 wlogRecMaxSize) :
    ∃ calls, wlogScanBackward fuel false buf albuf s.log.file nrecs (fun _ => wlogContinueScan) =
        some (.ok (0, calls)) ∧
      List.Forall₂ SameRecord (newest nrecs s.recs) calls := by
  obtain ⟨es, hrepresents⟩ := (sharedInv_of_reachable hd hreachable).represents
  refine ⟨_, wlogScanBackward_fileOf buf albuf (fun _ => by decide) hrepresents.file_eq hint
    hnrecs hfuel, ?_⟩
  have hrecordable := hrepresents.recordable
  rw [hrepresents.recs_eq] at hrecordable ⊢
  rw [newest_map, List.forall₂_map_left_iff, List.forall₂_map_right_iff, List.forall₂_same]
  intro e he
  have h := hrecordable e.wrec (List.mem_map_of_mem (mem_of_mem_newest he))
  exact sameRecord_decoded h.toWithinMaxima h.pathlen_lt h.patternlen_lt

/-- Two processes have both appended a record, and neither has its offset yet. -/
theorem scan_of_shared_two : ∃ (s : Shared Bool Bool) (fuel : ℕ) (calls : List WlogRec),
    s.recs = [recordWithPath 3, recordWithPath 3] ∧
      wlogScanBackward fuel false (.fill _ 0) (.fill _ 0) s.log.file 0
        (fun _ => wlogContinueScan) = some (.ok (0, calls)) ∧
      List.Forall₂ SameRecord (newest 0 s.recs) calls := by
  have hne : false ≠ true := by decide
  obtain ⟨e, s, hs, hlog, hrecs, -⟩ := exists_two_appends (id : Bool → Bool) hne
    ⟨withinMaxima_recordWithPath 3 (by decide) (by decide), by decide, by decide⟩ (.fill _ 0)
  have hlen : s.log.file.length < 2147483648 := by
    have hbounds := e.reclen_bounds
    rw [hlog, List.length_append, e.length_image]
    omega
  obtain ⟨calls, hscan, hsame⟩ := scan_of_shared Function.injective_id hs
    (show (0 : ℤ) ≤ 0 by decide) hlen (Nat.lt_succ_self _) (.fill _ 0) (.fill _ 0)
  exact ⟨s, _, calls, hrecs, hscan, hsame⟩

end Machine

end WriteLog

end SnowballLtp
