import Mathlib.Data.List.Destutter
import SnowballLtp.Ltp.TstExit

/-!
# Condensed output

In `NOPASS` mode a numbered result, one that is neither a warning nor information, waits in a
buffer of one element for the next. Equal results that follow each other are merged into the first
of them, and a buffered result is printed when a different one comes or the test exits, if it is a
failure or a break.

Results are compared by what is left of their messages in the buffer of the library, which holds
2047 bytes.

## Main definitions

* `Result`, `reportAll`: a test that reports a list of results.
* `numbered`, `Differs`, `failures`: the failures that are to be printed, with their numbers.
* `failLines`: the failures that are printed.
* `Holding`: the state between two reports.

## Main results

* `tstRes_reported`: a report moves lines from those to be printed to the output.
* `session_failLines`: the printed failures are those of the list without repetitions.
-/

namespace SnowballLtp.TstRes

/-- A result as a test reports it. -/
structure Result where
  ttype : BitVec 32
  mesg : CString
  deriving DecidableEq, Repr

namespace Result

/-- Warnings and information have no number. -/
def Unnumbered (r : Result) : Prop := ttypeResult r.ttype = twarn ∨ ttypeResult r.ttype = tinfo

instance (r : Result) : Decidable r.Unnumbered := inferInstanceAs (Decidable (_ ∨ _))

/-- The result with its message as the buffer of the library holds it. -/
def cut (r : Result) : Result := { r with mesg := r.mesg.take (usermesg - 1) }

end Result

/-- A test that reports the results in order. -/
def reportAll : List Result → Program
  | [] => .ret
  | r :: rs => .res r.ttype none r.mesg (reportAll rs)

/-- The numbered results, from the given number on. -/
def numbered (tcid : CString) : ℤ → List Result → List Last
  | _, [] => []
  | num, r :: rs =>
    if r.Unnumbered then numbered tcid num rs
    else ⟨tcid, num, ttypeResult r.ttype, r.mesg⟩ :: numbered tcid (num + 1) rs

/-- Results that are not merged: their types or their messages differ. -/
def Differs (a b : Last) : Prop := ¬(a.type = b.type ∧ a.mesg = b.mesg)

instance : DecidableRel Differs := fun a b =>
  inferInstanceAs (Decidable ¬(a.type = b.type ∧ a.mesg = b.mesg))

/-- The lines of the failures and breaks among numbered results. -/
def failures (results : List Last) : List Line :=
  (results.filter fun e => e.type = tfail ∨ e.type = tbrok).map fun e =>
    lineOf .nopass e.tcid e.num e.type e.mesg

/-- The line, if it tells of a failure or a break. -/
def failLine : Output → Option Line
  | .line l => if l.type = "TFAIL" ∨ l.type = "TBROK" then some l else none
  | .contents _ _ => none

/-- The failures and breaks that are printed. -/
def failLines (out : List Output) : List Line := out.filterMap failLine

/-- Results without repetitions, behind the one in the buffer. -/
def collapse : Option Last → List Last → List Last
  | none, results => results.destutter Differs
  | some e, results => results.destutter' Differs e

variable {env : Env} {lib : Lib} {num : ℤ} {held : Option Last}

/-! ### Lines -/

theorem failures_cons (e : Last) (es : List Last) : failures (e :: es) =
    (if e.type = tfail ∨ e.type = tbrok then [lineOf .nopass e.tcid e.num e.type e.mesg] else []) ++
      failures es := by
  by_cases h : e.type = tfail ∨ e.type = tbrok <;> simp [failures, h]

theorem failLines_append (out more : List Output) :
    failLines (out ++ more) = failLines out ++ failLines more :=
  List.filterMap_append

theorem strttype_eq_iff (ttype : BitVec 32) :
    (strttype ttype = "TFAIL" ∨ strttype ttype = "TBROK") ↔
      ttypeResult ttype = tfail ∨ ttypeResult ttype = tbrok := by
  simp only [strttype]
  split_ifs with hpass hfail hbrok hretr hconf hwarn hinfo
  · rw [hpass]
    decide
  · simp [hfail]
  · simp [hbrok]
  · rw [hretr]
    decide
  · rw [hconf]
    decide
  · rw [hwarn]
    decide
  · rw [hinfo]
    decide
  · simp [hfail, hbrok]

/-- The output of `tst_print` in `NOPASS` mode. -/
def nopassLine (tcid : CString) (tnum : ℤ) (ttype : BitVec 32) (tmesg : CString) : List Output :=
  if Filtered .nopass (ttypeResult ttype) then []
  else [.line (lineOf .nopass tcid tnum ttype tmesg)]

theorem failLines_nopassLine (tcid : CString) (tnum : ℤ) (ttype : BitVec 32) (tmesg : CString) :
    failLines (nopassLine tcid tnum ttype tmesg) =
      if ttypeResult ttype = tfail ∨ ttypeResult ttype = tbrok then
        [lineOf .nopass tcid tnum ttype tmesg] else [] := by
  rw [nopassLine]
  by_cases hfail : ttypeResult ttype = tfail ∨ ttypeResult ttype = tbrok
  · have hshown : ¬Filtered .nopass (ttypeResult ttype) := by
      rcases hfail with h | h <;> rw [h] <;> decide
    rw [if_neg hshown, if_pos hfail]
    simp [failLines, failLine, lineOf, (strttype_eq_iff ttype).mpr hfail]
  · rw [if_neg hfail]
    split_ifs
    · rfl
    · simp [failLines, failLine, lineOf, mt (strttype_eq_iff ttype).mp hfail]

/-! ### The state between two reports -/

theorem Lib.setFile_none (h : lib.file = none) : lib.setFile none = lib := by
  rw [← h, Lib.setFile]

/-- A library in `NOPASS` mode, without a file, that holds the given result in its buffer and
gives the given number to the next one. -/
structure Holding (env : Env) (num : ℤ) (held : Option Last) (lib : Lib) : Prop where
  file : lib.file = none
  mode : lib.firstTime = true ∨ lib.tMode = .nopass
  count : lib.tstCount = num - 1
  pos : 1 ≤ num
  buffered : lib.buffered = held.isSome
  last : ∀ e ∈ held, lib.last = e ∧ e.tcid = env.tcid ∧ ttypeResult e.type = e.type
  printable : held ≠ none → lib.tMode = .nopass ∧ lib.tOut ≠ none

theorem holding_initial (env : Env) (tOut : Option Stream) :
    Holding env 1 none (Lib.initial tOut) where
  file := rfl
  mode := .inl rfl
  count := rfl
  pos := Int.le_refl 1
  buffered := rfl
  last := fun _ he => absurd he (Option.not_mem_none _)
  printable := fun hheld => absurd rfl hheld

/-- In `NOPASS` mode and without a file `tst_print` records the type and writes its line. -/
theorem tstPrint_run_nopass (tcid : CString) (tnum : ℤ) (ttype : BitVec 32) (tmesg : CString)
    (hfile : lib.file = none) (hmode : lib.tMode = .nopass) (hout : lib.tOut ≠ none) :
    (tstPrint env env.stack tcid tnum ttype tmesg).run lib =
      .ok () ((lib.record (ttypeResult ttype)).write (nopassLine tcid tnum ttype tmesg)) := by
  rw [tstPrint_run _ _ _ _ _ (.inl hfile) (.inl hout), printed_of_file_none _ _ _ _ hfile,
    nopassLine, hmode]

namespace Holding

theorem record_write (h : Holding env num held lib) (result : BitVec 32) (out : List Output) :
    Holding env num held ((lib.record result).write out) :=
  ⟨h.file, h.mode, h.count, h.pos, h.buffered, h.last, h.printable⟩

/-- After the first half of `tst_res` the mode and the stream are set. -/
theorem begin (h : Holding env num held lib) (hmode : env.toutput = some "NOPASS".toList)
    (result : BitVec 32) :
    Holding env num held (tstResBegin env result none lib) ∧
      (tstResBegin env result none lib).tMode = .nopass ∧
      (tstResBegin env result none lib).tOut ≠ none ∧
      (tstResBegin env result none lib).output = lib.output := by
  have hset : (tstResBegin env result none lib) =
      { (lib.log (.report result)).record result with
        tOut := lib.tOut.or (some .stdout), firstTime := false, tMode := .nopass } := by
    simp only [tstResBegin, checkEnv, hmode]
    rcases h.mode with hfirst | hnopass
    · simp [Lib.log, Lib.record, hfirst]
    · cases hfirst : lib.firstTime <;> simp [Lib.log, Lib.record, hfirst, hnopass]
  rw [hset]
  exact ⟨⟨h.file, .inr rfl, h.count, h.pos, h.buffered, h.last, fun _ => ⟨rfl, by simp⟩⟩, rfl,
    by simp, rfl⟩

end Holding

/-! ### Condensing -/

theorem Holding.hold (h : Holding env num held lib) (hmode : lib.tMode = .nopass)
    (hout : lib.tOut ≠ none) {e : Last} (htcid : e.tcid = env.tcid)
    (htype : ttypeResult e.type = e.type) : Holding env num (some e) (lib.hold e) where
  file := h.file
  mode := h.mode
  count := h.count
  pos := h.pos
  buffered := rfl
  last := fun e' he => by
    obtain rfl := Option.some.inj he
    exact ⟨rfl, htcid, htype⟩
  printable := fun _ => ⟨hmode, hout⟩

theorem Holding.count_add_one (h : Holding env num held lib) :
    Holding env (num + 1) held { lib with tstCount := lib.tstCount + 1 } where
  file := h.file
  mode := h.mode
  count := (congrArg (· + 1) h.count).trans (by omega)
  pos := Int.le_add_one h.pos
  buffered := h.buffered
  last := h.last
  printable := h.printable

section Condense

variable (ttype : BitVec 32) (tmesg : CString)

/-- Nothing is in the buffer. -/
theorem tstCondense_run_none (h : Holding env num none lib) :
    (tstCondense env num ttype tmesg).run lib =
      .ok () (lib.hold ⟨env.tcid, num, ttypeResult ttype, tmesg⟩) := by
  have hbuffered : lib.buffered = false := h.buffered
  rw [tstCondense, run_bind_of_ok (EStateM.run_get lib)]
  simp [hbuffered, h.file]

/-- The same result is in the buffer. -/
theorem tstCondense_run_same {e : Last} (h : Holding env num (some e) lib)
    (hsame : e.type = ttypeResult ttype ∧ e.mesg = tmesg) :
    (tstCondense env num ttype tmesg).run lib = .ok () lib := by
  obtain ⟨hlast, htcid, -⟩ := h.last e rfl
  rw [tstCondense, run_bind_of_ok (EStateM.run_get lib), onlyIf_of_neg, EStateM.run_pure]
  rw [not_not, hlast]
  exact ⟨h.buffered, htcid, hsame.1, hsame.2, h.file⟩

/-- Another result is in the buffer. It is printed. -/
theorem tstCondense_run_other {e : Last} (h : Holding env num (some e) lib)
    (hmode : lib.tMode = .nopass) (hout : lib.tOut ≠ none)
    (hother : ¬(e.type = ttypeResult ttype ∧ e.mesg = tmesg)) :
    (tstCondense env num ttype tmesg).run lib =
      .ok () (((lib.record e.type).write (nopassLine e.tcid e.num e.type e.mesg)).hold
        ⟨env.tcid, num, ttypeResult ttype, tmesg⟩) := by
  obtain ⟨hlast, -, htype⟩ := h.last e rfl
  have hbuffered : lib.buffered = true := h.buffered
  have hprint := @tstPrint_run_nopass env lib e.tcid e.num e.type e.mesg h.file hmode hout
  rw [htype] at hprint
  rw [tstCondense, run_bind_of_ok (EStateM.run_get lib), onlyIf_of_pos]
  · have hshown : (do
        set (lib.setFile none)
        tstPrint env env.stack e.tcid e.num e.type e.mesg
        modify (·.setFile none) : Run Unit).run lib =
          .ok () ((lib.record e.type).write (nopassLine e.tcid e.num e.type e.mesg)) := by
      rw [Lib.setFile_none h.file, run_bind_of_ok (EStateM.run_set lib lib), run_bind_of_ok hprint,
        EStateM.run_modify]
      exact congrArg (EStateM.Result.ok ()) (Lib.setFile_none h.file)
    rw [onlyIf_of_pos hbuffered, hlast, h.file, if_neg (not_not_intro rfl), run_bind_of_ok hshown,
      EStateM.run_modify]
  · rintro ⟨-, -, htype', hmesg', -⟩
    rw [hlast] at htype' hmesg'
    exact hother ⟨htype', hmesg'⟩

/-- A numbered result goes behind the one in the buffer. -/
theorem tstCondense_holding (h : Holding env num held lib) (hmode : lib.tMode = .nopass)
    (hout : lib.tOut ≠ none) :
    ∃ held' lib', (tstCondense env num ttype tmesg).run lib = .ok () lib' ∧
      Holding env num held' lib' ∧
      ∀ rest, failLines lib'.output ++ failures (collapse held' rest) = failLines lib.output ++
        failures (collapse held (⟨env.tcid, num, ttypeResult ttype, tmesg⟩ :: rest)) := by
  have hresult := ttypeResult_ttypeResult ttype
  cases held with
  | none =>
    exact ⟨_, _, tstCondense_run_none ttype tmesg h, h.hold hmode hout rfl hresult, fun _ => rfl⟩
  | some e =>
    by_cases hsame : e.type = ttypeResult ttype ∧ e.mesg = tmesg
    · refine ⟨_, _, tstCondense_run_same ttype tmesg h hsame, h, fun rest => ?_⟩
      rw [collapse, collapse, List.destutter'_cons_neg _ (not_not_intro hsame)]
    · obtain ⟨-, -, htype⟩ := h.last e rfl
      refine ⟨_, _, tstCondense_run_other ttype tmesg h hmode hout hsame,
        (h.record_write _ _).hold hmode hout rfl hresult, fun rest => ?_⟩
      have hdiffers : Differs e ⟨env.tcid, num, ttypeResult ttype, tmesg⟩ := hsame
      -- The line of `e` moves from the results to be printed to the output.
      have houtput : failLines (lib.output ++ nopassLine e.tcid e.num e.type e.mesg) =
          failLines lib.output ++ (if e.type = tfail ∨ e.type = tbrok then
            [lineOf .nopass e.tcid e.num e.type e.mesg] else []) := by
        rw [failLines_append, failLines_nopassLine, htype]
      rw [collapse, collapse, List.destutter'_cons_pos _ hdiffers, failures_cons,
        ← List.append_assoc]
      exact congrArg (· ++ _) houtput

end Condense

/-! ### Reports -/

/-- The report has been made, and its result is in the buffer, is printed or is merged. -/
def Reported (env : Env) (num : ℤ) (held : Option Last) (r : Result) (lib lib' : Lib) : Prop :=
  ∃ num' held', Holding env num' held' lib' ∧
    ∀ rest, failLines lib'.output ++ failures (collapse held' (numbered env.tcid num' rest)) =
      failLines lib.output ++ failures (collapse held (numbered env.tcid num (r.cut :: rest)))

section Report

variable {r : Result}

/-- A warning or an information is printed at once, and is no failure. -/
private theorem tstRes_reported_of_unnumbered (h : Holding env num held lib)
    (hmode : env.toutput = some "NOPASS".toList) (hmesg : r.mesg ≠ [])
    (hunnumbered : ttypeResult r.ttype = twarn ∨ ttypeResult r.ttype = tinfo) :
    ∃ lib', (tstRes env r.ttype none r.mesg).run lib = .ok () lib' ∧
      Reported env num held r lib lib' := by
  obtain ⟨hbegin, hnopass, hout, houtput⟩ := h.begin hmode (ttypeResult r.ttype)
  have hline : failLines (nopassLine env.tcid 0 r.ttype (r.mesg.take (usermesg - 1))) = [] := by
    rw [failLines_nopassLine, if_neg]
    rcases hunnumbered with htype | htype <;> rw [htype] <;> decide
  have hcut : r.cut.Unnumbered := hunnumbered
  rw [tstRes, run_bind_of_ok (expandVarArgs_run hmesg), run_bind_of_ok (EStateM.run_modify _ _),
    if_pos hunnumbered, tstPrint_run_nopass _ _ _ _ hbegin.file hnopass hout]
  refine ⟨_, rfl, num, held, hbegin.record_write _ _, fun rest => ?_⟩
  rw [numbered, if_pos hcut, Lib.write, failLines_append, hline, List.append_nil]
  exact congrArg (failLines · ++ _) houtput

/-- Another result gets the next number and goes behind the one in the buffer. -/
private theorem tstRes_reported_of_numbered (h : Holding env num held lib)
    (hmode : env.toutput = some "NOPASS".toList) (hmesg : r.mesg ≠ [])
    (hnumbered : ¬(ttypeResult r.ttype = twarn ∨ ttypeResult r.ttype = tinfo)) :
    ∃ lib', (tstRes env r.ttype none r.mesg).run lib = .ok () lib' ∧
      Reported env num held r lib lib' := by
  obtain ⟨hbegin, hnopass, hout, houtput⟩ := h.begin hmode (ttypeResult r.ttype)
  obtain ⟨held', lib', hrun, hheld, hlines⟩ :=
    tstCondense_holding r.ttype (r.mesg.take (usermesg - 1)) hbegin hnopass hout
  have hvalid : ¬(tstResBegin env (ttypeResult r.ttype) none lib).tstCount < 0 := by
    have hpos := hbegin.pos
    rw [hbegin.count]
    omega
  have hdisplay : (tstResDisplay env r.ttype (r.mesg.take (usermesg - 1))).run
      (tstResBegin env (ttypeResult r.ttype) none lib) = .ok () lib' := by
    rw [tstResDisplay, run_bind_of_ok (EStateM.run_get _)]
    simpa only [hnopass, hbegin.count, Int.sub_add_cancel] using hrun
  have hcut : ¬r.cut.Unnumbered := hnumbered
  rw [tstRes, run_bind_of_ok (expandVarArgs_run hmesg), run_bind_of_ok (EStateM.run_modify _ _),
    if_neg hnumbered, run_bind_of_ok (EStateM.run_get _), onlyIf_of_neg hvalid, pure_bind,
    run_bind_of_ok hdisplay, EStateM.run_modify]
  refine ⟨_, rfl, num + 1, held', hheld.count_add_one, fun rest => ?_⟩
  rw [numbered, if_neg hcut, ← houtput]
  exact hlines _

/-- **One report.** A report moves lines from those to be printed to the output. -/
theorem tstRes_reported (h : Holding env num held lib)
    (hmode : env.toutput = some "NOPASS".toList) (hmesg : r.mesg ≠ []) :
    ∃ lib', (tstRes env r.ttype none r.mesg).run lib = .ok () lib' ∧
      Reported env num held r lib lib' := by
  by_cases hunnumbered : ttypeResult r.ttype = twarn ∨ ttypeResult r.ttype = tinfo
  · exact tstRes_reported_of_unnumbered h hmode hmesg hunnumbered
  · exact tstRes_reported_of_numbered h hmode hmesg hunnumbered

end Report

/-- All reports of a list. -/
theorem reportAll_run {results : List Result} (h : Holding env num held lib)
    (hmode : env.toutput = some "NOPASS".toList) (hmesg : ∀ r ∈ results, r.mesg ≠ []) :
    ∃ num' held' lib', ((reportAll results).run env).run lib = .ok () lib' ∧
      Holding env num' held' lib' ∧
      failLines lib'.output ++ failures (collapse held' []) = failLines lib.output ++
        failures (collapse held (numbered env.tcid num (results.map Result.cut))) := by
  induction results generalizing lib num held with
  | nil => exact ⟨num, held, lib, rfl, h, rfl⟩
  | cons r rest ih =>
    obtain ⟨lib₁, hrun₁, num₁, held₁, h₁, hlines₁⟩ :=
      tstRes_reported h hmode (hmesg r (List.mem_cons_self ..))
    obtain ⟨num₂, held₂, lib₂, hrun₂, h₂, hlines₂⟩ :=
      ih h₁ fun r hr => hmesg r (List.mem_cons_of_mem _ hr)
    refine ⟨num₂, held₂, lib₂, ?_, h₂, hlines₂.trans (hlines₁ _)⟩
    rw [reportAll, Program.run, run_bind_of_ok hrun₁, hrun₂]

/-! ### The exit -/

/-- The result in the buffer is printed. -/
theorem tstFlush_run (h : Holding env num held lib) :
    ∃ lib', (tstFlush env).run lib = .ok () lib' ∧
      failLines lib'.output = failLines lib.output ++ failures (collapse held []) := by
  rw [tstFlush, run_bind_of_ok (EStateM.run_get lib)]
  cases held with
  | none =>
    have hbuffered : lib.buffered = false := h.buffered
    refine ⟨lib, ?_, (List.append_nil _).symm⟩
    rw [onlyIf_of_neg (by simp [hbuffered]), EStateM.run_pure]
  | some e =>
    obtain ⟨hmode, hout⟩ := h.printable (Option.some_ne_none e)
    obtain ⟨hlast, -, htype⟩ := h.last e rfl
    have hprint := @tstPrint_run_nopass env lib e.tcid e.num e.type e.mesg h.file hmode hout
    rw [onlyIf_of_pos ⟨h.buffered, hmode⟩, hlast, run_bind_of_ok hprint, EStateM.run_modify]
    refine ⟨_, rfl, ?_⟩
    have houtput := failLines_append lib.output (nopassLine e.tcid e.num e.type e.mesg)
    rw [failLines_nopassLine, htype] at houtput
    rw [collapse, List.destutter'_nil, failures_cons]
    exact houtput.trans (congrArg _ (List.append_nil _).symm)

/-- A list of reports and the exit, from any state between two reports. -/
theorem session_reportAll_run {results : List Result} (h : Holding env num held lib)
    (hmode : env.toutput = some "NOPASS".toList) (hmesg : ∀ r ∈ results, r.mesg ≠ []) :
    ∃ status lib', (session env (reportAll results)).run lib = .error (.exit status) lib' ∧
      failLines lib'.output = failLines lib.output ++
        failures (collapse held (numbered env.tcid num (results.map Result.cut))) := by
  obtain ⟨num₁, held₁, lib₁, hrun₁, h₁, hlines₁⟩ := reportAll_run h hmode hmesg
  obtain ⟨lib₂, hrun₂, hlines₂⟩ := tstFlush_run h₁
  refine ⟨lib₂.tExitval &&& ~~~(tretr ||| tinfo ||| tconf), lib₂.log (.exit lib₂.tstBrkEntered),
    ?_, hlines₂.trans hlines₁⟩
  rw [session, run_bind_of_ok hrun₁, tstExit, run_bind_of_ok hrun₂,
    run_bind_of_ok (EStateM.run_get _), run_bind_of_ok (EStateM.run_set _ _), EStateM.run_throw]

/-- **Condensed failures.** In `NOPASS` mode the failures and breaks that are printed up to the
exit are those of the numbered results without repetitions, with the messages that the library's
buffer holds. -/
theorem session_failLines (env : Env) (tOut : Option Stream) {results : List Result}
    (hmode : env.toutput = some "NOPASS".toList) (hmesg : ∀ r ∈ results, r.mesg ≠ []) :
    ∃ status lib', (session env (reportAll results)).run (Lib.initial tOut) =
        .error (.exit status) lib' ∧
      failLines lib'.output =
        failures ((numbered env.tcid 1 (results.map Result.cut)).destutter Differs) :=
  session_reportAll_run (holding_initial env tOut) hmode hmesg

/-- Two equal failures with an information between them, a pass, and the same failure again. -/
def repeatedFailure : List Result :=
  [⟨tfail, ['a']⟩, ⟨tinfo, ['b']⟩, ⟨tfail, ['a']⟩, ⟨tpass, ['c']⟩, ⟨tfail, ['a']⟩]

theorem session_failLines_repeatedFailure :
    ∃ status lib', (session (plainEnv (some "NOPASS".toList)) (reportAll repeatedFailure)).run
        (Lib.initial none) = .error (.exit status) lib' ∧
      (failLines lib'.output).map (fun l => (l.tnum, l.tmesg)) = [(1, ['a']), (4, ['a'])] := by
  obtain ⟨status, lib', hrun, hlines⟩ := @session_failLines (plainEnv (some "NOPASS".toList)) none
    repeatedFailure rfl (by simp [repeatedFailure])
  refine ⟨status, lib', hrun, ?_⟩
  rw [hlines]
  decide +kernel

/-! ### Long messages -/

/-- A failure whose message has its only difference behind the end of the buffer. -/
def longFailure (c : Char) : Result := ⟨tfail, List.replicate (usermesg - 1) 'a' ++ [c]⟩

theorem longFailure_cut (c : Char) :
    (longFailure c).cut = ⟨tfail, List.replicate (usermesg - 1) 'a'⟩ := by
  rw [Result.cut, longFailure, List.take_left' List.length_replicate]

theorem longFailure_mesg_ne {c d : Char} (h : c ≠ d) :
    (longFailure c).mesg ≠ (longFailure d).mesg := by
  simpa [longFailure] using h

/-- Of two failures the second is printed if its message is another one. -/
theorem failures_two (tcid : CString) (num : ℤ) (mesg mesg' : CString) :
    (failures ((numbered tcid num [⟨tfail, mesg⟩, ⟨tfail, mesg'⟩]).destutter Differs)).map
      Line.tnum = if mesg = mesg' then [num] else [num, num + 1] := by
  have hnumbered (m : CString) : ¬(Result.mk tfail m).Unnumbered := by
    change ¬(ttypeResult tfail = twarn ∨ ttypeResult tfail = tinfo)
    decide
  have htype : ttypeResult tfail = tfail := rfl
  rw [numbered, if_neg (hnumbered _), numbered, if_neg (hnumbered _), numbered,
    List.destutter_pair]
  by_cases h : mesg = mesg'
  · simp [Differs, failures, lineOf, htype, h]
  · simp [Differs, failures, lineOf, htype, h]

/-- Failures with different messages are merged when the buffer cuts the messages to the same
text: of two failures only the first is printed. -/
theorem session_failLines_merged :
    ∃ status lib', (session (plainEnv (some "NOPASS".toList))
        (reportAll [longFailure 'b', longFailure 'c'])).run (Lib.initial none) =
          .error (.exit status) lib' ∧
      (failLines lib'.output).map Line.tnum = [1] ∧
      (failures ((numbered "test".toList 1 [longFailure 'b', longFailure 'c']).destutter
        Differs)).map Line.tnum = [1, 2] := by
  obtain ⟨status, lib', hrun, hlines⟩ :=
    @session_reportAll_run (plainEnv (some "NOPASS".toList)) (Lib.initial none) 1 none
      [longFailure 'b', longFailure 'c'] (holding_initial _ _) rfl (by simp [longFailure])
  refine ⟨status, lib', hrun, ?_, ?_⟩
  · have hstart : failLines (Lib.initial none).output = [] := rfl
    rw [hlines, hstart, List.nil_append, List.map_cons, List.map_cons, List.map_nil,
      longFailure_cut, longFailure_cut, collapse, failures_two, if_pos rfl]
  · exact (failures_two _ _ _ _).trans (if_neg (longFailure_mesg_ne (by decide)))

end SnowballLtp.TstRes
