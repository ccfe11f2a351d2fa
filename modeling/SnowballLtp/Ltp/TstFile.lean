import SnowballLtp.Ltp.TstCatFile

/-!
# The file of a result

A call of `tst_res` names the file whose contents belong to its result in the global `File`, which
`tst_print` clears when it has copied the file behind the line of the result. Where `tst_print`
filters the result it clears nothing: the file is left over, and is copied behind the line of a
later result that names no file itself. In `VERBOSE` mode nothing is filtered, and in `DISCARD` mode
everything is. In `NOPASS` mode a result without a file waits in the buffer, and `tst_exit` prints
the last one with whatever file is left over by then.

What is left over, and whether a line is still to be printed, is a function of the calls and the
mode alone.

## Main definitions

* `Call`, `Attached`: what a call adds to the output.
* `ExitAttached`: what `tst_exit` adds to it.
* `Left`: the file that is left over, and whether the result in the buffer will be printed.
* `NothingLeft`: no file is left over where a line without a file is printed.
* `KeepsFiles`.

## Main results

* `Call.run_prints`: what a call prints, and what it leaves over.
* `tstExit_prints`: what `tst_exit` prints.
* `keepsFiles_iff`.
* `passThenFail_not_keepsFiles`, `failThenInfo_not_keepsFiles`: a failure without a file behind a
  pass with one, and in front of an information with one.
-/

namespace SnowballLtp.TstRes

/-- A call of `tst_res` or of `tst_resm`. -/
inductive Call where
  | res (ttype : BitVec 32) (fname : Option CString) (mesg : CString)
  | resm (ttype : BitVec 32) (mesg : CString)
  deriving DecidableEq, Repr

namespace Call

def ttype : Call → BitVec 32
  | res ttype _ _ => ttype
  | resm ttype _ => ttype

def fname : Call → Option CString
  | res _ fname _ => fname
  | resm _ _ => none

def mesg : Call → CString
  | res _ _ mesg => mesg
  | resm _ mesg => mesg

def run (env : Env) : Call → Run Unit
  | res ttype fname mesg => tstRes env ttype fname mesg
  | resm ttype mesg => tstResm env ttype mesg

/-- The line of the result when it is printed by the call itself. -/
def ownLine (env : Env) (lib : Lib) (call : Call) : Line :=
  lineOf (modeOf env.toutput) env.tcid
    (if ttypeResult call.ttype = twarn ∨ ttypeResult call.ttype = tinfo then 0
      else lib.tstCount + 1)
    call.ttype (call.mesg.take (usermesg - 1))

/-- The call adds lines to the output and behind them the contents of a file, if any: those of its
own file, and directly behind its own line. -/
def Attached (env : Env) (call : Call) (lib lib' : Lib) : Prop :=
  ∃ (lines : List Line) (contents : List Output),
    lib'.output = lib.output ++ (lines.map .line ++ contents) ∧
    (contents ≠ [] → lines.getLast? = some (call.ownLine env lib) ∧
      ∃ filename, call.fname = some filename ∧
        ∀ out ∈ contents, ∃ bytes, out = .contents filename bytes)

end Call

/-- `tst_exit` adds lines to the output and no contents of a file: the result in the buffer, whose
line it may still print, is one that named no file. -/
def ExitAttached (env : Env) (lib : Lib) : Prop :=
  ∀ stop lib', (tstExit env).run lib = .error stop lib' →
    ∃ lines : List Line, lib'.output = lib.output ++ lines.map .line

/-- The contents of files are attached to their results in all calls that return, and in `tst_exit`
behind them. -/
def AllAttached (env : Env) : List Call → Lib → Prop
  | [], lib => ExitAttached env lib
  | call :: calls, lib => ∀ lib', (call.run env).run lib = .ok () lib' →
      call.Attached env lib lib' ∧ AllAttached env calls lib'

/-- What is left over behind a call: the file that is still set, and whether the result in the
buffer will be printed. -/
structure Left where
  file : Option CString
  pending : Bool
  deriving DecidableEq, Repr

/-- What is left over behind one more call. In the buffer is the last result of a type other than
`TWARN` and `TINFO`, if no file was set for it. -/
def Left.next (mode : Mode) (left : Left) (call : Call) : Left where
  file := if Filtered mode (ttypeResult call.ttype) then call.fname.or left.file else none
  pending :=
    if ttypeResult call.ttype = twarn ∨ ttypeResult call.ttype = tinfo then left.pending
    else decide (mode = .nopass ∧ call.fname.or left.file = none ∧
      ¬Filtered mode (ttypeResult call.ttype))

/-- No file is left over where a line without a file is printed, by a call or at the end, up to an
empty message, where the process is aborted. -/
def NothingLeft (mode : Mode) : Left → List Call → Prop
  | left, [] => left.pending = true → left.file = none
  | left, call :: calls => call.mesg ≠ [] →
      (¬Filtered mode (ttypeResult call.ttype) → call.fname = none → left.file = none) ∧
        NothingLeft mode (left.next mode call) calls

/-- All files exist and can be read. -/
structure Env.Existing (env : Env) : Prop where
  access : ∀ lib filename, env.access lib filename = true
  clean : env.Clean

/-- Whatever the files hold, in a test with the given calls the contents of files are attached to
their results. -/
def KeepsFiles (tcid : CString) (toutput : Option CString) (calls : List Call) : Prop :=
  ∀ env : Env, env.tcid = tcid → env.toutput = toutput → env.Existing →
    ∀ tOut, AllAttached env calls (Lib.initial tOut)

variable {env : Env} {lib lib' : Lib} {call : Call} {calls : List Call}

/-! ### One call -/

/-- Between two calls the mode is the one that was set, and `Tst_count` is not negative. -/
structure Lib.Between (env : Env) (lib : Lib) : Prop where
  tMode : lib.firstTime = false → lib.tMode = modeOf env.toutput
  tstCount : 0 ≤ lib.tstCount
  buffered : lib.buffered = true → lib.tMode = modeOf env.toutput ∧ lib.tOut ≠ none

/-- The result in the buffer will be printed. -/
def Lib.Pending (lib : Lib) : Prop :=
  lib.buffered = true ∧ lib.tMode = .nopass ∧ ¬Filtered .nopass (ttypeResult lib.last.type)

instance (lib : Lib) : Decidable lib.Pending := inferInstanceAs (Decidable (_ ∧ _))

/-- What is left over. -/
def Lib.left (lib : Lib) : Left := ⟨lib.file, lib.Pending⟩

/-- From `lib` to `lib'` lines are printed, and the contents of `File` behind the line `own` unless
a result of the given type is filtered. -/
structure Prints (env : Env) (own : Line) (result : BitVec 32) (lib lib' : Lib) : Prop where
  tOut : lib'.tOut = lib.tOut
  tMode : lib'.tMode = lib.tMode
  tstCount : lib'.tstCount = lib.tstCount
  file : lib'.file = if Filtered lib.tMode result then lib.file else none
  added : ∃ (lines : List Line) (contents : List Output),
    lib'.output = lib.output ++ (lines.map .line ++ contents) ∧
    (contents ≠ [] → lines.getLast? = some own) ∧
    ∃ l : Lib, l.file = (if Filtered lib.tMode result then none else lib.file) ∧
      contents = fileContents env l

section Prints

variable {own : Line} {result : BitVec 32} (tcid : CString) (tnum : ℤ) (ttype : BitVec 32)
  (tmesg : CString)

theorem fileContents_of_none (h : lib.file = none) : fileContents env lib = [] := by
  rw [fileContents, h, Option.elim_none]

/-- Nothing is printed, and there is no file. -/
theorem prints_refl (h : lib.file = none) : Prints env own result lib lib := by
  refine ⟨rfl, rfl, rfl, by rw [h, ite_self], [], [], by simp, fun hne => absurd rfl hne, lib, ?_,
    (fileContents_of_none h).symm⟩
  rw [h, ite_self]

theorem prints_printed : Prints env (lineOf lib.tMode tcid tnum ttype tmesg) (ttypeResult ttype) lib
    (printed env tcid tnum ttype tmesg lib) := by
  rw [printed]
  by_cases hf : Filtered lib.tMode (ttypeResult ttype)
  · rw [if_pos hf]
    refine ⟨rfl, rfl, rfl, by rw [if_pos hf]; rfl, [], [], ?_, fun hne => absurd rfl hne,
      lib.setFile none, by rw [if_pos hf]; rfl, rfl⟩
    simp [Lib.record]
  · rw [if_neg hf]
    refine ⟨rfl, rfl, rfl, by rw [if_neg hf]; rfl, [lineOf lib.tMode tcid tnum ttype tmesg], _, ?_,
      fun _ => rfl, shown tcid tnum ttype tmesg lib, by rw [if_neg hf]; rfl, rfl⟩
    simp [Lib.write, Lib.setFile, Lib.record, shown]

theorem pending_printed :
    (printed env tcid tnum ttype tmesg lib).Pending ↔ lib.Pending := by
  rw [printed]
  split_ifs
  · exact Iff.rfl
  · exact Iff.rfl

/-- Lines that are printed before. -/
theorem Prints.of_lines {lib₁ : Lib} (h : Prints env own result lib₁ lib')
    (hsame : SameSettings lib lib₁) (hfile : lib₁.file = lib.file)
    (houtput : ∃ lines : List Line, lib₁.output = lib.output ++ lines.map .line) :
    Prints env own result lib lib' := by
  obtain ⟨before, hbefore⟩ := houtput
  obtain ⟨hout, hmode, hcount, hleft, lines, contents, hadded, hlast, hread⟩ := h
  rw [hsame.tMode, hfile] at hleft hread
  refine ⟨hout.trans hsame.tOut, hmode.trans hsame.tMode, hcount.trans hsame.tstCount, hleft,
    before ++ lines, contents, ?_, fun hne => ?_, hread⟩
  · rw [hadded, hbefore, List.map_append]
    simp only [List.append_assoc]
  · rw [List.getLast?_append, hlast hne, Option.some_or]

theorem released_output (env : Env) (lib : Lib) :
    ∃ lines : List Line, (released env lib).output = lib.output ++ lines.map .line := by
  rw [released]
  split_ifs
  · rw [printed_of_file_none _ _ _ _ rfl]
    by_cases hf : Filtered lib.tMode (ttypeResult lib.last.type)
    · exact ⟨[], by simp [Lib.setFile, Lib.write, Lib.record, hf]⟩
    · exact ⟨[lineOf lib.tMode lib.last.tcid lib.last.num lib.last.type lib.last.mesg],
        by simp [Lib.setFile, Lib.write, Lib.record, hf]⟩
  · exact ⟨[], by simp⟩

/-- In `NOPASS` mode the buffered result is printed before. -/
theorem tstCondense_prints (hclean : env.Clean) (hout : lib.tOut ≠ none) :
    ∃ lib', (tstCondense env tnum ttype tmesg).run lib = .ok () lib' ∧
      Prints env (lineOf lib.tMode env.tcid tnum ttype tmesg) (ttypeResult ttype) lib lib' := by
  have hsame := sameSettings_released env lib
  have hfile := released_file env lib
  have houtput := released_output env lib
  rw [tstCondense_run tnum ttype tmesg hout]
  split_ifs with hrepeated hset
  · exact ⟨lib, rfl, prints_refl hrepeated.2.2.2.2⟩
  · have hprint := @tstPrint_run env (released env lib) env.stack env.tcid tnum ttype tmesg
      (.inr hclean) (.inl (by rw [hsame.tOut]; exact hout))
    have hprints := @prints_printed env (released env lib) env.tcid tnum ttype tmesg
    rw [hsame.tMode] at hprints
    refine ⟨_, (run_bind_of_ok hprint).trans (EStateM.run_modify _ _),
      Prints.of_lines ?_ hsame hfile houtput⟩
    exact ⟨hprints.tOut, hprints.tMode, hprints.tstCount, hprints.file, hprints.added⟩
  · have hnone : (released env lib).file = none := hfile.trans (not_not.mp hset)
    have hquiet : Prints env (lineOf lib.tMode env.tcid tnum ttype tmesg) (ttypeResult ttype)
        (released env lib) (released env lib) := prints_refl hnone
    refine ⟨_, EStateM.run_modify _ _, Prints.of_lines ?_ hsame hfile houtput⟩
    exact ⟨hquiet.tOut, hquiet.tMode, hquiet.tstCount, hquiet.file, hquiet.added⟩

/-- Condensing leaves a result in the buffer if no file is set. -/
theorem pending_tstCondense (hmode : lib.tMode = .nopass) (hclean : env.Clean)
    (hout : lib.tOut ≠ none) (hrun : (tstCondense env tnum ttype tmesg).run lib = .ok () lib') :
    lib'.Pending ↔ lib.file = none ∧ ¬Filtered .nopass (ttypeResult ttype) := by
  have hsame := sameSettings_released env lib
  rw [tstCondense_run tnum ttype tmesg hout] at hrun
  split_ifs at hrun with hrepeated hset
  · obtain ⟨hbuffered, -, htype, -, hnone⟩ := hrepeated
    obtain rfl := (EStateM.Result.ok.inj hrun).2
    rw [Lib.Pending, htype, ttypeResult_ttypeResult]
    exact ⟨fun h => ⟨hnone, h.2.2⟩, fun h => ⟨hbuffered, hmode, h.2⟩⟩
  · rw [run_bind_of_ok (tstPrint_run env.stack env.tcid tnum ttype tmesg (.inr hclean)
      (.inl (by rw [hsame.tOut]; exact hout))), EStateM.run_modify] at hrun
    obtain rfl := (EStateM.Result.ok.inj hrun).2
    exact iff_of_false (fun h => Bool.false_ne_true h.1) fun h => hset h.1
  · rw [EStateM.run_modify] at hrun
    obtain rfl := (EStateM.Result.ok.inj hrun).2
    have hnone : lib.file = none := not_not.mp hset
    rw [Lib.Pending, Lib.hold, ttypeResult_ttypeResult]
    exact ⟨fun h => ⟨hnone, h.2.2⟩, fun h => ⟨rfl, hsame.tMode.trans hmode, h.2⟩⟩

theorem tstResDisplay_prints (hclean : env.Clean) (hout : lib.tOut ≠ none) :
    ∃ lib', (tstResDisplay env ttype tmesg).run lib = .ok () lib' ∧
      Prints env (lineOf lib.tMode env.tcid (lib.tstCount + 1) ttype tmesg) (ttypeResult ttype) lib
        lib' ∧
      (lib'.Pending ↔ lib.tMode = .nopass ∧ lib.file = none ∧
        ¬Filtered lib.tMode (ttypeResult ttype)) := by
  rw [tstResDisplay, run_bind_of_ok (EStateM.run_get lib)]
  cases hmode : lib.tMode with
  | discard =>
    have hf : Filtered lib.tMode (ttypeResult ttype) := .inl hmode
    refine ⟨lib, rfl, ⟨rfl, rfl, rfl, by rw [if_pos hf], [], [], by simp, fun hne => absurd rfl hne,
      lib.setFile none, by rw [if_pos hf]; rfl, rfl⟩, ?_⟩
    exact iff_of_false (fun h => nomatch hmode.symm.trans h.2.1) fun h => nomatch h.1
  | nopass =>
    obtain ⟨lib', hrun, hprints⟩ := tstCondense_prints (lib.tstCount + 1) ttype tmesg hclean hout
    rw [hmode] at hprints
    refine ⟨lib', hrun, hprints, ?_⟩
    rw [pending_tstCondense _ ttype tmesg hmode hclean hout hrun]
    exact ⟨fun h => ⟨rfl, h⟩, fun h => h.2⟩
  | verbose =>
    have hprints := @prints_printed env lib env.tcid (lib.tstCount + 1) ttype tmesg
    have hmode' := hprints.tMode.trans hmode
    rw [hmode] at hprints
    refine ⟨_, tstPrint_run _ _ _ ttype tmesg (.inr hclean) (.inl hout), hprints, ?_⟩
    exact iff_of_false (fun h => nomatch hmode'.symm.trans h.2.1) fun h => nomatch h.1

end Prints

/-- **A call** prints lines, and behind its own line the contents of its file, or of the one that
was left over. -/
theorem Call.run_prints (hexisting : env.Existing) (h : lib.Between env) (hmesg : call.mesg ≠ []) :
    ∃ lib', (call.run env).run lib = .ok () lib' ∧ lib'.Between env ∧
      lib'.left = lib.left.next (modeOf env.toutput) call ∧
      ∃ (lines : List Line) (contents : List Output),
        lib'.output = lib.output ++ (lines.map .line ++ contents) ∧
        (contents ≠ [] → lines.getLast? = some (call.ownLine env lib)) ∧
        ∃ l : Lib, l.file = (if Filtered (modeOf env.toutput) (ttypeResult call.ttype) then none
          else call.fname.or lib.file) ∧ contents = fileContents env l := by
  have hrun : (call.run env).run lib = (tstRes env call.ttype call.fname call.mesg).run lib := by
    cases call with
    | res ttype fname mesg => rfl
    | resm ttype mesg => exact tstResm_run ttype mesg lib
  have hbegun := begun_tstResBegin env (ttypeResult call.ttype) call.fname lib
  obtain ⟨start, hstart⟩ : ∃ start,
    start = tstResBegin env (ttypeResult call.ttype) call.fname lib := ⟨_, rfl⟩
  rw [← hstart] at hbegun
  have hout := hbegun.tOut
  have hmode := hbegun.tMode h.tMode
  have hfile := hbegun.file hexisting.access
  have houtput := hbegun.output
  have hcount := hbegun.tstCount
  have hpending : start.Pending ↔ lib.Pending := by
    rw [Lib.Pending, Lib.Pending, hbegun.buffered, hbegun.last]
    refine and_congr_right fun hbuffered => ?_
    rw [hmode, (h.buffered hbuffered).1]
  rw [hrun, tstRes, run_bind_of_ok (expandVarArgs_run hmesg),
    run_bind_of_ok (EStateM.run_modify _ _), ← hstart]
  by_cases hunnumbered : ttypeResult call.ttype = twarn ∨ ttypeResult call.ttype = tinfo
  · have hprints := @prints_printed env start env.tcid 0 call.ttype
      (call.mesg.take (usermesg - 1))
    have hleft := (@pending_printed env start env.tcid 0 call.ttype
      (call.mesg.take (usermesg - 1))).trans hpending
    rw [if_pos hunnumbered]
    refine ⟨_, tstPrint_run _ _ _ _ _ (.inr hexisting.clean) (.inl hout),
      ⟨fun _ => hprints.tMode.trans hmode, ?_,
        fun _ => ⟨hprints.tMode.trans hmode, hprints.tOut ▸ hout⟩⟩, ?_, ?_⟩
    · rw [hprints.tstCount, hcount]
      exact h.tstCount
    · rw [Lib.left, Left.next, if_pos hunnumbered, hprints.file, hmode, hfile,
        decide_eq_decide.mpr hleft]
      rfl
    · rw [ownLine, if_pos hunnumbered, ← hfile, ← hmode, ← houtput]
      exact hprints.added
  · obtain ⟨lib₁, hdisplay, hprints, hleft⟩ := tstResDisplay_prints call.ttype
      (call.mesg.take (usermesg - 1)) hexisting.clean hout
    have hvalid : ¬start.tstCount < 0 := by
      rw [hcount]
      exact Int.not_lt.mpr h.tstCount
    rw [if_neg hunnumbered, run_bind_of_ok (EStateM.run_get _), onlyIf_of_neg hvalid, pure_bind]
    refine ⟨_, (run_bind_of_ok hdisplay).trans (EStateM.run_modify _ _),
      ⟨fun _ => hprints.tMode.trans hmode, ?_,
        fun _ => ⟨hprints.tMode.trans hmode, hprints.tOut ▸ hout⟩⟩, ?_, ?_⟩
    · dsimp only
      rw [hprints.tstCount, hcount]
      exact Int.le_add_one h.tstCount
    · have hcounted : ({ lib₁ with tstCount := lib₁.tstCount + 1 } : Lib).left = lib₁.left := rfl
      have hkept := hprints.file
      rw [hmode, hfile] at hkept hleft
      rw [hcounted, Lib.left, Left.next, if_neg hunnumbered, hkept, decide_eq_decide.mpr hleft]
      rfl
    · rw [ownLine, if_neg hunnumbered, ← hfile, ← hmode, ← houtput, ← hcount]
      exact hprints.added

/-- **`tst_exit`** prints the result in the buffer with the file that is left over. -/
theorem tstExit_prints (hclean : env.Clean) (h : lib.Between env) :
    ∃ stop lib', (tstExit env).run lib = .error stop lib' ∧ ∃ (lines : List Line) (l : Lib),
      lib'.output = lib.output ++ (lines.map .line ++ fileContents env l) ∧
      l.file = if lib.Pending then lib.file else none := by
  have hexit {lib₁ : Lib} (hrun : (tstFlush env).run lib = .ok () lib₁) :
      ∃ stop lib', (tstExit env).run lib = .error stop lib' ∧ lib'.output = lib₁.output := by
    refine ⟨.exit (lib₁.tExitval &&& ~~~(tretr ||| tinfo ||| tconf)),
      lib₁.log (.exit lib₁.tstBrkEntered), ?_, rfl⟩
    rw [tstExit, run_bind_of_ok hrun, run_bind_of_ok (EStateM.run_get _),
      run_bind_of_ok (EStateM.run_set _ _), EStateM.run_throw]
  by_cases hflush : lib.buffered = true ∧ lib.tMode = .nopass
  · have hprints := @prints_printed env lib lib.last.tcid lib.last.num lib.last.type lib.last.mesg
    obtain ⟨lines, contents, hadded, -, l, hl, rfl⟩ := hprints.added
    obtain ⟨stop, lib', hrun, houtput⟩ := @hexit
      { printed env lib.last.tcid lib.last.num lib.last.type lib.last.mesg lib with
        buffered := false } (by
      rw [tstFlush, run_bind_of_ok (EStateM.run_get _), onlyIf_of_pos hflush, run_bind_of_ok
        (tstPrint_run _ _ _ _ _ (.inr hclean) (.inl (h.buffered hflush.1).2)), EStateM.run_modify])
    refine ⟨stop, lib', hrun, lines, l, houtput.trans hadded, ?_⟩
    have hpending : lib.Pending ↔ ¬Filtered lib.tMode (ttypeResult lib.last.type) := by
      rw [Lib.Pending, hflush.2]
      exact ⟨fun h => h.2.2, fun h => ⟨hflush.1, rfl, h⟩⟩
    rw [hl, if_congr hpending rfl rfl, ite_not]
  · obtain ⟨stop, lib', hrun, houtput⟩ := @hexit lib (by
      rw [tstFlush, run_bind_of_ok (EStateM.run_get _), onlyIf_of_neg hflush, EStateM.run_pure])
    refine ⟨stop, lib', hrun, [], lib.setFile none, ?_, ?_⟩
    · rw [houtput, fileContents_of_none rfl]
      simp
    · rw [if_neg fun hpending : lib.Pending => hflush ⟨hpending.1, hpending.2.1⟩]
      rfl

theorem Call.run_nil (hmesg : call.mesg = []) : (call.run env).run lib = .error .assertion lib := by
  cases call with
  | res ttype fname mesg =>
    obtain rfl : mesg = [] := hmesg
    exact run_bind_of_error expandVarArgs_run_nil
  | resm ttype mesg =>
    obtain rfl : mesg = [] := hmesg
    exact run_bind_of_error expandVarArgs_run_nil

/-! ### All calls -/

theorem mem_fileContents {filename : CString} (hfile : lib.file = some filename) :
    ∀ out ∈ fileContents env lib, ∃ bytes, out = .contents filename bytes := by
  intro out hmem
  rw [fileContents, hfile, Option.elim_some, copied, List.mem_map] at hmem
  obtain ⟨chunk, -, rfl⟩ := hmem
  exact ⟨chunk.1, rfl⟩

/-- **All calls**: when nothing is left over where it would be printed, what is printed belongs to
the call. -/
theorem allAttached_of_nothingLeft (hexisting : env.Existing) (h : lib.Between env)
    (hleft : NothingLeft (modeOf env.toutput) lib.left calls) : AllAttached env calls lib := by
  induction calls generalizing lib with
  | nil =>
    intro stop lib' hrun
    obtain ⟨stop', lib₁, hrun₁, lines, l, houtput, hl⟩ := tstExit_prints hexisting.clean h
    obtain rfl : lib₁ = lib' := by
      rw [hrun₁] at hrun
      exact (EStateM.Result.error.inj hrun).2
    refine ⟨lines, ?_⟩
    have hnone : l.file = none := by
      rw [hl]
      split_ifs with hpending
      · exact hleft (decide_eq_true hpending)
      · rfl
    rw [houtput, fileContents_of_none hnone, List.append_nil]
  | cons call calls ih =>
    intro lib' hrun
    by_cases hmesg : call.mesg = []
    · rw [Call.run_nil hmesg] at hrun
      cases hrun
    · obtain ⟨hnone, hrest⟩ := hleft hmesg
      obtain ⟨lib₁, hrun₁, hbetween, hnext, lines, contents, houtput, hlast, l, hl, rfl⟩ :=
        Call.run_prints hexisting h hmesg
      obtain rfl : lib₁ = lib' := by
        rw [hrun₁] at hrun
        exact (EStateM.Result.ok.inj hrun).2
      refine ⟨⟨lines, _, houtput, fun hne => ⟨hlast hne, ?_⟩⟩, ih hbetween (by rwa [hnext])⟩
      by_cases hf : Filtered (modeOf env.toutput) (ttypeResult call.ttype)
      · rw [if_pos hf] at hl
        exact absurd (fileContents_of_none hl) hne
      · rw [if_neg hf] at hl
        cases hname : call.fname with
        | none =>
          have hfile : lib.file = none := hnone hf hname
          rw [hname, hfile, Option.none_or] at hl
          exact absurd (fileContents_of_none hl) hne
        | some filename =>
          rw [hname, Option.some_or] at hl
          exact ⟨filename, rfl, mem_fileContents hl⟩

/-- Surroundings in which every file holds one byte. -/
def fileEnv (tcid : CString) (toutput : Option CString) : Env where
  tcid := tcid
  toutput := toutput
  access _ _ := true
  reading _ _ :=
    { fopen := true, chunks := [(['x'], 1)], feof := true, fclose := true, errno := []
      fcloseErrno := [] }
  stack := 0

theorem existing_fileEnv (tcid : CString) (toutput : Option CString) :
    (fileEnv tcid toutput).Existing where
  access _ _ := rfl
  clean _ _ := ⟨rfl, fun chunk hmem => by rw [List.mem_singleton.mp hmem]; rfl, rfl, rfl⟩

/-- Contents that are printed for a call without a file are not attached to its result. -/
theorem Call.Attached.contents_eq_nil (h : call.Attached env lib lib') (hfname : call.fname = none)
    {lines : List Line} {contents : List Output}
    (houtput : lib'.output = lib.output ++ (lines.map .line ++ contents)) {filename : CString}
    (hcontents : ∀ out ∈ contents, ∃ bytes, out = .contents filename bytes) : contents = [] := by
  obtain ⟨lines', contents', houtput', hown⟩ := h
  have hnil : contents' = [] := by
    by_contra hne
    obtain ⟨-, name, hname, -⟩ := hown hne
    rw [hfname] at hname
    cases hname
  have hsame := List.append_cancel_left (houtput.symm.trans houtput')
  rw [hnil, List.append_nil] at hsame
  refine List.eq_nil_iff_forall_not_mem.mpr fun out hmem => ?_
  have hline : out ∈ lines'.map Output.line := hsame ▸ List.mem_append_right _ hmem
  obtain ⟨line, -, rfl⟩ := List.mem_map.mp hline
  obtain ⟨bytes, hbytes⟩ := hcontents _ hmem
  cases hbytes

/-- When every file holds something, a file that is left over is seen. -/
theorem nothingLeft_of_allAttached {tcid : CString} {toutput : Option CString}
    (h : lib.Between (fileEnv tcid toutput)) (hall : AllAttached (fileEnv tcid toutput) calls lib) :
    NothingLeft (modeOf toutput) lib.left calls := by
  induction calls generalizing lib with
  | nil =>
    intro hpending
    obtain ⟨stop, lib', hrun, lines, l, houtput, hl⟩ :=
      tstExit_prints (existing_fileEnv tcid toutput).clean h
    obtain ⟨lines', houtput'⟩ := hall stop lib' hrun
    rw [if_pos (of_decide_eq_true hpending)] at hl
    by_contra hne
    obtain ⟨filename, hname⟩ := Option.ne_none_iff_exists'.mp hne
    -- the byte of the file would have to be a line
    have hsame := List.append_cancel_left (houtput.symm.trans houtput')
    have hline : .contents filename ['x'] ∈ lines'.map Output.line := by
      rw [← hsame, fileContents, hl, show lib.file = some filename from hname]
      exact List.mem_append_right _ List.mem_cons_self
    obtain ⟨line, -, hcontents⟩ := List.mem_map.mp hline
    cases hcontents
  | cons call calls ih =>
    intro hmesg
    obtain ⟨lib', hrun, hbetween, hnext, lines, contents, houtput, -, l, hl, rfl⟩ :=
      Call.run_prints (existing_fileEnv tcid toutput) h hmesg
    obtain ⟨hattached, hrest⟩ := hall lib' hrun
    refine ⟨fun hf hfname => ?_, hnext ▸ ih hbetween hrest⟩
    rw [show (fileEnv tcid toutput).toutput = toutput from rfl, if_neg hf, hfname,
      Option.none_or] at hl
    by_contra hne
    obtain ⟨filename, hname⟩ := Option.ne_none_iff_exists'.mp hne
    have hset := hl.trans hname
    have hnil := hattached.contents_eq_nil hfname houtput (mem_fileContents hset)
    rw [fileContents, hset] at hnil
    cases hnil

/-- Outside `NOPASS` mode nothing is left over where it would be printed. -/
theorem nothingLeft_of_ne_nopass {mode : Mode} {left : Left} (hmode : mode ≠ .nopass)
    (hleft : mode = .discard ∨ left.file = none) (hpending : left.pending = false) :
    NothingLeft mode left calls := by
  induction calls generalizing left with
  | nil => exact fun h => absurd (h.symm.trans hpending) (by decide)
  | cons call calls ih =>
    intro _
    have hpending' : (left.next mode call).pending = false := by
      dsimp only [Left.next]
      split_ifs
      · exact hpending
      · exact decide_eq_false fun h => hmode h.1
    cases mode with
    | nopass => exact absurd rfl hmode
    | discard => exact ⟨fun hf => absurd (.inl rfl) hf, ih (.inl rfl) hpending'⟩
    | verbose =>
      have hf : ¬Filtered .verbose (ttypeResult call.ttype) := by
        rintro (hdiscard | ⟨hnopass, -⟩)
        · cases hdiscard
        · cases hnopass
      have hfile : (left.next .verbose call).file = none := by rw [Left.next, if_neg hf]
      exact ⟨fun _ _ => hleft.resolve_left (by decide), ih (.inr hfile) hpending'⟩

theorem between_initial (env : Env) (tOut : Option Stream) : (Lib.initial tOut).Between env :=
  ⟨(fun hfirst => nomatch hfirst), Int.le_refl 0, (fun hbuffered => nomatch hbuffered)⟩

/-- **The contents of files stay with their results** if and only if the mode is not `NOPASS`, or no
file is left over by a filtered result where a line without a file is printed: neither by a call of
type `TFAIL`, `TBROK` or `TWARN`, nor of the result in the buffer by `tst_exit`. -/
theorem keepsFiles_iff (tcid : CString) (toutput : Option CString) (calls : List Call) :
    KeepsFiles tcid toutput calls ↔
      (modeOf toutput = .nopass → NothingLeft .nopass ⟨none, false⟩ calls) := by
  constructor
  · intro h hmode
    rw [← hmode]
    exact nothingLeft_of_allAttached (between_initial _ none)
      (h (fileEnv tcid toutput) rfl rfl (existing_fileEnv tcid toutput) none)
  · rintro h env - rfl hexisting tOut
    refine allAttached_of_nothingLeft hexisting (between_initial env tOut) ?_
    by_cases hmode : modeOf env.toutput = .nopass
    · rw [hmode]
      exact h hmode
    · exact nothingLeft_of_ne_nopass hmode (.inr rfl) rfl

/-- What must not be left over in `NOPASS` mode. -/
theorem KeepsFiles.nothingLeft {tcid : CString}
    (h : KeepsFiles tcid (some "NOPASS".toList) calls) :
    NothingLeft .nopass ⟨none, false⟩ calls := by
  have hleft := nothingLeft_of_allAttached (between_initial _ none)
    (h (fileEnv tcid (some "NOPASS".toList)) rfl rfl (existing_fileEnv _ _) none)
  have hmode : modeOf (some "NOPASS".toList) = .nopass := by decide
  rwa [hmode] at hleft

/-- In `NOPASS` mode the file of a pass is printed with the failure behind it. -/
theorem passThenFail_not_keepsFiles : ¬KeepsFiles "test".toList (some "NOPASS".toList)
    [.res tpass (some "/log".toList) ['a'], .resm tfail ['b']] := by
  intro h
  obtain ⟨-, hfail⟩ := h.nothingLeft (by decide)
  exact absurd ((hfail (by decide)).1 (by decide) rfl) (by decide)

/-- The file of an information is printed with the failure in the buffer. -/
theorem failThenInfo_not_keepsFiles : ¬KeepsFiles "test".toList (some "NOPASS".toList)
    [.resm tfail ['a'], .res tinfo (some "/log".toList) ['b']] := by
  intro h
  obtain ⟨-, hinfo⟩ := h.nothingLeft (by decide)
  exact absurd ((hinfo (by decide)).2 (by decide)) (by decide)

end SnowballLtp.TstRes
