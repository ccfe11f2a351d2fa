import SnowballLtp.Machine.Loop
import SnowballLtp.Ltp.TstAdvance

/-!
# Files that make trouble

`tst_print` copies `File` to the output with `cat_file`, and clears `File` behind that. When
something goes wrong with the file, `cat_file` prints a warning with `tst_print`, which finds `File`
still set and copies it again. So the file is read again with every warning, until a reading makes
no trouble; then `File` is cleared, and the warnings that are left print their line only. A warning
that is longer than `Warn_mesg` is written behind its end.

For a file system that may answer differently every time, the readings are a loop whose state are
the globals of the library when `cat_file` is entered.

## Main definitions

* `readWarnings`, `AllFit`, `readingStep`: a reading and what comes behind it.
* `entered`: when and where a call of `tst_res` enters `cat_file`.
* `Returns`: the call returns for some size of the stack.

## Main results

* `tstPrint_readsFile`: the calls of `tst_print` that are nested are the readings.
* `returns_iff`: when a call of `tst_res` returns.
* `directory_not_returns`: a directory as the file.
-/

namespace SnowballLtp.TstRes

/-! ### One reading -/

/-- The loop of `cat_file`: what is copied, and the warning if a write is short. -/
def copyTrouble (filename : CString) : List (CString × ℕ) → List Output × List CString
  | [] => ([], [])
  | (bytes, written) :: rest =>
    if written ≠ bytes.length then
      ([.contents filename (bytes.take written)],
        [("tst_res(): While trying to cat \"".toList ++ filename ++
          ("\", fwrite() wrote only " ++ toString written ++ " of " ++ toString bytes.length ++
            " bytes").toList)])
    else (.contents filename (bytes.take written) :: (copyTrouble filename rest).1,
      (copyTrouble filename rest).2)

/-- What is copied when the file is read. -/
def readOutput (filename : CString) (reading : Reading) : List Output :=
  if ¬reading.fopen then [] else (copyTrouble filename reading.chunks).1

/-- The warnings about the reading. -/
def readWarnings (filename : CString) (reading : Reading) : List CString :=
  if ¬reading.fopen then
    ["tst_res(): fopen(".toList ++ filename ++ ", \"r\") failed; ".toList ++ reading.errno]
  else
    (copyTrouble filename reading.chunks).2 ++
      ((if ¬reading.feof then ["tst_res(): While trying to cat \"".toList ++ filename ++
        "\", fread() failed, ".toList ++ reading.errno] else []) ++
      if ¬reading.fclose then ["tst_res(): While trying to cat \"".toList ++ filename ++
        "\", fclose() failed, ".toList ++ reading.fcloseErrno] else [])

/-- All warnings are shorter than `Warn_mesg`. -/
def AllFit (mesgs : List CString) : Prop := ∀ mesg ∈ mesgs, mesg.length < maxmesg

instance (mesgs : List CString) : Decidable (AllFit mesgs) :=
  inferInstanceAs (Decidable (∀ _ ∈ _, _))

section

variable (env : Env)

/-- Warnings are printed one after the other. -/
def warnings (print : Printer) : List CString → Run Unit
  | [] => pure ()
  | mesg :: mesgs => do
    warnMesg env print mesg
    warnings print mesgs

/-- The globals behind the line of a result. -/
def shown (tcid : CString) (tnum : ℤ) (ttype : BitVec 32) (tmesg : CString) (lib : Lib) : Lib :=
  (lib.record (ttypeResult ttype)).write [.line (lineOf lib.tMode tcid tnum ttype tmesg)]

/-- A reading of the file from the globals with which `cat_file` is entered: it is entered again
behind the line of the first warning, unless the warnings do not fit into their buffer. -/
def readingStep (filename : CString) (lib : Lib) : Lib ⊕ Except Stop Unit :=
  match readWarnings filename (env.reading lib filename) with
  | [] => .inr (.ok ())
  | mesg :: mesgs =>
    if AllFit (mesg :: mesgs) then
      .inl (shown env.tcid 0 twarn mesg
        (lib.write (readOutput filename (env.reading lib filename))))
    else .inr (.error .overflow)

end

variable {env : Env} {lib lib' : Lib} {filename : CString}

theorem warnings_append (print : Printer) (mesgs more : List CString) :
    warnings env print (mesgs ++ more) =
      warnings env print mesgs >>= fun _ => warnings env print more := by
  induction mesgs with
  | nil => rw [List.nil_append, warnings, pure_bind]
  | cons mesg mesgs ih => rw [List.cons_append, warnings, warnings, ih, bind_assoc]

theorem warnings_ite (print : Printer) (c : Prop) [Decidable c] (mesg : CString) :
    warnings env print (if c then [mesg] else []) = onlyIf c (warnMesg env print mesg) := by
  by_cases h : c
  · rw [if_pos h, onlyIf_of_pos h, warnings, warnings, bind_pure_unit]
  · rw [if_neg h, onlyIf_of_neg h, warnings]

theorem warnMesg_of_lt (print : Printer) {mesg : CString} (h : mesg.length < maxmesg) :
    warnMesg env print mesg = print env.tcid 0 twarn mesg := if_neg (Nat.not_le_of_lt h)

/-- Warnings that do not fit are not all printed. -/
theorem warnings_run_of_not_allFit (print : Printer) {mesgs : List CString} (h : ¬AllFit mesgs) :
    ∃ stop lib', (warnings env print mesgs).run lib = .error stop lib' := by
  induction mesgs generalizing lib with
  | nil => exact absurd (fun _ hmem => nomatch hmem) h
  | cons mesg mesgs ih =>
    rw [warnings]
    by_cases hfits : mesg.length < maxmesg
    · cases hrun : (warnMesg env print mesg).run lib with
      | error stop lib' => exact ⟨stop, lib', run_bind_of_error hrun⟩
      | ok u lib' =>
        rw [run_bind_of_ok hrun]
        exact ih fun hrest => h (List.forall_mem_cons.mpr ⟨hfits, hrest⟩)
    · refine ⟨.overflow, lib, run_bind_of_error ?_⟩
      rw [warnMesg, if_pos (Nat.le_of_not_lt hfits), EStateM.run_throw]

theorem copyOut_run_warnings (print : Printer) (chunks : List (CString × ℕ))
    (hout : lib.tOut ≠ none) : (copyOut env print filename chunks).run lib =
      (warnings env print (copyTrouble filename chunks).2).run
        (lib.write (copyTrouble filename chunks).1) := by
  induction chunks generalizing lib with
  | nil => rw [copyOut, copyTrouble, warnings, Lib.write_nil]
  | cons chunk rest ih =>
    obtain ⟨bytes, written⟩ := chunk
    rw [copyOut, copyTrouble, run_bind_of_ok (emit_run _ hout)]
    split_ifs with hshort
    · rw [warnings, warnings, bind_pure_unit]
    · rw [ih (by exact hout), Lib.write_write, List.singleton_append]

variable (env filename) in
/-- **A reading** copies some of the file and prints its warnings. -/
theorem catFile_run_warnings (print : Printer) (hout : lib.tOut ≠ none) :
    (catFile env print filename).run lib =
      (warnings env print (readWarnings filename (env.reading lib filename))).run
        (lib.write (readOutput filename (env.reading lib filename))) := by
  rw [catFile, run_bind_of_ok (EStateM.run_get lib), readWarnings, readOutput]
  dsimp only
  by_cases hopen : ¬(env.reading lib filename).fopen = true
  · rw [if_pos hopen, if_pos hopen, if_pos hopen, warnings, warnings, bind_pure_unit,
      Lib.write_nil]
  · rw [if_neg hopen, if_neg hopen, if_neg hopen, warnings_append, warnings_append,
      warnings_ite, warnings_ite, EStateM.run_bind, EStateM.run_bind,
      copyOut_run_warnings print _ hout]

theorem copyTrouble_eq_nil_iff (chunks : List (CString × ℕ)) :
    (copyTrouble filename chunks).2 = [] ↔ ∀ chunk ∈ chunks, chunk.2 = chunk.1.length := by
  induction chunks with
  | nil => simp [copyTrouble]
  | cons chunk rest ih =>
    rw [copyTrouble, List.forall_mem_cons]
    split_ifs with hshort
    · simp [hshort]
    · rw [← ih, not_not.mp hshort]
      simp

/-- A reading without warnings is a clean one. -/
theorem readWarnings_eq_nil_iff (reading : Reading) :
    readWarnings filename reading = [] ↔ reading.Clean := by
  have hwarn : ∀ (c : Bool) (mesg : CString), (if ¬c = true then [mesg] else []) = [] ↔ c = true :=
    fun c mesg => by cases c <;> simp
  rw [readWarnings]
  by_cases hopen : reading.fopen = true
  · rw [if_neg (not_not_intro hopen), List.append_eq_nil_iff, List.append_eq_nil_iff,
      copyTrouble_eq_nil_iff, hwarn, hwarn]
    exact ⟨fun h => ⟨hopen, h.1, h.2.1, h.2.2⟩, fun h => ⟨h.chunks, h.feof, h.fclose⟩⟩
  · rw [if_pos hopen]
    exact ⟨(fun h => nomatch h), fun h => absurd h.fopen hopen⟩

/-! ### Readings -/

/-- Printing changes neither the stream nor the mode nor `Tst_count`. -/
structure SameSettings (lib lib' : Lib) : Prop where
  tOut : lib'.tOut = lib.tOut
  tMode : lib'.tMode = lib.tMode
  tstCount : lib'.tstCount = lib.tstCount

/-- The computation `m` returns if the readings that begin with the given entry of `cat_file`, if
there is one, come to an end on the stack, and otherwise it stops. -/
def ReadsFile (env : Env) (depth : ℕ) (entry : Option (CString × Lib)) (m : Run Unit) (lib : Lib)
    (post : Lib → Prop) : Prop :=
  (∀ e ∈ entry, iterate (readingStep env e.1) (depth + 1) e.2 = some (.ok ())) ∧
      (∃ lib', m.run lib = .ok () lib' ∧ post lib') ∨
    (∃ e ∈ entry, iterate (readingStep env e.1) (depth + 1) e.2 ≠ some (.ok ())) ∧
      ∃ stop lib', m.run lib = .error stop lib'

section ReadsFile

variable {depth : ℕ} {entry : Option (CString × Lib)} {m k : Run Unit} {post post' : Lib → Prop}

theorem readsFile_none (h : ∃ lib', m.run lib = .ok () lib' ∧ post lib') :
    ReadsFile env depth none m lib post :=
  .inl ⟨fun _ he => (Option.not_mem_none _ he).elim, h⟩

/-- What comes behind reads no file. -/
theorem ReadsFile.bind (h : ReadsFile env depth entry m lib post)
    (hk : ∀ lib', post lib' → ∃ lib'', k.run lib' = .ok () lib'' ∧ post' lib'') :
    ReadsFile env depth entry (m >>= fun _ => k) lib post' := by
  obtain ⟨hends, lib', hrun, hpost⟩ | ⟨hnever, stop, lib', hrun⟩ := h
  · obtain ⟨lib'', hrun', hpost'⟩ := hk lib' hpost
    exact .inl ⟨hends, lib'', (run_bind_of_ok hrun).trans hrun', hpost'⟩
  · exact .inr ⟨hnever, stop, lib', run_bind_of_error hrun⟩

/-- What comes in front reads no file. -/
theorem ReadsFile.of_run {α : Type} {m : Run α} {a : α} {k : α → Run Unit}
    (hm : m.run lib = .ok a lib') (h : ReadsFile env depth entry (k a) lib' post) :
    ReadsFile env depth entry (m >>= k) lib post := by
  rw [ReadsFile, run_bind_of_ok hm]
  exact h

theorem ReadsFile.mono (h : ReadsFile env depth entry m lib post)
    (hpost : ∀ lib', post lib' → post' lib') : ReadsFile env depth entry m lib post' := by
  obtain ⟨hends, lib', hrun, hp⟩ | hnever := h
  · exact .inl ⟨hends, lib', hrun, hpost lib' hp⟩
  · exact .inr hnever

end ReadsFile

variable (env) in
/-- Without a file a line is printed, or nothing is. -/
theorem tstPrint_run_of_file_none (depth : ℕ) (tcid : CString) (tnum : ℤ) (ttype : BitVec 32)
    (tmesg : CString) (hfile : lib.file = none) (hout : lib.tOut ≠ none) :
    ∃ lib', (tstPrint env depth tcid tnum ttype tmesg).run lib = .ok () lib' ∧
      SameSettings lib lib' ∧ lib'.file = none := by
  refine ⟨_, tstPrint_run depth tcid tnum ttype tmesg (.inl hfile) (.inl hout), ?_⟩
  rw [printed_of_file_none tcid tnum ttype tmesg hfile]
  exact ⟨⟨rfl, rfl, rfl⟩, hfile⟩

theorem SameSettings.trans {lib'' : Lib} (h : SameSettings lib lib')
    (h' : SameSettings lib' lib'') : SameSettings lib lib'' :=
  ⟨h'.tOut.trans h.tOut, h'.tMode.trans h.tMode, h'.tstCount.trans h.tstCount⟩

theorem SameSettings.setFile (h : SameSettings lib lib') (file : Option CString) :
    SameSettings lib (lib'.setFile file) :=
  ⟨h.tOut, h.tMode, h.tstCount⟩

variable (env) in
/-- Behind the first warning the others print their line only. -/
theorem warnings_run_of_file_none (depth : ℕ) {mesgs : List CString} (hfit : AllFit mesgs)
    (hfile : lib.file = none) (hout : lib.tOut ≠ none) :
    ∃ lib', (warnings env (tstPrint env depth) mesgs).run lib = .ok () lib' ∧
      SameSettings lib lib' ∧ lib'.file = none := by
  induction mesgs generalizing lib with
  | nil => exact ⟨lib, rfl, ⟨rfl, rfl, rfl⟩, hfile⟩
  | cons mesg mesgs ih =>
    obtain ⟨hmesg, hmesgs⟩ := List.forall_mem_cons.mp hfit
    obtain ⟨lib₁, hrun₁, hsame₁, hfile₁⟩ :=
      tstPrint_run_of_file_none env depth env.tcid 0 twarn mesg hfile hout
    obtain ⟨lib₂, hrun₂, hsame₂, hfile₂⟩ := ih hmesgs hfile₁ (by rw [hsame₁.tOut]; exact hout)
    rw [warnings, warnMesg_of_lt _ hmesg]
    exact ⟨lib₂, (run_bind_of_ok hrun₁).trans hrun₂, hsame₁.trans hsame₂, hfile₂⟩

/-- A line with a file, and the readings behind it. -/
theorem printLine_run_of_file (nested : Printer) (tcid : CString) (tnum : ℤ) (ttype : BitVec 32)
    (tmesg : CString) (hfile : lib.file = some filename) (hout : lib.tOut ≠ none)
    (hf : ¬Filtered lib.tMode (ttypeResult ttype)) :
    (printLine env nested tcid tnum ttype tmesg).run lib =
      (do
        catFile env nested filename
        modify (·.setFile none) : Run Unit).run (shown tcid tnum ttype tmesg lib) := by
  rw [printLine, run_bind_of_ok (EStateM.run_modify _ lib), run_bind_of_ok (EStateM.run_get _),
    Lib.record_tMode, onlyIf_of_pos hf, showLine, run_bind_of_ok (EStateM.run_get _),
    run_bind_of_ok (emit_run _ (show (lib.record (ttypeResult ttype)).tOut ≠ none from hout))]
  rw [show (lib.record (ttypeResult ttype)).file = some filename from hfile]
  rfl

section Line

variable (tcid : CString) (tnum : ℤ) (ttype : BitVec 32) (tmesg : CString)

/-- A reading that makes no trouble. -/
theorem printLine_run_of_clean (nested : Printer) (hfile : lib.file = some filename)
    (hout : lib.tOut ≠ none) (hf : ¬Filtered lib.tMode (ttypeResult ttype))
    (hclean : readingStep env filename (shown tcid tnum ttype tmesg lib) = .inr (.ok ())) :
    ∃ lib', (printLine env nested tcid tnum ttype tmesg).run lib = .ok () lib' ∧
      SameSettings lib lib' ∧ lib'.file = none := by
  obtain ⟨l, hl⟩ : ∃ l, l = shown tcid tnum ttype tmesg lib := ⟨_, rfl⟩
  have hlout : l.tOut ≠ none := by rw [hl]; exact hout
  rw [← hl] at hclean
  rw [printLine_run_of_file nested tcid tnum ttype tmesg hfile hout hf, ← hl, EStateM.run_bind,
    catFile_run_warnings env filename nested hlout]
  rw [readingStep] at hclean
  cases hwarnings : readWarnings filename (env.reading l filename) with
  | cons mesg mesgs =>
    simp only [hwarnings] at hclean
    split_ifs at hclean
    cases hclean
  | nil => exact ⟨_, rfl, by rw [hl]; exact ⟨rfl, rfl, rfl⟩, rfl⟩

/-- A reading with a warning that does not fit. -/
theorem printLine_run_of_not_fit (nested : Printer) (hfile : lib.file = some filename)
    (hout : lib.tOut ≠ none) (hf : ¬Filtered lib.tMode (ttypeResult ttype)) {e : Stop}
    (hlong : readingStep env filename (shown tcid tnum ttype tmesg lib) = .inr (.error e)) :
    ∃ stop lib', (printLine env nested tcid tnum ttype tmesg).run lib = .error stop lib' := by
  obtain ⟨l, hl⟩ : ∃ l, l = shown tcid tnum ttype tmesg lib := ⟨_, rfl⟩
  have hlout : l.tOut ≠ none := by rw [hl]; exact hout
  rw [← hl] at hlong
  rw [printLine_run_of_file nested tcid tnum ttype tmesg hfile hout hf, ← hl, EStateM.run_bind,
    catFile_run_warnings env filename nested hlout]
  rw [readingStep] at hlong
  cases hwarnings : readWarnings filename (env.reading l filename) with
  | nil =>
    simp only [hwarnings] at hlong
    cases hlong
  | cons mesg mesgs =>
    simp only [hwarnings] at hlong
    split_ifs at hlong with hfit
    obtain ⟨stop, lib', hrun⟩ := @warnings_run_of_not_allFit env
      (l.write (readOutput filename (env.reading l filename))) nested _ hfit
    exact ⟨stop, lib', by rw [hrun]⟩

/-- The last reading. -/
theorem printLine_run_of_last (nested : Printer) (hfile : lib.file = some filename)
    (hout : lib.tOut ≠ none) (hf : ¬Filtered lib.tMode (ttypeResult ttype)) {r : Except Stop Unit}
    (hstep : readingStep env filename (shown tcid tnum ttype tmesg lib) = .inr r) :
    r = .ok () ∧ (∃ lib', (printLine env nested tcid tnum ttype tmesg).run lib = .ok () lib' ∧
        SameSettings lib lib' ∧ lib'.file = none) ∨
      r ≠ .ok () ∧
        ∃ stop lib', (printLine env nested tcid tnum ttype tmesg).run lib = .error stop lib' := by
  cases r with
  | ok u =>
    exact .inl ⟨rfl, printLine_run_of_clean tcid tnum ttype tmesg nested hfile hout hf hstep⟩
  | error e =>
    exact .inr ⟨(fun h => nomatch h),
      printLine_run_of_not_fit tcid tnum ttype tmesg nested hfile hout hf hstep⟩

/-- A reading that makes trouble: what is printed first decides how it goes on. -/
theorem printLine_run_of_trouble {l : Lib} (hfile : lib.file = some filename)
    (hout : lib.tOut ≠ none) (hf : ¬Filtered lib.tMode (ttypeResult ttype))
    (htrouble : readingStep env filename (shown tcid tnum ttype tmesg lib) = .inl l) :
    ∃ mesg lib₁, l = shown env.tcid 0 twarn mesg lib₁ ∧ lib₁.file = some filename ∧
      SameSettings lib lib₁ ∧ ∀ nested : Printer,
        (∀ stop lib₂, (nested env.tcid 0 twarn mesg).run lib₁ = .error stop lib₂ →
          (printLine env nested tcid tnum ttype tmesg).run lib = .error stop lib₂) ∧
        ∀ lib₂, (nested env.tcid 0 twarn mesg).run lib₁ = .ok () lib₂ → ∃ mesgs, AllFit mesgs ∧
          (printLine env nested tcid tnum ttype tmesg).run lib = (do
            warnings env nested mesgs
            modify (·.setFile none) : Run Unit).run lib₂ := by
  obtain ⟨l₀, hl⟩ : ∃ l₀, l₀ = shown tcid tnum ttype tmesg lib := ⟨_, rfl⟩
  have hlout : l₀.tOut ≠ none := by rw [hl]; exact hout
  rw [← hl, readingStep] at htrouble
  cases hwarnings : readWarnings filename (env.reading l₀ filename) with
  | nil => simp [hwarnings] at htrouble
  | cons mesg mesgs =>
    simp only [hwarnings] at htrouble
    split_ifs at htrouble with hfit
    obtain ⟨hmesg, hmesgs⟩ := List.forall_mem_cons.mp hfit
    refine ⟨mesg, _, (Sum.inl.inj htrouble).symm, by rw [hl]; exact hfile,
      by rw [hl]; exact ⟨rfl, rfl, rfl⟩, fun nested => ?_⟩
    rw [printLine_run_of_file nested tcid tnum ttype tmesg hfile hout hf, ← hl]
    have hcat := catFile_run_warnings env filename nested hlout
    rw [hwarnings, warnings, warnMesg_of_lt _ hmesg] at hcat
    refine ⟨fun stop lib₂ hrun => ?_, fun lib₂ hrun => ⟨mesgs, hmesgs, ?_⟩⟩
    · exact run_bind_of_error (hcat.trans (run_bind_of_error hrun))
    · rw [EStateM.run_bind, hcat, run_bind_of_ok hrun, EStateM.run_bind]

/-- The stack has room for one more reading than for calls that are nested in the first one. -/
theorem tstPrint_run_of_file (depth : ℕ) (hfile : lib.file = some filename)
    (hout : lib.tOut ≠ none) (hf : ¬Filtered lib.tMode (ttypeResult ttype)) :
    (iterate (readingStep env filename) (depth + 1) (shown tcid tnum ttype tmesg lib) =
        some (.ok ()) ∧
      ∃ lib', (tstPrint env depth tcid tnum ttype tmesg).run lib = .ok () lib' ∧
        SameSettings lib lib' ∧ lib'.file = none) ∨
    (iterate (readingStep env filename) (depth + 1) (shown tcid tnum ttype tmesg lib) ≠
        some (.ok ()) ∧
      ∃ stop lib', (tstPrint env depth tcid tnum ttype tmesg).run lib = .error stop lib') := by
  induction depth generalizing lib tcid tnum ttype tmesg with
  | zero =>
    cases hstep : readingStep env filename (shown tcid tnum ttype tmesg lib) with
    | inr r =>
      rw [iterate_succ_inr hstep, Ne, Option.some.injEq]
      exact printLine_run_of_last tcid tnum ttype tmesg _ hfile hout hf hstep
    | inl l =>
      obtain ⟨mesg, lib₁, -, -, -, hnested⟩ :=
        printLine_run_of_trouble tcid tnum ttype tmesg hfile hout hf hstep
      exact .inr ⟨by rw [iterate_succ_inl hstep]; exact (fun h => nomatch h), _, lib₁,
        (hnested _).1 _ _ rfl⟩
  | succ depth ih =>
    cases hstep : readingStep env filename (shown tcid tnum ttype tmesg lib) with
    | inr r =>
      rw [iterate_succ_inr hstep, Ne, Option.some.injEq]
      exact printLine_run_of_last tcid tnum ttype tmesg _ hfile hout hf hstep
    | inl l =>
      obtain ⟨mesg, lib₁, rfl, hfile₁, hsame₁, hnested⟩ :=
        printLine_run_of_trouble tcid tnum ttype tmesg hfile hout hf hstep
      -- a warning is printed in every mode in which the line was
      have hwarn : ¬Filtered lib₁.tMode (ttypeResult twarn) := by
        rw [hsame₁.tMode]
        rintro (hdiscard | ⟨-, -, -, hne⟩)
        · exact hf (.inl hdiscard)
        · exact hne (by decide)
      have hout₁ : lib₁.tOut ≠ none := by rw [hsame₁.tOut]; exact hout
      rw [iterate_succ_inl hstep]
      obtain ⟨hends, lib₂, hrun, hsame₂, hfile₂⟩ | ⟨hnever, stop, lib₂, hrun⟩ :=
        ih env.tcid 0 twarn mesg hfile₁ hout₁ hwarn
      · obtain ⟨mesgs, hfit, hrest⟩ := (hnested _).2 lib₂ hrun
        obtain ⟨lib₃, hrun₃, hsame₃, -⟩ := warnings_run_of_file_none env depth hfit hfile₂
          (by rw [hsame₂.tOut]; exact hout₁)
        refine .inl ⟨hends, lib₃.setFile none, ?_,
          ((hsame₁.trans hsame₂).trans hsame₃).setFile none, rfl⟩
        rw [tstPrint, hrest, run_bind_of_ok hrun₃, EStateM.run_modify]
      · exact .inr ⟨hnever, stop, lib₂, (hnested _).1 _ _ hrun⟩

end Line

/-! ### The first half of `tst_res` -/

/-- The mode that `check_env` sets. -/
def modeOf (toutput : Option CString) : Mode :=
  match toutput with
  | none => .verbose
  | some value =>
    if value = "NOPASS".toList then .nopass
    else if value = "DISCARD".toList then .discard
    else .verbose

/-- What the first half of `tst_res` sets. -/
structure Begun (env : Env) (fname : Option CString) (lib start : Lib) : Prop where
  tOut : start.tOut ≠ none
  firstTime : start.firstTime = false
  tMode : (lib.firstTime = false → lib.tMode = modeOf env.toutput) →
    start.tMode = modeOf env.toutput
  file : (∀ lib filename, env.access lib filename = true) → start.file = fname.or lib.file
  output : start.output = lib.output
  tstCount : start.tstCount = lib.tstCount
  buffered : start.buffered = lib.buffered
  last : start.last = lib.last

theorem checkEnv_of_firstTime (h : lib.firstTime = true) :
    checkEnv env lib = { lib with firstTime := false, tMode := modeOf env.toutput } := by
  generalize hnopass : "NOPASS".toList = nopass
  generalize hdiscard : "DISCARD".toList = discard
  rw [checkEnv, modeOf.eq_def, hnopass, hdiscard, h, if_neg (show ¬(!true) = true by decide)]
  cases env.toutput with
  | none => rfl
  | some value =>
    dsimp only
    split_ifs
    all_goals rfl

theorem checkEnv_of_not_firstTime (h : lib.firstTime = false) : checkEnv env lib = lib := by
  rw [checkEnv, h]
  rfl

theorem begun_tstResBegin (env : Env) (result : BitVec 32) (fname : Option CString) (lib : Lib) :
    Begun env fname lib (tstResBegin env result fname lib) := by
  obtain ⟨l, hl⟩ : ∃ l, l = { (lib.log (.report result)).record result with
    tOut := lib.tOut.or (some .stdout) } := ⟨_, rfl⟩
  have hset : Begun env none lib (checkEnv env l) := by
    have hout : l.tOut ≠ none := by
      rw [hl]
      simp
    cases hfirst : lib.firstTime with
    | true =>
      rw [checkEnv_of_firstTime (by rw [hl]; exact hfirst)]
      exact ⟨hout, rfl, fun _ => rfl, fun _ => by rw [hl]; rfl, by rw [hl]; rfl, by rw [hl]; rfl,
        by rw [hl]; rfl, by rw [hl]; rfl⟩
    | false =>
      rw [checkEnv_of_not_firstTime (by rw [hl]; exact hfirst)]
      refine ⟨hout, by rw [hl]; exact hfirst, fun hmode => ?_, fun _ => by rw [hl]; rfl,
        by rw [hl]; rfl, by rw [hl]; rfl, by rw [hl]; rfl, by rw [hl]; rfl⟩
      rw [hl]
      exact hmode hfirst
  cases fname with
  | none =>
    have hbegin : tstResBegin env result none lib = checkEnv env l := by
      rw [hl]
      rfl
    rw [hbegin]
    exact hset
  | some name =>
    have hbegin : tstResBegin env result (some name) lib =
        if env.access (checkEnv env l) name then (checkEnv env l).setFile (some name)
        else checkEnv env l := by
      rw [hl]
      rfl
    rw [hbegin]
    split_ifs with haccess
    · exact ⟨hset.tOut, hset.firstTime, hset.tMode, fun _ => rfl, hset.output, hset.tstCount,
        hset.buffered, hset.last⟩
    · exact ⟨hset.tOut, hset.firstTime, hset.tMode, fun hall => absurd (hall _ name) haccess,
        hset.output, hset.tstCount, hset.buffered, hset.last⟩

/-! ### The call -/

/-- Where a call of `tst_print` enters `cat_file` first, and with which file. -/
def printEntry (tcid : CString) (tnum : ℤ) (ttype : BitVec 32) (tmesg : CString) (lib : Lib) :
    Option (CString × Lib) :=
  if Filtered lib.tMode (ttypeResult ttype) then none
  else lib.file.map fun filename => (filename, shown tcid tnum ttype tmesg lib)

/-- The globals when `tst_condense` has printed the result in the buffer. -/
def released (env : Env) (lib : Lib) : Lib :=
  if lib.buffered then
    (printed env lib.last.tcid lib.last.num lib.last.type lib.last.mesg
      (lib.setFile none)).setFile lib.file
  else lib

/-- Where the display of a numbered result enters `cat_file` first. -/
def displayEntry (env : Env) (ttype : BitVec 32) (tmesg : CString) (lib : Lib) :
    Option (CString × Lib) :=
  match lib.tMode with
  | .discard => none
  | .nopass => printEntry env.tcid (lib.tstCount + 1) ttype tmesg (released env lib)
  | .verbose => printEntry env.tcid (lib.tstCount + 1) ttype tmesg lib

/-- Where a call of `tst_res` enters `cat_file` first, from the globals behind its first half. -/
def entered (env : Env) (ttype : BitVec 32) (tmesg : CString) (lib : Lib) :
    Option (CString × Lib) :=
  if ttypeResult ttype = twarn ∨ ttypeResult ttype = tinfo then
    printEntry env.tcid 0 ttype tmesg lib
  else if lib.tstCount < 0 then
    printEntry env.tcid 0 twarn "tst_res(): Tst_count < 0 is not valid".toList lib
  else displayEntry env ttype tmesg lib

/-- The call of `tst_res` returns on a stack that is large enough, and in `VERBOSE` mode `File` is
null then. -/
def Returns (env : Env) (ttype : BitVec 32) (fname : Option CString) (mesg : CString)
    (lib : Lib) : Prop :=
  ∃ stack lib', (tstRes { env with stack } ttype fname mesg).run lib = .ok () lib' ∧
    (lib'.tMode = .verbose → lib'.file = none)

section Calls

variable (tcid : CString) (tnum : ℤ) (ttype : BitVec 32) (tmesg : CString)

theorem printEntry_of_file_none (hfile : lib.file = none) :
    printEntry tcid tnum ttype tmesg lib = none := by
  rw [printEntry, hfile, Option.map_none, ite_self]

variable (env) in
/-- **Printing**, whatever the file does. -/
theorem tstPrint_readsFile (depth : ℕ) (hout : lib.tOut ≠ none) :
    ReadsFile env depth (printEntry tcid tnum ttype tmesg lib)
      (tstPrint env depth tcid tnum ttype tmesg) lib fun lib' => SameSettings lib lib' ∧
        (lib'.file = none ∨ Filtered lib.tMode (ttypeResult ttype)) := by
  by_cases hf : Filtered lib.tMode (ttypeResult ttype)
  · have hrun : (tstPrint env depth tcid tnum ttype tmesg).run lib =
        .ok () (lib.record (ttypeResult ttype)) := by
      cases depth <;>
        rw [tstPrint, printLine, run_bind_of_ok (EStateM.run_modify _ lib),
          run_bind_of_ok (EStateM.run_get _), Lib.record_tMode,
          onlyIf_of_neg (not_not_intro hf), EStateM.run_pure]
    rw [printEntry, if_pos hf]
    exact readsFile_none ⟨_, hrun, ⟨rfl, rfl, rfl⟩, .inr hf⟩
  · cases hfile : lib.file with
    | none =>
      rw [printEntry_of_file_none tcid tnum ttype tmesg hfile]
      obtain ⟨lib', hrun, hsame, hnone⟩ :=
        tstPrint_run_of_file_none env depth tcid tnum ttype tmesg hfile hout
      exact readsFile_none ⟨lib', hrun, hsame, .inl hnone⟩
    | some filename =>
      rw [printEntry, if_neg hf, hfile, Option.map_some]
      obtain ⟨hends, lib', hrun, hsame, hnone⟩ | ⟨hnever, stop, lib', hrun⟩ :=
        tstPrint_run_of_file tcid tnum ttype tmesg depth hfile hout hf
      · exact .inl ⟨fun e he => by rw [← Option.mem_some_iff.mp he]; exact hends, lib', hrun, hsame,
          .inl hnone⟩
      · exact .inr ⟨⟨_, Option.mem_some_self _, hnever⟩, stop, lib', hrun⟩

theorem released_file (env : Env) (lib : Lib) : (released env lib).file = lib.file := by
  rw [released]
  split_ifs
  · rfl
  · rfl

theorem sameSettings_released (env : Env) (lib : Lib) : SameSettings lib (released env lib) := by
  rw [released]
  split_ifs
  · rw [printed_of_file_none _ _ _ _ rfl]
    exact ⟨rfl, rfl, rfl⟩
  · exact ⟨rfl, rfl, rfl⟩

/-- **Condensing**: unless the result repeats the one in the buffer, that one is printed without a
file. -/
theorem tstCondense_run (hout : lib.tOut ≠ none) :
    (tstCondense env tnum ttype tmesg).run lib =
      if lib.buffered ∧ lib.last.tcid = env.tcid ∧ lib.last.type = ttypeResult ttype ∧
        lib.last.mesg = tmesg ∧ lib.file = none then .ok () lib
      else (if lib.file ≠ none then do
          tstPrint env env.stack env.tcid tnum ttype tmesg
          modify fun lib => { lib with buffered := false }
        else modify (·.hold ⟨env.tcid, tnum, ttypeResult ttype, tmesg⟩) : Run Unit).run
          (released env lib) := by
  rw [tstCondense, run_bind_of_ok (EStateM.run_get lib)]
  by_cases hrepeated : lib.buffered ∧ lib.last.tcid = env.tcid ∧
      lib.last.type = ttypeResult ttype ∧ lib.last.mesg = tmesg ∧ lib.file = none
  · rw [if_pos hrepeated, onlyIf_of_neg (not_not_intro hrepeated), EStateM.run_pure]
  · have hrelease : (onlyIf lib.buffered do
        set (lib.setFile none)
        tstPrint env env.stack lib.last.tcid lib.last.num lib.last.type lib.last.mesg
        modify (·.setFile lib.file) : Run Unit).run lib = .ok () (released env lib) := by
      by_cases hbuffered : lib.buffered = true
      · have hprint := @tstPrint_run env (lib.setFile none) env.stack lib.last.tcid lib.last.num
          lib.last.type lib.last.mesg (.inl rfl) (.inl hout)
        rw [onlyIf_of_pos hbuffered, released, if_pos hbuffered,
          run_bind_of_ok (EStateM.run_set _ _), run_bind_of_ok hprint, EStateM.run_modify]
      · rw [onlyIf_of_neg hbuffered, released, if_neg hbuffered, EStateM.run_pure]
    rw [if_neg hrepeated, onlyIf_of_pos hrepeated, run_bind_of_ok hrelease]

/-- Condensing, whatever the file does. -/
theorem tstCondense_readsFile (hout : lib.tOut ≠ none) :
    ReadsFile env env.stack (printEntry env.tcid tnum ttype tmesg (released env lib))
      (tstCondense env tnum ttype tmesg) lib fun lib' => lib'.tMode = lib.tMode := by
  have hsame := sameSettings_released env lib
  rw [ReadsFile, tstCondense_run tnum ttype tmesg hout]
  split_ifs with hrepeated hfile
  · rw [printEntry_of_file_none _ _ _ _ ((released_file env lib).trans hrepeated.2.2.2.2)]
    exact .inl ⟨fun e he => (Option.not_mem_none e he).elim, lib, rfl, rfl⟩
  · have hprint := tstPrint_readsFile env env.tcid tnum ttype tmesg env.stack
      (show (released env lib).tOut ≠ none by rw [hsame.tOut]; exact hout)
    exact hprint.bind fun lib' h => ⟨_, rfl, h.1.tMode.trans hsame.tMode⟩
  · rw [printEntry_of_file_none _ _ _ _ ((released_file env lib).trans (not_not.mp hfile))]
    exact readsFile_none (m := modify _) ⟨_, rfl, hsame.tMode⟩

variable (env) in
/-- **The display** of a numbered result. -/
theorem tstResDisplay_readsFile (hout : lib.tOut ≠ none) :
    ReadsFile env env.stack (displayEntry env ttype tmesg lib) (tstResDisplay env ttype tmesg) lib
      fun lib' => lib'.tMode = .verbose → lib'.file = none := by
  refine ReadsFile.of_run (EStateM.run_get lib) ?_
  rw [displayEntry]
  cases hmode : lib.tMode with
  | discard =>
    exact readsFile_none ⟨lib, rfl, fun hverbose => nomatch hmode.symm.trans hverbose⟩
  | nopass =>
    exact (tstCondense_readsFile _ ttype tmesg hout).mono fun lib' hsame hverbose =>
      nomatch (hmode.symm.trans hsame.symm).trans hverbose
  | verbose =>
    refine (tstPrint_readsFile env _ _ ttype tmesg _ hout).mono fun lib' h _ => h.2.resolve_right ?_
    rintro (hdiscard | ⟨hnopass, -⟩)
    · exact nomatch hmode.symm.trans hdiscard
    · exact nomatch hmode.symm.trans hnopass

/-- Without a file nothing is read. -/
theorem displayEntry_of_file_none (h : lib.file = none ∨ lib.tMode = .discard) :
    displayEntry env ttype tmesg lib = none := by
  rw [displayEntry]
  cases hmode : lib.tMode with
  | discard => rfl
  | nopass =>
    exact printEntry_of_file_none _ _ _ _ ((released_file env lib).trans
      (h.resolve_right (by rw [hmode]; decide)))
  | verbose => exact printEntry_of_file_none _ _ _ _ (h.resolve_right (by rw [hmode]; decide))

variable (env) in
/-- **A call of `tst_res`**, whatever the files do. -/
theorem tstRes_readsFile (fname : Option CString) {mesg : CString} (hmesg : mesg ≠ []) (lib : Lib) :
    ReadsFile env env.stack (entered env ttype (mesg.take (usermesg - 1))
        (tstResBegin env (ttypeResult ttype) fname lib))
      (tstRes env ttype fname mesg) lib fun lib' => lib'.tMode = .verbose → lib'.file = none := by
  refine ReadsFile.of_run (expandVarArgs_run hmesg) ?_
  refine ReadsFile.of_run (EStateM.run_modify _ _) ?_
  have hout := (begun_tstResBegin env (ttypeResult ttype) fname lib).tOut
  obtain ⟨l, hl⟩ : ∃ l, l = tstResBegin env (ttypeResult ttype) fname lib := ⟨_, rfl⟩
  rw [← hl] at hout ⊢
  rw [entered]
  by_cases hunnumbered : ttypeResult ttype = twarn ∨ ttypeResult ttype = tinfo
  · rw [if_pos hunnumbered, if_pos hunnumbered]
    refine (tstPrint_readsFile env _ _ ttype _ _ hout).mono fun lib' h hverbose =>
      h.2.resolve_right ?_
    rw [← h.1.tMode, hverbose]
    rintro (hdiscard | ⟨hnopass, -⟩)
    · cases hdiscard
    · cases hnopass
  · rw [if_neg hunnumbered, if_neg hunnumbered]
    refine ReadsFile.of_run (EStateM.run_get l) ?_
    by_cases hneg : l.tstCount < 0
    · rw [if_pos hneg, onlyIf_of_pos hneg]
      refine (tstPrint_readsFile env _ _ _ _ _ hout).bind fun lib₁ h => ?_
      have hout₁ : lib₁.tOut ≠ none := by rw [h.1.tOut]; exact hout
      have hquiet : lib₁.file = none ∨ lib₁.tMode = .discard := by
        refine h.2.imp_right fun hf => ?_
        rw [h.1.tMode]
        exact hf.resolve_right fun hnopass => hnopass.2.2.2 (by decide)
      have hdisplay := tstResDisplay_readsFile env ttype (mesg.take (usermesg - 1)) hout₁
      rw [displayEntry_of_file_none _ _ hquiet] at hdisplay
      obtain ⟨-, lib₂, hrun, hpost⟩ | ⟨⟨e, he, -⟩, -⟩ := hdisplay
      · exact ⟨_, (run_bind_of_ok hrun).trans (EStateM.run_modify _ _), hpost⟩
      · exact (Option.not_mem_none e he).elim
    · rw [if_neg hneg, onlyIf_of_neg hneg, pure_bind]
      exact (tstResDisplay_readsFile env ttype _ hout).bind fun lib' hpost => ⟨_, rfl, hpost⟩

/-- **A call of `tst_res` returns** if and only if its message is not empty and the readings of its
file, if `cat_file` is entered, come to one that makes no trouble, with no warning before that is
longer than its buffer. -/
theorem returns_iff {fname : Option CString} {mesg : CString} :
    Returns env ttype fname mesg lib ↔ mesg ≠ [] ∧
      ∀ e ∈ entered env ttype (mesg.take (usermesg - 1))
          (tstResBegin env (ttypeResult ttype) fname lib),
        ∃ fuel, iterate (readingStep env e.1) fuel e.2 = some (.ok ()) := by
  have hcall : mesg ≠ [] → ∀ stack, ReadsFile env stack (entered env ttype
      (mesg.take (usermesg - 1)) (tstResBegin env (ttypeResult ttype) fname lib))
      (tstRes { env with stack } ttype fname mesg) lib
      fun lib' => lib'.tMode = .verbose → lib'.file = none :=
    fun hmesg stack => tstRes_readsFile { env with stack } ttype fname hmesg lib
  constructor
  · rintro ⟨stack, lib', hrun, -⟩
    have hmesg : mesg ≠ [] := by
      rintro rfl
      rw [tstRes, run_bind_of_error expandVarArgs_run_nil] at hrun
      cases hrun
    obtain ⟨hends, -⟩ | ⟨-, stop, lib'', hrun'⟩ := hcall hmesg stack
    · exact ⟨hmesg, fun e he => ⟨_, hends e he⟩⟩
    · rw [hrun] at hrun'
      cases hrun'
  · rintro ⟨hmesg, hends⟩
    obtain ⟨stack, hstack⟩ : ∃ stack, ∀ e ∈ entered env ttype (mesg.take (usermesg - 1))
        (tstResBegin env (ttypeResult ttype) fname lib),
        iterate (readingStep env e.1) (stack + 1) e.2 = some (.ok ()) := by
      cases hentry : entered env ttype (mesg.take (usermesg - 1))
          (tstResBegin env (ttypeResult ttype) fname lib) with
      | none => exact ⟨0, fun e he => (Option.not_mem_none e he).elim⟩
      | some e =>
        obtain ⟨fuel, hfuel⟩ := hends e hentry
        refine ⟨fuel, fun e' he' => ?_⟩
        obtain rfl := Option.mem_some_iff.mp he'
        exact iterate_of_le hfuel (Nat.le_succ fuel)
    obtain ⟨-, lib', hrun, hpost⟩ | ⟨⟨e, he, hnever⟩, -⟩ := hcall hmesg stack
    · exact ⟨stack, lib', hrun, hpost⟩
    · exact absurd (hstack e he) hnever

/-- A file that always makes trouble is read again and again. -/
theorem not_returns_of_troubled {fname : Option CString} {mesg : CString} {l : Lib}
    (hentry : entered env ttype (mesg.take (usermesg - 1))
      (tstResBegin env (ttypeResult ttype) fname lib) = some (filename, l))
    (htrouble : ∀ lib, ¬(env.reading lib filename).Clean) : ¬Returns env ttype fname mesg lib := by
  rintro ⟨stack, lib', hrun, -⟩
  have hmesg : mesg ≠ [] := by
    rintro rfl
    rw [tstRes, run_bind_of_error expandVarArgs_run_nil] at hrun
    cases hrun
  obtain ⟨hends, -⟩ | ⟨-, stop, lib'', hrun'⟩ :=
    tstRes_readsFile { env with stack } ttype fname hmesg lib
  · obtain ⟨lib₁, hclean⟩ := exists_inr_of_iterate (hends _ hentry)
    rw [readingStep] at hclean
    cases hwarnings : readWarnings filename (env.reading lib₁ filename) with
    | nil => exact htrouble lib₁ ((readWarnings_eq_nil_iff _).mp hwarnings)
    | cons mesg mesgs =>
      simp only [hwarnings] at hclean
      split_ifs at hclean
      cases hclean
  · rw [hrun] at hrun'
    cases hrun'

end Calls

/-- Surroundings in which every file is a directory: it is there and opens, and reading it fails. -/
def directoryEnv : Env where
  tcid := "test".toList
  toutput := none
  access _ _ := true
  reading _ _ :=
    { fopen := true, chunks := [], feof := false, fclose := true
      errno := "errno = 21: Is a directory".toList, fcloseErrno := [] }
  stack := 0

/-- The first result of a test, with a directory as its file: the calls go on for ever. -/
theorem directory_not_returns :
    ¬Returns directoryEnv tpass (some "/".toList) ['a'] (Lib.initial none) := by
  have hentry : ∃ l, entered directoryEnv tpass ['a']
      (tstResBegin directoryEnv tpass (some "/".toList) (Lib.initial none)) =
        some ("/".toList, l) := ⟨_, rfl⟩
  obtain ⟨l, hl⟩ := hentry
  exact not_returns_of_troubled tpass hl fun lib hclean => Bool.false_ne_true hclean.feof

-- The warning has 78 characters, so that it is the calls that do not end.
example : AllFit
    (readWarnings "/".toList (directoryEnv.reading (Lib.initial none) "/".toList)) := by
  decide

end SnowballLtp.TstRes
