import Mathlib.Data.Int.Notation
import Mathlib.Data.List.Basic
import SnowballLtp.Machine.Outcome

/-!
# Reporting results

The result functions of the test library. `tst_res` ORs the type of a result into `T_exitval` and
prints the result, or in `NOPASS` mode leaves it in a one-element buffer until a different result
or `tst_flush` prints it. `tst_brk` reports a result, runs the cleanup function of the test and
exits; called inside a cleanup function it returns. A `File` named with a result is copied to the
output after the line of the result, and when that goes wrong the warning is printed by the
function that is copying, while `File` is still set.

The functions are computations over the globals of the library that return or stop (`Stop`). The
file system is an adversary whose answers may depend on all that happened so far. The number of
nested calls of `tst_print` for which the stack has room is a parameter.

## Main definitions

* `Lib`: the globals. `Env`: what the library reads from outside.
* `tstPrint`, `catFile`, `checkEnv`, `tstCondense`, `tstFlush`, `tstExit`, `tstRes`, `tstResm`,
  `tstBrk`, `tstBrkm`.

## Main results

* `tstPrint_run`: what a call of `tst_print` does when no file goes wrong.
* `tstPrint_run_nullStream`: what it does before the stream is set.
-/

namespace SnowballLtp.TstRes

/-- A C string, without its terminator. -/
abbrev CString := List Char

/-! ### Result types -/

def ttypeMask : BitVec 32 := 0x3f
def tpass : BitVec 32 := 0
def tfail : BitVec 32 := 1
def tbrok : BitVec 32 := 2
def twarn : BitVec 32 := 4
def tretr : BitVec 32 := 8
def tinfo : BitVec 32 := 16
def tconf : BitVec 32 := 32
def terrno : BitVec 32 := 0x100
def tterrno : BitVec 32 := 0x200

/-- `TTYPE_RESULT`: a result type without its flags. -/
def ttypeResult (ttype : BitVec 32) : BitVec 32 := ttype &&& ttypeMask

/-- `strttype`: the name of a result type. -/
def strttype (ttype : BitVec 32) : String :=
  let result := ttypeResult ttype
  if result = tpass then "TPASS"
  else if result = tfail then "TFAIL"
  else if result = tbrok then "TBROK"
  else if result = tretr then "TRETR"
  else if result = tconf then "TCONF"
  else if result = twarn then "TWARN"
  else if result = tinfo then "TINFO"
  else "???"

/-! ### The state of the library -/

/-- `T_mode`. -/
inductive Mode where
  | verbose
  | nopass
  | discard
  deriving DecidableEq, Repr

/-- The stream behind `T_out`: the standard output, or the copy of it made by `tst_environ`. -/
inductive Stream where
  | stdout
  | copy
  deriving DecidableEq, Repr

/-- A line of `tst_print`. -/
structure Line where
  /-- Which of the two formats it has: `%4d` next to the type, or set off from it. -/
  verbose : Bool
  tcid : CString
  tnum : ℤ
  type : String
  tmesg : CString
  /-- Whether the text of `errno` follows. -/
  errno : Bool
  /-- Whether the text of `TEST_ERRNO` follows. -/
  testErrno : Bool
  deriving DecidableEq, Repr

/-- What is written to `T_out`. -/
inductive Output where
  | line (l : Line)
  | contents (filename bytes : CString)
  deriving DecidableEq, Repr

/-- What is called: a report with its type, the report of the remaining cases, a cleanup function
with its return, and the exit with `tst_brk_entered`. -/
inductive Event where
  | report (ttype : BitVec 32)
  | remaining
  | cleanup
  | cleanedUp
  | exit (entered : ℤ)
  deriving DecidableEq, Repr

/-- The result in the buffer: `Last_tcid`, `Last_num`, `Last_type` and `Last_mesg`. -/
structure Last where
  tcid : CString
  num : ℤ
  type : BitVec 32
  mesg : CString
  deriving DecidableEq, Repr

/-- The globals of the library. -/
structure Lib where
  tOut : Option Stream
  file : Option CString
  tExitval : BitVec 32
  tMode : Mode
  /-- `first_time` of `check_env`. -/
  firstTime : Bool
  buffered : Bool
  last : Last
  tstCount : ℤ
  tstBrkEntered : ℤ
  output : List Output
  trace : List Event
  deriving DecidableEq, Repr

/-- The globals when the program starts, or after `tst_environ`. -/
def Lib.initial (tOut : Option Stream) : Lib where
  tOut := tOut
  file := none
  tExitval := 0
  tMode := .verbose
  firstTime := true
  buffered := false
  last := ⟨[], 0, 0, []⟩
  tstCount := 0
  tstBrkEntered := 0
  output := []
  trace := []

namespace Lib

/-- The event is added to the trace. -/
def log (lib : Lib) (event : Event) : Lib := { lib with trace := lib.trace ++ [event] }

/-- More is written to the output. -/
def write (lib : Lib) (out : List Output) : Lib := { lib with output := lib.output ++ out }

/-- The bits of a result type are collected for the exit status. -/
def record (lib : Lib) (result : BitVec 32) : Lib :=
  { lib with tExitval := lib.tExitval ||| result }

def setFile (lib : Lib) (file : Option CString) : Lib := { lib with file := file }

/-- The result is put into the buffer. -/
def hold (lib : Lib) (result : Last) : Lib := { lib with last := result, buffered := true }

end Lib

/-- How a process ends. -/
inductive Stop where
  | exit (status : BitVec 32)
  /-- A message is empty. -/
  | assertion
  /-- A line is printed while `T_out` is null. -/
  | nullStream
  /-- The calls are nested deeper than the stack allows. -/
  | stackOverflow
  /-- A warning is longer than the buffer that it is written to. -/
  | overflow
  deriving DecidableEq, Repr

abbrev Run := EStateM Stop Lib

/-- What reading a file does: whether it opens, the pieces that are read with the number of bytes
of each that are written, whether the end is reached, whether it closes, and the text of `errno`
where it does not open or is not read, and where it does not close. -/
structure Reading where
  fopen : Bool
  chunks : List (CString × ℕ)
  feof : Bool
  fclose : Bool
  errno : CString
  fcloseErrno : CString
  deriving DecidableEq, Repr

/-- What the library reads from outside. -/
structure Env where
  tcid : CString
  /-- `getenv ("TOUTPUT")`. -/
  toutput : Option CString
  access : Lib → CString → Bool
  reading : Lib → CString → Reading
  /-- How many calls of `tst_print` may be nested in a first one. -/
  stack : ℕ

/-! ### The functions of the library -/

/-- `USERMESG`. -/
def usermesg : ℕ := 2048

/-- `MAXMESG`: the size of `Warn_mesg`. -/
def maxmesg : ℕ := 80

/-- `EXPAND_VAR_ARGS`: the expansion of the arguments, cut to the size of the buffer. -/
def expandVarArgs (mesg : CString) : Run CString :=
  let buf := mesg.take (usermesg - 1)
  if buf = [] then throw .assertion else pure buf

/-- Writing to `T_out`. -/
def emit (out : Output) : Run Unit := do
  let lib ← get
  if lib.tOut = none then throw .nullStream
  else set (lib.write [out])

/-- The type of `tst_print`: the test case, the test number, the type and the message. -/
abbrev Printer := CString → ℤ → BitVec 32 → CString → Run Unit

section

variable (env : Env)

/-- A warning of `cat_file`: it is written to `Warn_mesg`, whatever its length, and printed. -/
def warnMesg (print : Printer) (text : CString) : Run Unit :=
  if maxmesg ≤ text.length then throw .overflow else print env.tcid 0 twarn text

/-- The loop of `cat_file`. -/
def copyOut (print : Printer) (filename : CString) : List (CString × ℕ) → Run Unit
  | [] => pure ()
  | (bytes, written) :: rest => do
    emit (.contents filename (bytes.take written))
    if written ≠ bytes.length then
      warnMesg env print ("tst_res(): While trying to cat \"".toList ++ filename ++
        ("\", fwrite() wrote only " ++ toString written ++ " of " ++ toString bytes.length ++
          " bytes").toList)
    else copyOut print filename rest

/-- `cat_file`. Its warnings are printed by `print`. -/
def catFile (print : Printer) (filename : CString) : Run Unit := do
  let reading := env.reading (← get) filename
  if ¬reading.fopen then
    warnMesg env print
      ("tst_res(): fopen(".toList ++ filename ++ ", \"r\") failed; ".toList ++ reading.errno)
  else do
    copyOut env print filename reading.chunks
    onlyIf (¬reading.feof) <|
      warnMesg env print ("tst_res(): While trying to cat \"".toList ++ filename ++
        "\", fread() failed, ".toList ++ reading.errno)
    onlyIf (¬reading.fclose) <|
      warnMesg env print ("tst_res(): While trying to cat \"".toList ++ filename ++
        "\", fclose() failed, ".toList ++ reading.fcloseErrno)

/-- Whether `tst_print` drops a result of the given type. -/
def Filtered (mode : Mode) (result : BitVec 32) : Prop :=
  mode = .discard ∨ mode = .nopass ∧ result ≠ tfail ∧ result ≠ tbrok ∧ result ≠ twarn

instance (mode : Mode) (result : BitVec 32) : Decidable (Filtered mode result) :=
  inferInstanceAs (Decidable (_ ∨ _))

/-- The line of a result. -/
def lineOf (mode : Mode) (tcid : CString) (tnum : ℤ) (ttype : BitVec 32) (tmesg : CString) :
    Line where
  verbose := mode = .verbose
  tcid := tcid
  tnum := tnum
  type := strttype ttype
  tmesg := tmesg
  errno := ttype &&& terrno ≠ 0
  testErrno := ttype &&& tterrno ≠ 0

/-- The second half of `tst_print`: the line, and the contents of the file. -/
def showLine (nested : Printer) : Printer := fun tcid tnum ttype tmesg => do
  let lib ← get
  emit (.line (lineOf lib.tMode tcid tnum ttype tmesg))
  lib.file.elim (pure ()) (catFile env nested)
  modify (·.setFile none)

/-- The body of `tst_print`. The calls that `cat_file` makes are those of `nested`. -/
def printLine (nested : Printer) : Printer := fun tcid tnum ttype tmesg => do
  modify (·.record (ttypeResult ttype))
  onlyIf (¬Filtered (← get).tMode (ttypeResult ttype)) <|
    showLine env nested tcid tnum ttype tmesg

/-- `tst_print`, with room for a number of calls of itself. -/
def tstPrint : (depth : ℕ) → Printer
  | 0 => printLine env fun _ _ _ _ => throw .stackOverflow
  | depth + 1 => printLine env (tstPrint depth)

/-- `check_env`. -/
def checkEnv (lib : Lib) : Lib :=
  if !lib.firstTime then lib
  else
    let lib := { lib with firstTime := false }
    match env.toutput with
    | none => { lib with tMode := .verbose }
    | some value =>
      if value = "NOPASS".toList then { lib with tMode := .nopass }
      else if value = "DISCARD".toList then { lib with tMode := .discard }
      else { lib with tMode := .verbose }

/-- `tst_condense`. -/
def tstCondense (tnum : ℤ) (ttype : BitVec 32) (tmesg : CString) : Run Unit := do
  let result := ttypeResult ttype
  let lib ← get
  onlyIf (¬(lib.buffered ∧ lib.last.tcid = env.tcid ∧ lib.last.type = result ∧
      lib.last.mesg = tmesg ∧ lib.file = none)) do
    onlyIf lib.buffered do
      -- The buffered result differs. It is printed without the file of the present one.
      set (lib.setFile none)
      tstPrint env env.stack lib.last.tcid lib.last.num lib.last.type lib.last.mesg
      modify (·.setFile lib.file)
    if lib.file ≠ none then do
      tstPrint env env.stack env.tcid tnum ttype tmesg
      modify fun lib => { lib with buffered := false }
    else
      modify (·.hold ⟨env.tcid, tnum, result, tmesg⟩)

/-- `tst_flush`. Flushing the stream itself has no effect here, whether it is null or not. -/
def tstFlush : Run Unit := do
  let lib ← get
  onlyIf (lib.buffered ∧ lib.tMode = .nopass) do
    tstPrint env env.stack lib.last.tcid lib.last.num lib.last.type lib.last.mesg
    modify fun lib => { lib with buffered := false }

/-- `tst_exit`. -/
def tstExit : Run Unit := do
  tstFlush env
  let lib ← get
  set (lib.log (.exit lib.tstBrkEntered))
  throw (.exit (lib.tExitval &&& ~~~(tretr ||| tinfo ||| tconf)))

/-- The first half of `tst_res`, up to the file: the type is recorded, the stream and the mode
are set. -/
def tstResBegin (result : BitVec 32) (fname : Option CString) (lib : Lib) : Lib :=
  let lib := (lib.log (.report result)).record result
  let lib := checkEnv env { lib with tOut := lib.tOut.or (some .stdout) }
  match fname with
  | some name => if env.access lib name then lib.setFile (some name) else lib
  | none => lib

/-- The display of a numbered result in `tst_res`, by the output mode. -/
def tstResDisplay (ttype : BitVec 32) (tmesg : CString) : Run Unit := do
  let lib ← get
  match lib.tMode with
  | .discard => pure ()
  | .nopass => tstCondense env (lib.tstCount + 1) ttype tmesg
  | .verbose => tstPrint env env.stack env.tcid (lib.tstCount + 1) ttype tmesg

/-- `tst_res`. -/
def tstRes (ttype : BitVec 32) (fname : Option CString) (mesg : CString) : Run Unit := do
  let result := ttypeResult ttype
  let tmesg ← expandVarArgs mesg
  modify (tstResBegin env result fname)
  if result = twarn ∨ result = tinfo then
    tstPrint env env.stack env.tcid 0 ttype tmesg
  else do
    onlyIf ((← get).tstCount < 0) <|
      tstPrint env env.stack env.tcid 0 twarn "tst_res(): Tst_count < 0 is not valid".toList
    tstResDisplay env ttype tmesg
    modify fun lib => { lib with tstCount := lib.tstCount + 1 }

/-- `tst_resm`. -/
def tstResm (ttype : BitVec 32) (mesg : CString) : Run Unit := do
  tstRes env ttype none (← expandVarArgs mesg)

/-- Whether `tst_brk` supports a result type. -/
def Supported (result : BitVec 32) : Prop :=
  result = tfail ∨ result = tbrok ∨ result = tconf ∨ result = tretr

instance (result : BitVec 32) : Decidable (Supported result) :=
  inferInstanceAs (Decidable (_ ∨ _))

/-- The type that `tst_brk` reports: an unsupported one becomes `TBROK` and keeps its flags. -/
def brkType (ttype : BitVec 32) : BitVec 32 :=
  if Supported (ttypeResult ttype) then ttype else ttype &&& ~~~ttypeResult ttype ||| tbrok

/-- The report of `tst_brk`, behind a warning when the type is not supported. This warning is always
shorter than `Warn_mesg`. -/
def reportBreak (ttype : BitVec 32) (fname : Option CString) (tmesg : CString) : Run Unit := do
  onlyIf (¬Supported (ttypeResult ttype)) <|
    tstPrint env env.stack env.tcid 0 twarn
      ("tst_brk: Invalid Type: " ++ toString (ttypeResult ttype).toInt ++ ". Using TBROK").toList
  tstRes env (brkType ttype) fname tmesg

/-- The report of the remaining cases, by the type that `tst_brk` was called with. -/
def reportRemaining (result ttype : BitVec 32) : Run Unit := do
  onlyIf (result = tconf ∨ result = tretr ∨ result = tbrok) do
    modify (·.log .remaining)
    if result = tconf then
      tstRes env ttype none "Remaining cases not appropriate for configuration".toList
    else if result = tretr then
      tstRes env ttype none "Remaining cases retired".toList
    else
      tstRes env tbrok none "Remaining cases broken".toList

/-- The call of the cleanup function inside `tst_brk`. -/
def runCleanup (func : Run Unit) : Run Unit := do
  modify fun lib => { lib.log .cleanup with tstBrkEntered := lib.tstBrkEntered + 1 }
  func
  modify fun lib => { lib.log .cleanedUp with tstBrkEntered := lib.tstBrkEntered - 1 }

/-- `tst_brk`, called with a cleanup function or with `NULL`. -/
def tstBrk (ttype : BitVec 32) (fname : Option CString) (func : Option (Run Unit))
    (mesg : CString) : Run Unit := do
  let tmesg ← expandVarArgs mesg
  reportBreak env ttype fname tmesg
  onlyIf ((← get).tstBrkEntered = 0) <| reportRemaining env (ttypeResult ttype) (brkType ttype)
  func.elim (pure ()) runCleanup
  onlyIf ((← get).tstBrkEntered = 0) <| tstExit env

/-- `tst_brkm`. -/
def tstBrkm (ttype : BitVec 32) (func : Option (Run Unit)) (mesg : CString) : Run Unit := do
  tstBrk env ttype none func (← expandVarArgs mesg)

end

/-! ### Writing and copying -/

/-- Every byte is read and written, and the file opens and closes. -/
structure Reading.Clean (reading : Reading) : Prop where
  fopen : reading.fopen = true
  chunks : ∀ chunk ∈ reading.chunks, chunk.2 = chunk.1.length
  feof : reading.feof = true
  fclose : reading.fclose = true

/-- No file that is read makes trouble. -/
def Env.Clean (env : Env) : Prop := ∀ lib filename, (env.reading lib filename).Clean

variable {env : Env} {lib : Lib}

@[simp] theorem Lib.record_tMode (result : BitVec 32) : (lib.record result).tMode = lib.tMode :=
  rfl

theorem Lib.write_nil : lib.write [] = lib := by simp [Lib.write]

theorem Lib.write_write (out more : List Output) :
    (lib.write out).write more = lib.write (out ++ more) := by simp [Lib.write]

theorem emit_run (out : Output) (h : lib.tOut ≠ none) :
    (emit out).run lib = .ok () (lib.write [out]) := by
  rw [emit, run_bind_of_ok (EStateM.run_get lib), if_neg h, EStateM.run_set]

theorem emit_run_nullStream (out : Output) (h : lib.tOut = none) :
    (emit out).run lib = .error .nullStream lib := by
  rw [emit, run_bind_of_ok (EStateM.run_get lib), if_pos h, EStateM.run_throw]

/-- What is written when a file is copied whole. -/
def copied (filename : CString) (chunks : List (CString × ℕ)) : List Output :=
  chunks.map fun chunk => .contents filename chunk.1

theorem copyOut_run (print : Printer) (filename : CString) {chunks : List (CString × ℕ)}
    (hchunks : ∀ chunk ∈ chunks, chunk.2 = chunk.1.length) (hout : lib.tOut ≠ none) :
    (copyOut env print filename chunks).run lib = .ok () (lib.write (copied filename chunks)) := by
  induction chunks generalizing lib with
  | nil => simp [copyOut, copied, Lib.write_nil]
  | cons chunk rest ih =>
    obtain ⟨bytes, written⟩ := chunk
    obtain rfl : written = bytes.length := hchunks _ (List.mem_cons_self ..)
    have hrest : ∀ chunk ∈ rest, chunk.2 = chunk.1.length :=
      fun chunk hc => hchunks chunk (List.mem_cons_of_mem _ hc)
    rw [copyOut, run_bind_of_ok (emit_run _ hout), if_neg (by simp), ih hrest (by exact hout),
      Lib.write_write]
    simp [copied]

theorem catFile_run (print : Printer) (filename : CString)
    (hclean : (env.reading lib filename).Clean) (hout : lib.tOut ≠ none) :
    (catFile env print filename).run lib =
      .ok () (lib.write (copied filename (env.reading lib filename).chunks)) := by
  have hopen : ¬¬(env.reading lib filename).fopen = true := not_not_intro hclean.fopen
  rw [catFile, run_bind_of_ok (EStateM.run_get lib)]
  dsimp only
  rw [if_neg hopen, run_bind_of_ok (copyOut_run _ _ hclean.chunks hout)]
  simp [hclean.feof, hclean.fclose]

/-! ### Printing -/

/-- What the file of a result adds to the output. -/
def fileContents (env : Env) (lib : Lib) : List Output :=
  lib.file.elim [] fun filename => copied filename (env.reading lib filename).chunks

/-- The globals after `tst_print`, when no file goes wrong. -/
def printed (env : Env) (tcid : CString) (tnum : ℤ) (ttype : BitVec 32) (tmesg : CString)
    (lib : Lib) : Lib :=
  if Filtered lib.tMode (ttypeResult ttype) then lib.record (ttypeResult ttype)
  else
    let lib := (lib.record (ttypeResult ttype)).write
      [.line (lineOf lib.tMode tcid tnum ttype tmesg)]
    (lib.write (fileContents env lib)).setFile none

/-- Without a file only the line is printed. -/
theorem printed_of_file_none (tcid : CString) (tnum : ℤ) (ttype : BitVec 32) (tmesg : CString)
    (hfile : lib.file = none) : printed env tcid tnum ttype tmesg lib =
      (lib.record (ttypeResult ttype)).write
        (if Filtered lib.tMode (ttypeResult ttype) then []
        else [.line (lineOf lib.tMode tcid tnum ttype tmesg)]) := by
  rw [printed]
  split_ifs
  · rw [Lib.write_nil]
  · simp [fileContents, Lib.write, Lib.record, Lib.setFile, hfile]

/-- The files that are read make no trouble: there is none, or all of them are clean. -/
def Untroubled (env : Env) (fname : Option CString) : Prop := fname = none ∨ env.Clean

theorem fileContents_run (nested : Printer) (lib : Lib) (hfile : Untroubled env lib.file)
    (hout : lib.tOut ≠ none) :
    (lib.file.elim (pure ()) (catFile env nested)).run lib =
      .ok () (lib.write (fileContents env lib)) := by
  rw [fileContents]
  cases hname : lib.file with
  | none => simp [Lib.write_nil]
  | some filename =>
    have hclean : env.Clean := hfile.resolve_left (by simp [hname])
    exact catFile_run nested filename (hclean lib filename) hout

theorem printLine_run (nested : Printer) (tcid : CString) (tnum : ℤ) (ttype : BitVec 32)
    (tmesg : CString) (hfile : Untroubled env lib.file)
    (hout : lib.tOut ≠ none ∨ Filtered lib.tMode (ttypeResult ttype)) :
    (printLine env nested tcid tnum ttype tmesg).run lib =
      .ok () (printed env tcid tnum ttype tmesg lib) := by
  rw [printLine, run_bind_of_ok (EStateM.run_modify _ lib), run_bind_of_ok (EStateM.run_get _),
    Lib.record_tMode]
  by_cases hf : Filtered lib.tMode (ttypeResult ttype)
  · rw [printed, if_pos hf, onlyIf_of_neg (not_not_intro hf), EStateM.run_pure]
  · have hout : (lib.record (ttypeResult ttype)).tOut ≠ none := hout.resolve_right hf
    rw [printed, if_neg hf, onlyIf_of_pos hf, showLine, run_bind_of_ok (EStateM.run_get _),
      run_bind_of_ok (emit_run _ hout)]
    exact run_bind_of_ok (fileContents_run nested
      ((lib.record (ttypeResult ttype)).write _) hfile hout)

theorem printLine_run_nullStream (nested : Printer) (tcid : CString) (tnum : ℤ)
    (ttype : BitVec 32) (tmesg : CString) (hout : lib.tOut = none)
    (hf : ¬Filtered lib.tMode (ttypeResult ttype)) :
    (printLine env nested tcid tnum ttype tmesg).run lib =
      .error .nullStream (lib.record (ttypeResult ttype)) := by
  rw [printLine, run_bind_of_ok (EStateM.run_modify _ lib), run_bind_of_ok (EStateM.run_get _),
    Lib.record_tMode, onlyIf_of_pos hf, showLine, run_bind_of_ok (EStateM.run_get _)]
  exact run_bind_of_error (emit_run_nullStream _ hout)

/-- **Printing.** When no file goes wrong the stack has room for the call. -/
theorem tstPrint_run (depth : ℕ) (tcid : CString) (tnum : ℤ) (ttype : BitVec 32)
    (tmesg : CString) (hfile : Untroubled env lib.file)
    (hout : lib.tOut ≠ none ∨ Filtered lib.tMode (ttypeResult ttype)) :
    (tstPrint env depth tcid tnum ttype tmesg).run lib =
      .ok () (printed env tcid tnum ttype tmesg lib) := by
  cases depth with
  | zero => exact printLine_run _ tcid tnum ttype tmesg hfile hout
  | succ depth => exact printLine_run _ tcid tnum ttype tmesg hfile hout

theorem tstPrint_run_nullStream (depth : ℕ) (tcid : CString) (tnum : ℤ) (ttype : BitVec 32)
    (tmesg : CString) (hout : lib.tOut = none) (hf : ¬Filtered lib.tMode (ttypeResult ttype)) :
    (tstPrint env depth tcid tnum ttype tmesg).run lib =
      .error .nullStream (lib.record (ttypeResult ttype)) := by
  cases depth with
  | zero => exact printLine_run_nullStream _ tcid tnum ttype tmesg hout hf
  | succ depth => exact printLine_run_nullStream _ tcid tnum ttype tmesg hout hf

end SnowballLtp.TstRes
