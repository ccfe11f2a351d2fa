import SnowballLtp.Ltp.Invocation
import SnowballLtp.Ltp.TstCount
import SnowballLtp.Sensors.Stdio

/-!
# The test programs of the sensors

The four programs have one `main`. It parses the standard options and enters the loop of
`TEST_LOOPING`, which ends in its first pass with `tst_exit`. Unless `-f` is given, the pass goes
through the test cases, of which there is one: it calls routine after routine by `TEST` and reports
each with `tst_resm`, so that `Tst_count` counts the reports.

## Main definitions

* `Host`, `Main`: the session with the files and the globals of the library.
* `Check`, `Check.perform`: a routine with the branches behind it.
* `TestProgram`, `TestProgram.main`.
* `TestProgram.returned`: what the routines return.

## Main results

* `TestProgram.main_endsAs`: what a program reports, and its exit status.
-/

namespace SnowballLtp.Sensors

open SnowballLtp.ParseOpts (Invocation)
open SnowballLtp.TstRes (CString tpass tfail tbrok typeOf)

/-! ### The state of a program -/

/-- How a program ends. -/
inductive Stop
  /-- In the library of `tst_res`. -/
  | lib (stop : TstRes.Stop)
  /-- In `parse_opts`, other than by a message. -/
  | options (stop : ParseOpts.Stop)
  /-- Behind the loop of `main`, where it has no `return`. -/
  | fellOff
  /-- The loop over the test cases has made more passes than it was given. -/
  | endless
  deriving DecidableEq, Repr

structure Host where
  session : Session
  lib : TstRes.Lib
  deriving DecidableEq, Repr

def Host.initial : Host := ⟨.initial, .initial none⟩

abbrev Main := EStateM Stop Host

/-- A call into the library. -/
def inLib {α : Type} (m : TstRes.Run α) : Main α :=
  onPart Host.lib (fun host lib => { host with lib }) .lib m

/-- What a routine returns, at its end or before, and the session behind it. -/
def callOf {α : Type} (ofReturn : ℤ → α) (routine : Run α) (s : Session) : α × Session :=
  match routine.run s with
  | .ok a s' => (a, s')
  | .error v s' => (ofReturn v, s')

/-- `TEST`: the value is `TEST_RETURN`. -/
def test {α : Type} (ofReturn : ℤ → α) (routine : Run α) : Main α := fun host =>
  .ok (callOf ofReturn routine host.session).1
    { host with session := (callOf ofReturn routine host.session).2 }

/-! ### Checks -/

/-- A routine with the three branches behind its `TEST`, and the texts of the second and the third
one behind the number of the test. -/
structure Check where
  routine : Run ℤ
  /-- The condition of the `else if`. -/
  expected : ℤ → Bool
  failed : String
  otherwise : String

/-- A message about the test with the number `Tst_count`. -/
def functionalTest (rest : String) (count : ℤ) : CString :=
  "Functional test ".toList ++ decimal count ++ rest.toList

/-- The type and the message that are reported for a value. -/
def Check.verdict (check : Check) (count ret : ℤ) : BitVec 32 × CString :=
  if ret = 0 then (tpass, functionalTest " OK\n" count)
  else if check.expected ret then (tfail, functionalTest check.failed count)
  else (tfail, functionalTest check.otherwise count)

variable (env : TstRes.Env)

def Check.perform (check : Check) : Main Unit := do
  let ret ← test id check.routine
  let (ttype, mesg) := check.verdict (← get).lib.tstCount ret
  inLib (TstRes.tstResm env ttype mesg)

def performAll : List Check → Main Unit
  | [] => pure ()
  | check :: rest => do
    check.perform env
    performAll rest

/-! ### Programs -/

/-- `TST_TOTAL`. -/
def tstTotal : ℤ := 1

/-- What differs from program to program. -/
structure TestProgram where
  Globals : Type
  /-- What the test case does before its first report. -/
  prepare : Run Globals
  ofReturn : ℤ → Globals
  checks : Globals → List Check

namespace TestProgram

variable (program : TestProgram)

/-- The test case. -/
def case0 : Main Unit := do
  let globals ← test program.ofReturn program.prepare
  performAll env (program.checks globals)

/-- The loop over the test cases with its `switch`. -/
def testCases : (passes : ℕ) → Main Unit
  | 0 => throw .endless
  | passes + 1 => do
    if (← get).lib.tstCount < tstTotal then do
      onlyIf ((← get).lib.tstCount = 0) (program.case0 env)
      testCases passes
    else pure ()

/-- `main`. The first call of `usc_test_looping` does not wait. -/
def main {F : Type} (call : Invocation F) (passes : ℕ) : Main Unit :=
  match call.parsed none with
  | .error (.message m) => do
    inLib (TstRes.tstBrkm env tbrok none ("OPTION PARSING ERROR - ".toList ++ m.text.toList))
    inLib (TstRes.tstExit env)
  | .error stop => throw (.options stop)
  | .ok state =>
    match ParseOpts.uscTestLooping call.floats state.std call.clock 0 0 .initial with
    | some (ret, _) =>
      if ret = 0 then throw .fellOff
      else do
        onlyIf (state.std.functionalTest ≠ 0) do
          modify fun host => { host with lib := { host.lib with tstCount := 0 } }
          program.testCases env passes
        inLib (TstRes.tstExit env)
    | none => throw .endless

end TestProgram

/-! ### What the routines return -/

/-- What the routines of the checks return, one after the other, and the session behind them. -/
def valuesOf : List Check → Session → List ℤ × Session
  | [], s => ([], s)
  | check :: rest, s =>
    let (ret, s) := callOf id check.routine s
    let (rets, s) := valuesOf rest s
    (ret :: rets, s)

/-- The globals behind the preparation, and the session. -/
def TestProgram.prepared (program : TestProgram) : program.Globals × Session :=
  callOf program.ofReturn program.prepare .initial

/-- What the routines of the program return. -/
def TestProgram.returned (program : TestProgram) : List ℤ × Session :=
  valuesOf (program.checks program.prepared.1) program.prepared.2

variable {env} {host : Host}

theorem fst_verdict (check : Check) (count ret : ℤ) :
    (check.verdict count ret).1 = typeOf ret := by
  rw [Check.verdict, typeOf]
  split_ifs <;> rfl

theorem functionalTest_ne_nil (rest : String) (count : ℤ) : functionalTest rest count ≠ [] := by
  intro h
  have hnil := (List.append_eq_nil_iff.mp (List.append_eq_nil_iff.mp h).1).1
  exact absurd hnil (by decide)

theorem snd_verdict_ne_nil (check : Check) (count ret : ℤ) : (check.verdict count ret).2 ≠ [] := by
  unfold Check.verdict
  by_cases hzero : ret = 0
  · rw [if_pos hzero]
    exact functionalTest_ne_nil _ _
  · rw [if_neg hzero]
    split_ifs <;> exact functionalTest_ne_nil _ _

/-- A call into the library. -/
theorem outcome_inLib {α : Type} {m : TstRes.Run α} {returns : α → TstRes.Lib → Prop}
    {stops : TstRes.Stop → TstRes.Lib → Prop} (h : Outcome m host.lib returns stops) :
    Outcome (inLib m) host (fun a host' => host'.session = host.session ∧ returns a host'.lib)
      fun stop host' => host'.session = host.session ∧
        ∃ e, stop = .lib e ∧ stops e host'.lib :=
  h.onPart.mono (fun _ _ ⟨_, heq, h⟩ => heq ▸ ⟨rfl, h⟩)
    fun _ _ ⟨e, _, hstop, heq, h⟩ => heq ▸ ⟨rfl, e, hstop, h⟩

/-- From one state to a later one the values are reported. -/
structure Reports (env : TstRes.Env) (rets : List ℤ) (s : Session) (host host' : Host) : Prop where
  session : host'.session = s
  reported : TstRes.Verdicts env rets host.lib host'.lib
  tstCount : host'.lib.tstCount = host.lib.tstCount + rets.length

theorem perform_outcome (check : Check) (hfile : TstRes.Untroubled env host.lib.file) :
    Outcome (check.perform env) host
      (fun _ host' => Reports env [(callOf id check.routine host.session).1]
        (callOf id check.routine host.session).2 host host')
      fun _ _ => False := by
  refine Outcome.bind_of_ok rfl (Outcome.bind_of_ok (EStateM.run_get _) ?_)
  generalize callOf id check.routine host.session = result
  obtain ⟨ret, s⟩ := result
  dsimp only
  have hmesg := snd_verdict_ne_nil check host.lib.tstCount ret
  have htype := fst_verdict check host.lib.tstCount ret
  generalize check.verdict host.lib.tstCount ret = verdict at hmesg htype
  obtain ⟨ttype, mesg⟩ := verdict
  obtain rfl : ttype = typeOf ret := htype
  exact (@outcome_inLib ⟨s, host.lib⟩ _ _ _ _ (TstRes.tstResm_typeOf hmesg ret hfile)).mono
    (fun _ _ ⟨hsession, hreported, hcount⟩ => ⟨hsession, hreported, hcount⟩)
    fun _ _ ⟨_, _, _, h⟩ => h

theorem performAll_outcome (checks : List Check) (hfile : TstRes.Untroubled env host.lib.file) :
    Outcome (performAll env checks) host
      (fun _ host' => Reports env (valuesOf checks host.session).1
        (valuesOf checks host.session).2 host host')
      fun _ _ => False := by
  induction checks generalizing host with
  | nil =>
    exact Outcome.of_ok (EStateM.run_pure _ _)
      ⟨rfl, TstRes.Verdicts.refl env host.lib, (Int.add_zero _).symm⟩
  | cons check rest ih =>
    refine Outcome.bind (perform_outcome check hfile) fun _ host₁ h₁ => ?_
    refine (ih (h₁.reported.advance.file hfile)).mono (fun _ host₂ h₂ => ?_) fun _ _ => id
    rw [h₁.session] at h₂
    refine ⟨h₂.session, h₁.reported.trans h₂.reported, ?_⟩
    rw [h₂.tstCount, h₁.tstCount]
    simp only [valuesOf, List.length_cons, List.length_nil]
    omega

/-! ### The end of a program -/

/-- How a program ends: the stop, the session with the files, and the trace of the library. -/
structure Ending where
  stop : Stop
  session : Session
  trace : List TstRes.Event

/-- An exit by `tst_exit` behind some reports. -/
def Ending.exit (status : BitVec 32) (session : Session) (reports : List TstRes.Event) : Ending :=
  ⟨.lib (.exit status), session, reports ++ [.exit 0]⟩

/-- The ending of a pass over the test cases: `TFAIL` if a routine has not returned 0. -/
def TestProgram.passEnding (program : TestProgram) : Ending :=
  .exit (if ∀ ret ∈ program.returned.1, ret = 0 then 0 else tfail) program.returned.2
    (program.returned.1.map fun ret => .report (typeOf ret))

/-- The ending of a program. -/
def TestProgram.ending {F : Type} (program : TestProgram) (call : Invocation F) : Ending :=
  match call.parsed none with
  | .error (.message _) => .exit tbrok .initial [.report tbrok, .remaining, .report tbrok]
  | .error stop => ⟨.options stop, .initial, []⟩
  | .ok state =>
    match ParseOpts.uscTestLooping call.floats state.std call.clock 0 0 .initial with
    | some (ret, _) =>
      if ret = 0 then ⟨.fellOff, .initial, []⟩
      else if state.std.functionalTest = 0 then .exit 0 .initial []
      else program.passEnding
    | none => ⟨.endless, .initial, []⟩

/-- A computation ends so. -/
def EndsAs (m : Main Unit) (host : Host) (ending : Ending) : Prop :=
  Outcome m host (fun _ _ => False) fun stop host' =>
    stop = ending.stop ∧ host'.session = ending.session ∧ host'.lib.trace = ending.trace

theorem length_valuesOf (checks : List Check) (s : Session) :
    (valuesOf checks s).1.length = checks.length := by
  induction checks generalizing s with
  | nil => rfl
  | cons check rest ih => exact congrArg Nat.succ (ih _)

variable {program : TestProgram} {passes : ℕ}

/-- `tst_exit` behind reports that were made from the start. -/
theorem endsAs_tstExit {rets : List ℤ} {s : Session}
    (h : Reports env rets s .initial host)
    (hout : host.lib.tOut ≠ none ∨ host.lib.buffered = false) :
    EndsAs (inLib (TstRes.tstExit env)) host (.exit (if ∀ ret ∈ rets, ret = 0 then 0 else tfail) s
      (rets.map fun ret => .report (typeOf ret))) :=
  (outcome_inLib (h.reported.exit hout)).mono (fun _ _ h => h.2)
    fun _ _ ⟨hsession, _, hstop, hexit, htrace⟩ =>
      ⟨hstop.trans (congrArg Stop.lib hexit), hsession.trans h.session, htrace⟩

/-- The loop over the test cases makes one pass with the test case, and stops before a second
one. -/
theorem testCases_outcome (hchecks : program.checks program.prepared.1 ≠ [])
    (hpasses : 2 ≤ passes) :
    Outcome (program.testCases env passes) .initial
      (fun _ host => Reports env program.returned.1 program.returned.2 .initial host)
      fun _ _ => False := by
  obtain ⟨passes, rfl⟩ := Nat.exists_eq_add_of_le' hpasses
  have hcase : Outcome (program.case0 env) .initial
      (fun _ host => Reports env program.returned.1 program.returned.2 .initial host)
      fun _ _ => False :=
    Outcome.bind_of_ok rfl ((@performAll_outcome env ⟨program.prepared.2, .initial none⟩ _
      (.inl rfl)).imp fun _ _ h => ⟨h.session, h.reported, h.tstCount⟩)
  refine Outcome.bind_of_ok (EStateM.run_get _) ?_
  rw [if_pos (show Host.initial.lib.tstCount < tstTotal by decide)]
  refine Outcome.bind_of_ok (EStateM.run_get _) ?_
  rw [onlyIf_of_pos (show Host.initial.lib.tstCount = 0 from rfl)]
  refine Outcome.bind hcase fun _ host h => Outcome.bind_of_ok (EStateM.run_get _) ?_
  have hcount : ¬host.lib.tstCount < tstTotal := by
    have hpos := List.length_pos_iff.mpr hchecks
    rw [h.tstCount, tstTotal, TestProgram.returned, length_valuesOf]
    change ¬0 + _ < _
    omega
  rw [if_neg hcount]
  exact Outcome.of_ok (EStateM.run_pure _ _) h

/-- `tst_brkm` with the message of `parse_opts`. -/
theorem endsAs_tstBrkm (m : ParseOpts.Message) :
    EndsAs (inLib (TstRes.tstBrkm env tbrok none
        ("OPTION PARSING ERROR - ".toList ++ m.text.toList)) >>= fun _ =>
      inLib (TstRes.tstExit env)) .initial
      (.exit tbrok .initial [.report tbrok, .remaining, .report tbrok]) := by
  have hmesg : "OPTION PARSING ERROR - ".toList ++ m.text.toList ≠ [] := fun h =>
    absurd (List.append_eq_nil_iff.mp h).1 (by decide)
  have hbrk := Outcome.of_run_eq (TstRes.tstBrkm_run tbrok none _ _) (TstRes.tstBrk_outermost tbrok
    ("OPTION PARSING ERROR - ".toList ++ m.text.toList) (TstRes.cleansUp_none env True) (.inl rfl)
    (show TstRes.Untroubled env Host.initial.lib.file from .inl rfl) rfl)
  refine Outcome.bind ((outcome_inLib hbrk).mono (fun _ _ h => h.2)
    fun stop host ⟨hsession, e, hstop, h⟩ => ?_) fun _ _ => False.elim
  obtain ⟨rfl, hadvance⟩ | ⟨-, hunsound⟩ := h
  · refine ⟨?_, hsession, hadvance.trace⟩
    obtain ⟨extra, hexitval, hextra⟩ := hadvance.exitval
    rw [hstop, hexitval, hextra (TstRes.regular_initial none)]
    rfl
  · exact absurd ⟨hmesg, .inr (.inr (.inl rfl)), trivial⟩ hunsound

/-- **The end of a program**, by the options and by what its routines return. -/
theorem TestProgram.main_endsAs {F : Type} (call : Invocation F)
    (hchecks : program.checks program.prepared.1 ≠ []) (hpasses : 2 ≤ passes) :
    EndsAs (program.main env call passes) .initial (program.ending call) := by
  unfold TestProgram.main TestProgram.ending
  cases call.parsed none with
  | error stop =>
    cases stop with
    | message m => exact endsAs_tstBrkm m
    | _ => exact Outcome.of_error rfl ⟨rfl, rfl, rfl⟩
  | ok state =>
    dsimp only
    cases ParseOpts.uscTestLooping call.floats state.std call.clock 0 0 .initial with
    | none => exact Outcome.of_error rfl ⟨rfl, rfl, rfl⟩
    | some looping =>
      obtain ⟨ret, statics⟩ := looping
      dsimp only
      by_cases hret : ret = 0
      · rw [if_pos hret, if_pos hret]
        exact Outcome.of_error rfl ⟨rfl, rfl, rfl⟩
      · rw [if_neg hret, if_neg hret]
        by_cases hfunctional : state.std.functionalTest = 0
        · rw [if_pos hfunctional, onlyIf_of_neg (not_not_intro hfunctional), pure_bind]
          exact endsAs_tstExit ⟨rfl, TstRes.Verdicts.refl env _, rfl⟩ (.inr rfl)
        · rw [if_neg hfunctional, onlyIf_of_pos hfunctional]
          refine Outcome.bind ((Outcome.bind_of_ok (EStateM.run_modify _ _)
            (testCases_outcome hchecks hpasses)).mono (fun _ _ => id)
              fun _ _ => False.elim) fun _ host h => endsAs_tstExit h (.inl (h.reported.tOut ?_))
          exact List.length_pos_iff.mp
            (length_valuesOf _ program.prepared.2 ▸ List.length_pos_iff.mpr hchecks)

end SnowballLtp.Sensors
