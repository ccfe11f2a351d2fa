import SnowballLtp.Dma.TestResources
import SnowballLtp.Ltp.Invocation
import SnowballLtp.Ltp.TstCount

/-!
# The verdict of the program `dma`

The program `dma` runs a test case of the module by reading its debugfs file, and takes it as passed
when the file holds the line `Finished test N: OK` and nothing else. What the test case prints in
front of this line, or what the module puts at its head, therefore fails a test whose result is 0.
With `-n` the program reads one file in every pass of `TEST_LOOPING`, reports what `dma_test`
returns, and ends with `tst_exit`.

## Main definitions

* `fileText`: what the module puts into a file.
* `dmaTest`, `passes`, `main`: the program.
* `Plain`: the tests whose files hold nothing but the line.

## Main results

* `dmaTest_fileText`: what `dma_test` makes of a file.
* `main_exit_iff`: the exit status, by the results of the test cases.
-/

namespace SnowballLtp.Dma.UserVerdict

open SnowballLtp.ParseOpts
open SnowballLtp.StateT (bind_inv pure_inv)
open SnowballLtp.TstRes (CString tpass tfail tbrok typeOf Verdicts)
open TestResources (Answers TestCase TestModule TestRead d40TestRun)

/-! ### The files of the module -/

/-- The text of `tc_nop`. -/
def tcNopText (testId : ℕ) : String := "TEST_" ++ toString testId ++ " is removed\n"

/-- The text of `dd_setup`. -/
def ddSetupText (func : String) (isSgChain : ℕ) (cmd : String) : String :=
  "# [" ++ func ++ "()] sg_elem_size 1024, sg_chain " ++ toString isSgChain ++ ", run:\n" ++ cmd ++
    "; sync\n"

/-- The scripts of the tests 10 to 13. -/
def testScript : ℕ → String
  | 10 => ddSetupText "tc_10_sg_size_1024_one" 0 "dd if=/dev/zero of=/out_zero bs=4096 count=1"
  | 11 => ddSetupText "tc_11_sg_size_chain_one" 1 "dd if=/dev/zero of=/out_zero bs=4096 count=1"
  | 12 => ddSetupText "tc_12_sg_size_1024_many" 0 "dd if=/dev/zero of=/out_zero bs=4096 count=256"
  | 13 =>
    ddSetupText "tc_13_sg_size_1024_chain_many" 1 "dd if=/dev/zero of=/out_zero bs=4096 count=256"
  | _ => ""

variable (cfg : KernelConfig)

/-- What a test case prints. -/
def testText (a : Answers) (testId : ℕ) : String :=
  if 10 ≤ testId ∧ testId ≤ 13 then
    if cfg.mmc && cfg.steDma40Debug then if a.mmcSgsize ≠ 0 then "" else testScript testId
    else tcNopText testId
  else if testId = 14 then if cfg.mmc && cfg.steDma40Debug then "" else tcNopText testId
  else if 36 ≤ testId ∧ testId ≤ 49 then if cfg.steDma40Debug then "" else tcNopText testId
  else ""

/-- A read of a file: the text. -/
def fileText (r : TestRead) : TestCase String := do
  let line ← d40TestRun cfg r
  pure ((if r.interrupted then "" else testText cfg r.answers r.testId) ++ line)

/-- The test case is compiled in, and prints nothing. -/
def Plain (testId : ℕ) : Prop :=
  ¬(10 ≤ testId ∧ testId ≤ 13) ∧ (testId = 14 → (cfg.mmc && cfg.steDma40Debug) = true) ∧
    (36 ≤ testId ∧ testId ≤ 49 → cfg.steDma40Debug = true)

/-- The test case returns 0. -/
def Succeeds (r : TestRead) (s : TestModule) : Prop :=
  ∃ s', r.err cfg { s with nWq := 0, nChan := 0, nCmp := 0 } = some (0, s')

/-! ### The program -/

/-- What `open` and `read` get of a file. -/
inductive FileRead where
  | notOpened
  | notRead
  | text (t : List Char)

/-- The answer that passes. -/
def answer (id : ℤ) : CString := "Finished test ".toList ++ decimal id ++ ": OK\n".toList

/-- `dma_test`. -/
def dmaTest (id : ℤ) : FileRead → ℤ
  | .notOpened => -1
  | .notRead => -2
  | .text t =>
    let buff := t.take 255
    if buff = [] then -2
    else if buff.length ≠ (answer id).length then -3
    else if buff ≠ answer id then -4
    else 0

/-- What a report of a failure tells: the place in the source, `TEST_ERRNO` in each pass and its
text. -/
structure Site where
  file : CString
  line : ℤ
  testErrno : ℕ → ℤ
  strerror : ℤ → CString

/-- The message of a report. -/
def message (site : Site) (num : ℤ) (n : ℕ) (ret : ℤ) : CString :=
  if ret = 0 then "Functional test ".toList ++ decimal num ++ " OK\n".toList
  else "Return value: ".toList ++ decimal ret ++ ". TCID: dma (".toList ++ decimal num ++
    ") File: ".toList ++ site.file ++ " Line: ".toList ++ decimal site.line ++ ". errno=".toList ++
    decimal (site.testErrno n) ++ " : ".toList ++ site.strerror (site.testErrno n) ++ " \n".toList

/-- How the program ends. -/
inductive Stop where
  /-- In the library of `tst_res`. -/
  | lib (stop : TstRes.Stop)
  /-- In `parse_opts`, other than by a message. -/
  | options (stop : ParseOpts.Stop)
  /-- In front of the tests of the table: the number is not given. -/
  | table
  /-- The loop has made more passes than it was given, or a delay does not end. -/
  | endless

abbrev Main := EStateM Stop TstRes.Lib

/-- A call into the library. -/
def inLib {α : Type} (m : TstRes.Run α) : Main α := onPart id (fun _ lib => lib) .lib m

/-- The options of the program. -/
def options : List UserOption := [⟨['n', ':'], some 0, some 0, by decide⟩]

section Program

variable (env : TstRes.Env) (site : Site) (reads : ℕ → FileRead)

/-- The test of a pass, with its report. -/
def testAndReport (num : ℤ) (n : ℕ) : TstRes.Run Unit := do
  modify fun lib => { lib with tstCount := num - 1 }
  let ret := dmaTest num (reads n)
  TstRes.tstResm env (if ret = 0 then tpass else tfail) (message site num n ret)

variable {F : Type} (call : Invocation F)

/-- The loop of `main` with a number that is given. -/
def passes (std : Std F) (num : ℤ) : (fuel : ℕ) → LoopState → Main Unit
  | 0, _ => throw .endless
  | fuel + 1, s =>
    match testPass call.floats std call.clock 0 s with
    | .inl s' => do
      inLib (onlyIf (std.functionalTest ≠ 0) (testAndReport env site reads num s.runs))
      passes std num fuel s'
    | .inr (some _) => pure ()
    | .inr none => throw .endless

/-- `main`, as far as it runs one test. -/
def main (fuel : ℕ) : Main Unit :=
  match call.parsed (some options) with
  | .error (.message m) => do
    inLib (TstRes.tstBrkm env tbrok none ("OPTION PARSING ERROR - ".toList ++ m.text.toList))
    inLib (TstRes.tstExit env)
  | .error stop => throw (.options stop)
  | .ok state =>
    if state.flags 0 = 0 then throw .table
    else do
      passes env site reads call state.std (atoi ((state.args 0).getD [])) fuel
        { lc := 0, statics := .initial, runs := 0 }
      inLib (TstRes.tstExit env)

end Program

/-! ### What `dma_test` makes of a file -/

variable {cfg} {r : TestRead} {s s' : TestModule} {text : String} {id : ℤ}

theorem length_answer (id : ℤ) : (answer id).length = (decimal id).length + 19 := by
  unfold answer
  rw [List.length_append, List.length_append]
  simp
  omega

theorem dmaTest_answer (h : (decimal id).length < 230) : dmaTest id (.text (answer id)) = 0 := by
  have hlen := length_answer id
  have htake : (answer id).take 255 = answer id := List.take_of_length_le (by omega)
  have hne : answer id ≠ [] := by
    rw [← List.length_pos_iff]
    omega
  rw [dmaTest, htake, if_neg hne, if_neg (Ne.irrefl · |>.elim), if_neg (fun h => h rfl)]

/-- A longer text is refused by its length. -/
theorem dmaTest_of_lt {t : List Char} (h : (decimal id).length < 230)
    (ht : (answer id).length < t.length) : dmaTest id (.text t) = -3 := by
  have hanswer := length_answer id
  have hlen : (t.take 255).length ≠ (answer id).length := by
    rw [List.length_take]
    omega
  have hne : t.take 255 ≠ [] := by
    rw [← List.length_pos_iff, List.length_take]
    omega
  rw [dmaTest, if_neg hne, if_pos hlen]

theorem toList_toString (n : ℕ) : (toString n).toList = decimal n := by
  change (Nat.repr n).toList = Nat.toDigits 10 n
  rw [Nat.repr, String.toList_ofList]

theorem toList_d40TestLine (testId : ℕ) (err : ℤ) : (d40TestLine cfg testId err).toList =
    (d40TestStr cfg testId).toList ++ ("Finished test ".toList ++ (decimal testId ++
      (": ".toList ++ ((if err = 0 then "OK" else "***FAIL***").toList ++ "\n".toList)))) := by
  rw [d40TestLine]
  simp only [String.toList_append, toList_toString, List.append_assoc]

theorem toList_d40TestLine_zero (testId : ℕ) : (d40TestLine cfg testId 0).toList =
    (d40TestStr cfg testId).toList ++ answer testId := by
  rw [toList_d40TestLine, if_pos rfl]
  unfold answer
  simp

theorem length_lt_of_err_ne_zero {testId : ℕ} {err : ℤ} (herr : err ≠ 0) :
    (answer testId).length < (d40TestLine cfg testId err).toList.length := by
  rw [toList_d40TestLine, if_neg herr, length_answer]
  simp only [List.length_append]
  simp
  omega

theorem d40TestStr_of_plain {testId : ℕ} (h : Plain cfg testId) : d40TestStr cfg testId = "" := by
  rw [d40TestStr]
  simp [h.1]

theorem testText_of_plain {a : Answers} {testId : ℕ} (h : Plain cfg testId) :
    testText cfg a testId = "" := by
  obtain ⟨hscript, hendless, hreg⟩ := h
  rw [testText, if_neg hscript]
  by_cases hfour : testId = 14
  · rw [if_pos hfour, if_pos (hendless hfour)]
  · rw [if_neg hfour]
    by_cases hrange : 36 ≤ testId ∧ testId ≤ 49
    · rw [if_pos hrange, if_pos (hreg hrange)]
    · rw [if_neg hrange]

theorem length_tcNopText_pos (testId : ℕ) : 0 < (tcNopText testId).toList.length := by
  rw [tcNopText]
  simp [String.toList_append]

/-- Something stands in front of the answer of a test that is not plain. -/
theorem length_pos_of_not_plain {a : Answers} {testId : ℕ} (h : ¬Plain cfg testId) :
    0 < (testText cfg a testId).toList.length + (d40TestStr cfg testId).toList.length := by
  have hnop := length_tcNopText_pos testId
  rw [testText, d40TestStr]
  by_cases hscript : 10 ≤ testId ∧ testId ≤ 13
  · rw [if_pos hscript]
    by_cases hcfg : (cfg.mmc && cfg.steDma40Debug) = true
    · simp [hcfg, hscript]
    · rw [if_neg hcfg]
      omega
  · rw [if_neg hscript]
    by_cases hfour : testId = 14
    · rw [if_pos hfour]
      by_cases hcfg : (cfg.mmc && cfg.steDma40Debug) = true
      · exact absurd ⟨hscript, fun _ => hcfg, fun h => by omega⟩ h
      · rw [if_neg hcfg]
        omega
    · rw [if_neg hfour]
      by_cases hrange : 36 ≤ testId ∧ testId ≤ 49
      · rw [if_pos hrange]
        by_cases hcfg : cfg.steDma40Debug = true
        · exact absurd ⟨hscript, fun h => absurd h hfour, fun _ => hcfg⟩ h
        · rw [if_neg hcfg]
          omega
      · exact absurd ⟨hscript, fun h => absurd h hfour, fun h => absurd h hrange⟩ h

theorem length_decimal_lt {testId : ℕ} (h : testId ≤ 69) :
    (decimal (testId : ℤ)).length < 230 := by
  have hle := @length_decimal_le (testId : ℤ) ⟨by omega, by omega⟩
  omega

/-- The result and the text of a read. -/
theorem fileText_inv (h : fileText cfg r s = some (text, s')) : ∃ err,
    r.err cfg { s with nWq := 0, nChan := 0, nCmp := 0 } = some (err, s') ∧
      text.toList = (if r.interrupted then "" else testText cfg r.answers r.testId).toList ++
        (d40TestLine cfg r.testId err).toList := by
  obtain ⟨line, s₁, hline, h⟩ := bind_inv h
  obtain ⟨-, rfl⟩ := pure_inv h
  obtain ⟨_, s₂, hmodify, hline⟩ := bind_inv hline
  obtain ⟨err, s₃, herr, hline⟩ := bind_inv hline
  obtain ⟨rfl, rfl⟩ := pure_inv hline
  obtain ⟨-, rfl⟩ := Prod.mk.inj (Option.some.inj hmodify)
  refine ⟨err, herr, ?_⟩
  rw [← String.toList_append]
  exact congrArg String.toList (pure_inv h).1

/-- **A file of the module.** `dma_test` returns 0 if and only if the test case returns 0 and the
file holds nothing but the line, and -3 otherwise. -/
theorem dmaTest_fileText (hid : r.testId ≤ 69) (h : fileText cfg r s = some (text, s')) :
    dmaTest r.testId (.text text.toList) = 0 ∧ Succeeds cfg r s ∧ Plain cfg r.testId ∨
      dmaTest r.testId (.text text.toList) = -3 ∧ ¬(Succeeds cfg r s ∧ Plain cfg r.testId) := by
  obtain ⟨err, herr, htext⟩ := fileText_inv h
  have hdecimal := length_decimal_lt hid
  by_cases hzero : err = 0
  · subst hzero
    have hinterrupted : r.interrupted = false := by
      by_contra hne
      rw [TestRead.err, if_pos (Bool.not_eq_false _ ▸ hne)] at herr
      exact absurd (Prod.mk.inj (Option.some.inj herr)).1 (by decide)
    rw [hinterrupted, if_neg Bool.false_ne_true, toList_d40TestLine_zero] at htext
    rw [htext]
    by_cases hplain : Plain cfg r.testId
    · rw [testText_of_plain hplain, d40TestStr_of_plain hplain]
      exact .inl ⟨dmaTest_answer hdecimal, ⟨_, herr⟩, hplain⟩
    · refine .inr ⟨dmaTest_of_lt hdecimal ?_, fun h => hplain h.2⟩
      have hpos := @length_pos_of_not_plain cfg r.answers _ hplain
      simp only [List.length_append]
      omega
  · have hlt := @length_lt_of_err_ne_zero cfg r.testId err hzero
    refine .inr ⟨dmaTest_of_lt hdecimal ?_, fun ⟨⟨s₂, hs₂⟩, _⟩ => ?_⟩
    · rw [htext, List.length_append]
      omega
    · rw [herr] at hs₂
      exact hzero (Prod.mk.inj (Option.some.inj hs₂)).1

/-! ### The passes -/

variable {env : TstRes.Env} {site : Site} {reads : ℕ → FileRead} {lib : TstRes.Lib} {num : ℤ}

theorem outcome_inLib {α : Type} {m : TstRes.Run α} {returns : α → TstRes.Lib → Prop}
    {stops : TstRes.Stop → TstRes.Lib → Prop} (h : Outcome m lib returns stops) :
    Outcome (inLib m) lib returns fun stop lib' => ∃ e, stop = .lib e ∧ stops e lib' := by
  have hpart : Outcome m (id lib) returns stops := h
  exact hpart.onPart.mono (fun _ _ ⟨_, heq, h⟩ => heq ▸ h)
    fun _ _ ⟨e, _, hstop, heq, h⟩ => ⟨e, hstop, heq ▸ h⟩

theorem message_ne_nil (num : ℤ) (n : ℕ) (ret : ℤ) : message site num n ret ≠ [] := by
  unfold message
  split_ifs <;> simp

/-- The driver sets `Tst_count` in front of a report. -/
theorem advance_tstCount (hnum : 1 ≤ num) (lib : TstRes.Lib) :
    TstRes.Advance env 0#32 [] lib { lib with tstCount := num - 1 } where
  trace := (List.append_nil _).symm
  entered := rfl
  tOut := id
  file := id
  exitval := ⟨0, by simp, fun _ => rfl⟩
  regular h := ⟨Int.sub_nonneg.mpr hnum, h.last⟩

theorem testAndReport_outcome (hnum : 1 ≤ num) (n : ℕ) (hfile : TstRes.Untroubled env lib.file) :
    Outcome (testAndReport env site reads num n) lib
      (fun _ lib' => Verdicts env [dmaTest num (reads n)] lib lib') fun _ _ => False := by
  refine Outcome.bind_of_ok (EStateM.run_modify _ _) ?_
  refine (@TstRes.tstResm_typeOf env { lib with tstCount := num - 1 } _ (message_ne_nil num n _)
    (dmaTest num (reads n)) hfile).mono (fun _ lib' ⟨h, _⟩ => ?_) fun _ _ => id
  have hadvance := (advance_tstCount hnum lib).trans h.advance
  rw [BitVec.zero_or] at hadvance
  exact ⟨hadvance, h.tOut⟩

variable {F : Type} {call : Invocation F} {std : Std F}

theorem testPass_cases {s : LoopState} {wait : ℕ} :
    (∃ s', testPass call.floats std call.clock wait s = .inl s' ∧ s'.runs = s.runs + 1) ∨
      testPass call.floats std call.clock wait s = .inr (some s.runs) ∨
      testPass call.floats std call.clock wait s = .inr none := by
  rw [testPass]
  cases uscTestLooping call.floats std call.clock wait s.lc s.statics with
  | none => exact .inr (.inr rfl)
  | some looping =>
    obtain ⟨ret, statics⟩ := looping
    dsimp only
    by_cases hret : ret ≠ 0
    · exact .inl ⟨_, if_pos hret, rfl⟩
    · exact .inr (.inl (if_neg hret))

/-- What `dma_test` returns in some passes. -/
def results (num : ℤ) (reads : ℕ → FileRead) (start count : ℕ) : List ℤ :=
  (List.range' start count).map fun n => dmaTest num (reads n)

/-- The passes of a loop that ends. -/
theorem passes_outcome (hnum : 1 ≤ num) (hfunctional : std.functionalTest ≠ 0) {fuel n : ℕ}
    {s : LoopState} (hloop : iterate (testPass call.floats std call.clock 0) fuel s = some (some n))
    (hfile : TstRes.Untroubled env lib.file) :
    s.runs ≤ n ∧ Outcome (passes env site reads call std num fuel s) lib
      (fun _ lib' => Verdicts env (results num reads s.runs (n - s.runs)) lib lib' ∧
        (s.runs = n → lib' = lib))
      fun _ _ => False := by
  induction fuel generalizing s lib with
  | zero => cases hloop
  | succ fuel ih =>
    rw [iterate] at hloop
    rw [passes]
    obtain ⟨s', hpass, hruns⟩ | hpass | hpass := @testPass_cases _ call std s 0
    · rw [hpass] at hloop ⊢
      dsimp only at hloop ⊢
      have hle : s.runs + 1 ≤ n := by
        rw [← hruns]
        exact (ih hloop hfile).1
      refine ⟨Nat.le_of_succ_le hle, ?_⟩
      rw [onlyIf_of_pos hfunctional]
      refine Outcome.bind ((outcome_inLib (testAndReport_outcome hnum s.runs hfile)).mono
        (fun _ _ => id) fun _ _ h => h.elim fun _ hstop => hstop.2) fun _ lib₁ h₁ => ?_
      refine (ih hloop (h₁.advance.file hfile)).2.mono (fun _ lib₂ h₂ => ?_) fun _ _ => id
      refine ⟨?_, fun heq => by omega⟩
      have hcount : n - s.runs = n - s'.runs + 1 := by omega
      rw [results, hcount, List.range'_succ, List.map_cons, ← hruns]
      exact h₁.trans h₂.1
    · rw [hpass] at hloop ⊢
      obtain rfl := Option.some.inj (Option.some.inj hloop)
      refine ⟨Nat.le_refl _, Outcome.of_ok (EStateM.run_pure _ _) ?_⟩
      rw [Nat.sub_self]
      exact ⟨Verdicts.refl env lib, fun _ => rfl⟩
    · rw [hpass] at hloop
      cases hloop

/-! ### The exit status -/

/-- The call asks for one test, in so many passes. -/
def Asks (call : Invocation F) (num : ℤ) (fuel n : ℕ) : Prop :=
  ∃ state, call.parsed (some options) = .ok state ∧ state.flags 0 ≠ 0 ∧
    atoi ((state.args 0).getD []) = num ∧ state.std.functionalTest ≠ 0 ∧
    testLoop call.floats state.std call.clock 0 fuel = some (some n)

/-- The program reports and exits by what `dma_test` returns. -/
theorem main_outcome {fuel n : ℕ} (hasks : Asks call num fuel n) (hnum : 1 ≤ num) :
    Outcome (main env site reads call fuel) (.initial none) (fun _ _ => False) fun stop lib' =>
      stop = .lib (.exit (if ∀ ret ∈ results num reads 0 n, ret = 0 then 0 else tfail)) ∧
        lib'.trace =
          (results num reads 0 n).map (fun ret => .report (typeOf ret)) ++ [.exit 0] := by
  obtain ⟨state, hparsed, hflag, rfl, hfunctional, hloop⟩ := hasks
  rw [main, hparsed]
  dsimp only
  rw [if_neg hflag]
  refine Outcome.bind ((@passes_outcome env site reads (.initial none) _ _ call state.std hnum
    hfunctional fuel n _ hloop (.inl rfl)).2.mono (fun _ _ => id) fun _ _ => False.elim)
    fun _ lib ⟨h, hnone⟩ => ?_
  have hout : lib.tOut ≠ none ∨ lib.buffered = false := by
    by_cases hzero : 0 = n
    · rw [hnone hzero]
      exact .inr rfl
    · refine .inl (h.tOut fun hnil => hzero ?_)
      have hlen := congrArg List.length hnil
      rw [results, List.length_map, List.length_range'] at hlen
      exact hlen.symm
  exact (outcome_inLib (h.exit hout)).mono (fun _ _ => id)
    fun _ _ ⟨_, hstop, hexit, htrace⟩ => ⟨hstop.trans (congrArg Stop.lib hexit), htrace⟩

/-- The reads of the passes are answered by the module, one after the other. -/
structure Serves (cfg : KernelConfig) (num n : ℕ) (tests : ℕ → TestRead) (modules : ℕ → TestModule)
    (reads : ℕ → FileRead) : Prop where
  testId : ∀ i < n, (tests i).testId = num
  text : ∀ i < n, ∃ text, fileText cfg (tests i) (modules i) = some (text, modules (i + 1)) ∧
    reads i = .text text.toList

theorem Serves.dmaTest_eq_zero_iff {num n : ℕ} {tests : ℕ → TestRead} {modules : ℕ → TestModule}
    (h : Serves cfg num n tests modules reads) (hnum : num ≤ 69) {i : ℕ} (hi : i < n) :
    dmaTest num (reads i) = 0 ↔ Succeeds cfg (tests i) (modules i) ∧ Plain cfg num := by
  obtain ⟨text, htext, hread⟩ := h.text i hi
  have hid := h.testId i hi
  have hfile := dmaTest_fileText (hid.trans_le hnum) htext
  rw [hid, ← hread] at hfile
  obtain ⟨hzero, hgood⟩ | ⟨hfail, hbad⟩ := hfile
  · exact iff_of_true hzero hgood
  · exact iff_of_false (by rw [hfail]; decide) hbad

/-- **The exit status.** In a call of `dma` for one test of the module the status is 0 if and only
if in every pass the test case returns 0 and its file holds nothing but the line, and `TFAIL`
otherwise. There is one report for each pass. -/
theorem main_exit_iff {num fuel n : ℕ} {tests : ℕ → TestRead} {modules : ℕ → TestModule}
    (hasks : Asks call num fuel n) (hpos : 1 ≤ num) (hnum : num ≤ 69)
    (hserves : Serves cfg num n tests modules reads) :
    Outcome (main env site reads call fuel) (.initial none) (fun _ _ => False) fun stop lib' =>
      (stop = .lib (.exit 0) ↔ ∀ i < n, Succeeds cfg (tests i) (modules i) ∧ Plain cfg num) ∧
        (stop = .lib (.exit tfail) ↔
          ¬∀ i < n, Succeeds cfg (tests i) (modules i) ∧ Plain cfg num) ∧
        ∃ rets : List ℤ, rets.length = n ∧
          lib'.trace = rets.map (fun ret => .report (typeOf ret)) ++ [.exit 0] := by
  have hall : (∀ ret ∈ results (num : ℤ) reads 0 n, ret = 0) ↔
      ∀ i < n, Succeeds cfg (tests i) (modules i) ∧ Plain cfg num := by
    rw [results, List.forall_mem_map]
    refine forall_congr' fun i => ?_
    rw [List.mem_range'_1, Nat.zero_add, and_iff_right (Nat.zero_le i)]
    exact forall_congr' fun hi => hserves.dmaTest_eq_zero_iff hnum hi
  refine (main_outcome hasks (by omega)).mono (fun _ _ => id) fun stop lib' ⟨hstop, htrace⟩ => ?_
  have hlen : (results (num : ℤ) reads 0 n).length = n := by
    rw [results, List.length_map, List.length_range']
  rw [hstop, ← hall]
  by_cases hzero : ∀ ret ∈ results (num : ℤ) reads 0 n, ret = 0
  · rw [if_pos hzero]
    exact ⟨iff_of_true rfl hzero, iff_of_false (by simp [tfail]) (not_not_intro hzero), _, hlen,
      htrace⟩
  · rw [if_neg hzero]
    exact ⟨iff_of_false (by simp [tfail]) hzero, iff_of_true rfl hzero, _, hlen, htrace⟩

/-- A read of test 3 in which everything is granted, and the data agree. -/
def grantedThree : TestRead where
  testId := 3
  interrupted := false
  answers :=
    { wq _ := true, chan _ := true, cmp _ := true, ends := true, mmcSgsize := 0, seqPrintf := 0 }

theorem main_exit_iff_three : ∃ text s',
    fileText ⟨false, false⟩ grantedThree TestResources.moduleInit = some (text, s') ∧
      Outcome (main (TstRes.plainEnv none) ⟨"dma.c".toList, 0, fun _ => 0, fun _ => []⟩
        (fun _ => .text text.toList) (plainInvocation [⟨some 'n', some ['3']⟩]) 2) (.initial none)
      (fun _ _ => False) fun stop _ => stop = .lib (.exit 0) ↔
        ∀ i < 1, Succeeds ⟨false, false⟩ grantedThree
          (if i = 0 then TestResources.moduleInit else s') ∧ Plain ⟨false, false⟩ 3 := by
  obtain ⟨text, s', hfile⟩ : ∃ text s',
      fileText ⟨false, false⟩ grantedThree TestResources.moduleInit = some (text, s') := ⟨_, _, rfl⟩
  have hserves : Serves ⟨false, false⟩ 3 1 (fun _ => grantedThree)
      (fun i => if i = 0 then TestResources.moduleInit else s') fun _ => .text text.toList := by
    refine ⟨fun _ _ => rfl, fun i hi => ⟨text, ?_, rfl⟩⟩
    obtain rfl : i = 0 := by omega
    exact hfile
  have hasks : Asks (plainInvocation [⟨some 'n', some ['3']⟩]) 3 2 1 :=
    ⟨_, rfl, by decide, by decide, by decide, rfl⟩
  exact ⟨text, s', hfile, (main_exit_iff hasks (by decide) (by decide) hserves).mono
    (fun _ _ => id) fun _ _ h => h.1⟩

end SnowballLtp.Dma.UserVerdict
