import SnowballLtp.Ltp.TstCatFile
import SnowballLtp.Ltp.TstExit

/-!
# Counting and collecting reports

`Tst_count` is advanced by `tst_res` alone, once for each report that is neither a warning nor an
information. What is printed in between, the warnings about files and the buffered results
included, leaves it as it is. A test program reports the values of its tests one after the other and
ends with `tst_exit`: its exit status tells whether one of them was not 0.

## Main definitions

* `KeepsCount`: a computation that leaves the counter alone.
* `Verdicts`: some values are reported between two states.

## Main results

* `tstRes_count`.
* `Verdicts.exit`.
-/

namespace SnowballLtp.TstRes

variable {env : Env} {lib : Lib} {n : ℤ}

/-- The computation leaves `Tst_count` at `n`. -/
abbrev KeepsCount (n : ℤ) {α : Type} (m : Run α) : Prop :=
  Keeps (fun lib : Lib => lib.tstCount = n) (fun _ : Stop => True) m

/-- Every call of a printer leaves the counter alone. -/
def Printer.KeepsCount (n : ℤ) (print : Printer) : Prop :=
  ∀ tcid tnum ttype tmesg, TstRes.KeepsCount n (print tcid tnum ttype tmesg)

theorem KeepsCount.outcome {α : Type} {m : Run α} (h : KeepsCount n m) (hlib : lib.tstCount = n) :
    Outcome m lib (fun _ lib' => lib'.tstCount = n) fun _ _ => True :=
  (h lib hlib).mono (fun _ _ h => h) fun _ _ _ => trivial

theorem keepsCount_emit (out : Output) : KeepsCount n (emit out) :=
  keeps_get_bind fun _ hlib => keeps_ite (fun _ => keeps_throw trivial) fun _ => keeps_set hlib

/-! ### Printing -/

section Printing

variable {print : Printer}

theorem keepsCount_warnMesg (hprint : print.KeepsCount n) (text : CString) :
    KeepsCount n (warnMesg env print text) :=
  keeps_ite (fun _ => keeps_throw trivial) fun _ => hprint _ _ _ _

theorem keepsCount_copyOut (hprint : print.KeepsCount n) (filename : CString)
    (chunks : List (CString × ℕ)) : KeepsCount n (copyOut env print filename chunks) := by
  induction chunks with
  | nil => exact keeps_pure ()
  | cons chunk rest ih =>
    refine (keepsCount_emit _).bind fun _ => ?_
    exact keeps_ite (fun _ => keepsCount_warnMesg hprint _) fun _ => ih

theorem keepsCount_catFile (hprint : print.KeepsCount n) (filename : CString) :
    KeepsCount n (catFile env print filename) := by
  refine keeps_get_bind fun _ _ => keeps_ite (fun _ => keepsCount_warnMesg hprint _) fun _ => ?_
  refine (keepsCount_copyOut hprint filename _).bind fun _ => ?_
  refine Keeps.bind (keeps_onlyIf fun _ => keepsCount_warnMesg hprint _) fun _ => ?_
  exact keeps_onlyIf fun _ => keepsCount_warnMesg hprint _

theorem keepsCount_printLine (hprint : print.KeepsCount n) :
    (printLine env print).KeepsCount n := by
  intro tcid tnum ttype tmesg
  refine Keeps.bind (keeps_modify fun _ h => h) fun _ => ?_
  refine keeps_get_bind fun _ _ => ?_
  refine keeps_onlyIf fun _ => ?_
  refine keeps_get_bind fun lib _ => (keepsCount_emit _).bind fun _ => ?_
  refine Keeps.bind ?_ fun _ => keeps_modify fun _ h => h
  cases lib.file with
  | none => exact keeps_pure ()
  | some filename => exact keepsCount_catFile hprint filename

theorem keepsCount_tstPrint (depth : ℕ) : (tstPrint env depth).KeepsCount n := by
  induction depth with
  | zero => exact keepsCount_printLine fun _ _ _ _ => keeps_throw trivial
  | succ depth ih => exact keepsCount_printLine ih

end Printing

/-! ### Reporting -/

theorem keepsCount_tstCondense (tnum : ℤ) (ttype : BitVec 32) (tmesg : CString) :
    KeepsCount n (tstCondense env tnum ttype tmesg) := by
  refine keeps_get_bind fun lib hlib => keeps_onlyIf fun _ => ?_
  refine Keeps.bind (keeps_onlyIf fun _ => ?_) fun _ => ?_
  · refine Keeps.bind (keeps_set hlib) fun _ => ?_
    exact (keepsCount_tstPrint _ _ _ _ _).bind fun _ => keeps_modify fun _ h => h
  · refine keeps_ite (fun _ => ?_) fun _ => keeps_modify fun _ h => h
    exact (keepsCount_tstPrint _ _ _ _ _).bind fun _ => keeps_modify fun _ h => h

theorem keepsCount_tstResDisplay (ttype : BitVec 32) (tmesg : CString) :
    KeepsCount n (tstResDisplay env ttype tmesg) := by
  refine keeps_get_bind fun lib _ => ?_
  cases lib.tMode with
  | discard => exact keeps_pure ()
  | nopass => exact keepsCount_tstCondense _ _ _
  | verbose => exact keepsCount_tstPrint _ _ _ _ _

/-- **The counter.** A report that is neither a warning nor an information advances it by one, and
the others leave it as it is. -/
theorem tstRes_count (ttype : BitVec 32) (fname : Option CString) (mesg : CString) (lib : Lib) :
    Outcome (tstRes env ttype fname mesg) lib
      (fun _ lib' => lib'.tstCount = lib.tstCount +
        if ttypeResult ttype = twarn ∨ ttypeResult ttype = tinfo then 0 else 1)
      fun _ _ => True := by
  by_cases hmesg : mesg = []
  · subst hmesg
    exact Outcome.of_error (run_bind_of_error expandVarArgs_run_nil) trivial
  refine Outcome.bind_of_ok (expandVarArgs_run hmesg)
    (Outcome.bind_of_ok (EStateM.run_modify _ _) ?_)
  have hbegin := (begun_tstResBegin env (ttypeResult ttype) fname lib).tstCount
  split_ifs with hunnumbered
  · rw [Int.add_zero]
    exact (keepsCount_tstPrint _ _ _ _ _).outcome hbegin
  · refine Outcome.bind_of_ok (EStateM.run_get _) ?_
    have hwarn := KeepsCount.outcome (keeps_onlyIf (c := lib.tstCount < 0) fun _ =>
      @keepsCount_tstPrint env lib.tstCount env.stack env.tcid 0 twarn
        "tst_res(): Tst_count < 0 is not valid".toList) hbegin
    rw [hbegin]
    refine Outcome.bind hwarn fun _ lib₁ h₁ => ?_
    refine Outcome.bind ((keepsCount_tstResDisplay _ _).outcome h₁) fun _ lib₂ h₂ => ?_
    exact Outcome.of_ok (EStateM.run_modify _ _) (by rw [h₂])

/-! ### Reporting values -/

/-- The type that is reported for the value of a test. -/
def typeOf (ret : ℤ) : BitVec 32 := if ret = 0 then tpass else tfail

theorem ttypeResult_typeOf (ret : ℤ) : ttypeResult (typeOf ret) = typeOf ret := by
  rw [typeOf]
  split_ifs <;> rfl

theorem typeOf_counted (ret : ℤ) :
    ¬(ttypeResult (typeOf ret) = twarn ∨ ttypeResult (typeOf ret) = tinfo) := by
  rw [typeOf]
  split_ifs <;> decide

theorem union_typeOf (rets : List ℤ) :
    union (rets.map typeOf) = if ∀ ret ∈ rets, ret = 0 then 0 else tfail := by
  induction rets with
  | nil => rfl
  | cons ret rets ih =>
    rw [List.map_cons, union_cons, ih]
    by_cases hret : ret = 0
    · simp [hret, typeOf, tpass]
    · have hfail : ¬∀ other ∈ ret :: rets, other = 0 := fun hall =>
        hret (hall ret List.mem_cons_self)
      rw [typeOf, if_neg hret, if_neg hfail]
      split_ifs <;> rfl

/-- From one state to a later one the values are reported. -/
structure Verdicts (env : Env) (rets : List ℤ) (lib lib' : Lib) : Prop where
  advance :
    Advance env (union (rets.map typeOf)) (rets.map fun ret => .report (typeOf ret)) lib lib'
  tOut : rets ≠ [] → lib'.tOut ≠ none

namespace Verdicts

variable {rets more : List ℤ} {lib' lib'' : Lib}

theorem refl (env : Env) (lib : Lib) : Verdicts env [] lib lib :=
  ⟨Advance.refl env lib, fun h => absurd rfl h⟩

theorem trans (h : Verdicts env rets lib lib') (h' : Verdicts env more lib' lib'') :
    Verdicts env (rets ++ more) lib lib'' where
  advance := by
    have hall := h.advance.trans h'.advance
    rwa [← union_append, ← List.map_append, ← List.map_append] at hall
  tOut hne := by
    by_cases hmore : more = []
    · subst hmore
      rw [List.append_nil] at hne
      exact h'.advance.tOut (h.tOut hne)
    · exact h'.tOut hmore

/-- `tst_exit` behind reports that were made from the start. -/
theorem exit (h : Verdicts env rets (.initial none) lib)
    (hout : lib.tOut ≠ none ∨ lib.buffered = false) :
    Outcome (tstExit env) lib (fun _ _ => False) fun stop lib' =>
      stop = .exit (if ∀ ret ∈ rets, ret = 0 then 0 else tfail) ∧
        lib'.trace = (rets.map fun ret => .report (typeOf ret)) ++ [.exit 0] := by
  have hfile : Untroubled env lib.file := h.advance.file (.inl rfl)
  refine (tstExit_advance hout hfile).mono (fun _ _ => id) fun stop lib' ⟨hadvance, hexit⟩ => ?_
  have hall := h.advance.trans hadvance
  refine ⟨?_, ?_⟩
  · obtain ⟨extra, hexitval, hextra⟩ := hall.exitval
    rw [hextra (regular_initial none), union_typeOf] at hexitval
    rw [hexit, hexitval]
    refine congrArg Stop.exit ?_
    split_ifs <;> decide
  · rw [hall.trace, h.advance.entered]
    rfl

end Verdicts

/-- A report of a value by `tst_resm`. -/
theorem tstResm_typeOf {mesg : CString} (hmesg : mesg ≠ []) (ret : ℤ)
    (hfile : Untroubled env lib.file) :
    Outcome (tstResm env (typeOf ret) mesg) lib
      (fun _ lib' => Verdicts env [ret] lib lib' ∧ lib'.tstCount = lib.tstCount + 1)
      fun _ _ => False := by
  refine Outcome.of_run_eq (tstResm_run _ mesg lib) ?_
  refine ((tstRes_advance (typeOf ret) mesg (.inl rfl) hfile).and
    (tstRes_count (typeOf ret) none mesg lib)).mono (fun _ lib' h => ?_) fun _ _ h => hmesg h.1.2
  obtain ⟨⟨hadvance, hout⟩, hcount⟩ := h
  rw [ttypeResult_typeOf] at hadvance
  rw [if_neg (typeOf_counted ret)] at hcount
  exact ⟨⟨by simpa using hadvance, fun _ => hout⟩, hcount⟩

end SnowballLtp.TstRes
