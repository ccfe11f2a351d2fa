import SnowballLtp.Ltp.TstRes

/-!
# What a call adds

Every function of the library only adds: to the bits of `T_exitval`, to the output and to the
trace. `Advance` says which bits and events a call adds, and what it leaves as it is. The bits are
known exactly in a regular state, in which `Tst_count` is not negative and the bits of the buffered
result have been collected before. In any other state warnings and buffered results may add more.

## Main definitions

* `Lib.Regular`, `Ready`, `Advance`.

## Main results

* `tstRes_advance`: a call of `tst_res` adds the bits of its type.
* `tstBrk_nested`, `tstBrk_outermost`: what a call of `tst_brk` does inside a cleanup function
  and outside.
-/

namespace SnowballLtp.TstRes

/-! ### Bits -/

/-- All bits of `b` are bits of `a`. -/
def Covers (a b : BitVec 32) : Prop := a ||| b = a

instance (a b : BitVec 32) : Decidable (Covers a b) := inferInstanceAs (Decidable (_ = _))

namespace Covers

variable {a b c : BitVec 32}

theorem zero (a : BitVec 32) : Covers a 0#32 := BitVec.or_zero

theorem or_right (a b : BitVec 32) : Covers (a ||| b) b := by
  rw [Covers, BitVec.or_assoc, BitVec.or_self]

theorem or_left (h : Covers a c) (b : BitVec 32) : Covers (a ||| b) c := by
  rw [Covers, BitVec.or_assoc, BitVec.or_comm b c, ← BitVec.or_assoc, h]

end Covers

theorem ttypeResult_ttypeResult (ttype : BitVec 32) :
    ttypeResult (ttypeResult ttype) = ttypeResult ttype := by
  rw [ttypeResult, ttypeResult, BitVec.and_assoc, BitVec.and_self]

/-! ### The relation -/

/-- The state between two calls when `Tst_count` is only changed by the library. -/
structure Lib.Regular (lib : Lib) : Prop where
  tstCount : 0 ≤ lib.tstCount
  last : lib.buffered = true → Covers lib.tExitval (ttypeResult lib.last.type)

/-- The stream is there, and the file makes no trouble. -/
structure Ready (env : Env) (lib : Lib) : Prop where
  tOut : lib.tOut ≠ none
  file : Untroubled env lib.file

/-- From one state to a later one the given bits and events are added. -/
structure Advance (env : Env) (bits : BitVec 32) (events : List Event) (lib lib' : Lib) : Prop where
  trace : lib'.trace = lib.trace ++ events
  entered : lib'.tstBrkEntered = lib.tstBrkEntered
  tOut : lib.tOut ≠ none → lib'.tOut ≠ none
  file : Untroubled env lib.file → Untroubled env lib'.file
  exitval : ∃ extra, lib'.tExitval = lib.tExitval ||| bits ||| extra ∧ (lib.Regular → extra = 0)
  regular : lib.Regular → lib'.Regular

variable {env : Env} {lib lib' lib'' : Lib} {bits more : BitVec 32} {events later : List Event}

namespace Advance

theorem refl (env : Env) (lib : Lib) : Advance env 0#32 [] lib lib where
  trace := (List.append_nil _).symm
  entered := rfl
  tOut := id
  file := id
  exitval := ⟨0, by simp, fun _ => rfl⟩
  regular := id

theorem trans (h : Advance env bits events lib lib') (h' : Advance env more later lib' lib'') :
    Advance env (bits ||| more) (events ++ later) lib lib'' where
  trace := by rw [h'.trace, h.trace, List.append_assoc]
  entered := h'.entered.trans h.entered
  tOut := fun hout => h'.tOut (h.tOut hout)
  file := fun hfile => h'.file (h.file hfile)
  exitval := by
    obtain ⟨extra, heq, hzero⟩ := h.exitval
    obtain ⟨extra', heq', hzero'⟩ := h'.exitval
    refine ⟨extra ||| extra', ?_, fun hr => ?_⟩
    · rw [heq', heq]
      ac_rfl
    · rw [hzero hr, hzero' (h.regular hr), BitVec.or_self]
  regular := fun hr => h'.regular (h.regular hr)

theorem ready (h : Advance env bits events lib lib') (hr : Ready env lib) : Ready env lib' :=
  ⟨h.tOut hr.tOut, h.file hr.file⟩

/-- The bits that were there are still there. -/
theorem covers (h : Advance env bits events lib lib') {b : BitVec 32} (hb : Covers lib.tExitval b) :
    Covers lib'.tExitval b := by
  obtain ⟨extra, heq, -⟩ := h.exitval
  rw [heq]
  exact (hb.or_left _).or_left _

/-- The bits that are added are there. -/
theorem covers_bits (h : Advance env bits events lib lib') : Covers lib'.tExitval bits := by
  obtain ⟨extra, heq, -⟩ := h.exitval
  rw [heq]
  exact (Covers.or_right _ _).or_left _

/-- Nothing is added before. -/
theorem of_quiet (h : Advance env 0#32 [] lib lib') (h' : Advance env bits events lib' lib'') :
    Advance env bits events lib lib'' := by
  have hall := h.trans h'
  rwa [BitVec.zero_or, List.nil_append] at hall

/-- Nothing is added afterwards. -/
theorem quiet (h : Advance env bits events lib lib') (h' : Advance env 0#32 [] lib' lib'') :
    Advance env bits events lib lib'' := by
  have hall := h.trans h'
  rwa [BitVec.or_zero, List.append_nil] at hall

/-- Bits that are there already need not be counted. -/
theorem absorb (h : Advance env bits events lib lib')
    (hcovers : lib.Regular → Covers lib.tExitval bits) : Advance env 0#32 events lib lib' := by
  refine { h with exitval := ?_ }
  obtain ⟨extra, heq, hzero⟩ := h.exitval
  by_cases hr : lib.Regular
  · refine ⟨0, ?_, fun _ => rfl⟩
    rw [heq, hzero hr, hcovers hr]
    simp
  · refine ⟨bits ||| extra, ?_, fun hr' => absurd hr' hr⟩
    rw [heq, BitVec.or_zero, BitVec.or_assoc]

end Advance

/-! ### Single updates -/

theorem advance_printed (tcid : CString) (tnum : ℤ) (ttype : BitVec 32) (tmesg : CString)
    (lib : Lib) :
    Advance env (ttypeResult ttype) [] lib (printed env tcid tnum ttype tmesg lib) := by
  rw [printed]
  split_ifs with hf
  · exact
      { trace := (List.append_nil _).symm
        entered := rfl
        tOut := id
        file := id
        exitval := ⟨0, by simp [Lib.record], fun _ => rfl⟩
        regular := fun hr => ⟨hr.tstCount, fun hb => (hr.last hb).or_left _⟩ }
  · exact
      { trace := (List.append_nil _).symm
        entered := rfl
        tOut := id
        file := fun _ => .inl rfl
        exitval := ⟨0, by simp [Lib.record, Lib.write, Lib.setFile], fun _ => rfl⟩
        regular := fun hr => ⟨hr.tstCount, fun hb => (hr.last hb).or_left _⟩ }

theorem advance_setFile {file : Option CString}
    (hfile : Untroubled env lib.file → Untroubled env file) :
    Advance env 0#32 [] lib (lib.setFile file) :=
  { Advance.refl env lib with
    file := hfile
    regular := fun hr => ⟨hr.tstCount, hr.last⟩ }

theorem advance_unbuffer (lib : Lib) : Advance env 0#32 [] lib { lib with buffered := false } :=
  { Advance.refl env lib with
    regular := fun hr => ⟨hr.tstCount, fun hb => absurd hb Bool.false_ne_true⟩ }

theorem advance_hold {last : Last} (hlast : Covers lib.tExitval (ttypeResult last.type)) :
    Advance env 0#32 [] lib (lib.hold last) :=
  { Advance.refl env lib with regular := fun hr => ⟨hr.tstCount, fun _ => hlast⟩ }

theorem advance_count (lib : Lib) :
    Advance env 0#32 [] lib { lib with tstCount := lib.tstCount + 1 } :=
  { Advance.refl env lib with
    regular := fun hr => ⟨Int.le_add_one hr.tstCount, hr.last⟩ }

theorem advance_log (lib : Lib) (event : Event) : Advance env 0#32 [event] lib (lib.log event) :=
  { Advance.refl env lib with
    trace := rfl
    regular := fun hr => ⟨hr.tstCount, hr.last⟩ }

theorem advance_record (lib : Lib) (result : BitVec 32) :
    Advance env result [] lib (lib.record result) :=
  { Advance.refl env lib with
    exitval := ⟨0, by simp [Lib.record], fun _ => rfl⟩
    regular := fun hr => ⟨hr.tstCount, fun hb => (hr.last hb).or_left _⟩ }

theorem checkEnv_eq (env : Env) (lib : Lib) :
    ∃ mode first, checkEnv env lib = { lib with tMode := mode, firstTime := first } := by
  rw [checkEnv]
  split_ifs with hfirst
  · exact ⟨lib.tMode, lib.firstTime, rfl⟩
  · dsimp only
    split
    · exact ⟨_, _, rfl⟩
    · split_ifs <;> exact ⟨_, _, rfl⟩

theorem advance_checkEnv (lib : Lib) : Advance env 0#32 [] lib (checkEnv env lib) := by
  obtain ⟨mode, first, heq⟩ := checkEnv_eq env lib
  rw [heq]
  exact { Advance.refl env lib with regular := fun hr => ⟨hr.tstCount, hr.last⟩ }

theorem advance_stream (lib : Lib) (stream : Stream) :
    Advance env 0#32 [] lib { lib with tOut := lib.tOut.or (some stream) } :=
  { Advance.refl env lib with
    tOut := fun _ => by simp
    regular := fun hr => ⟨hr.tstCount, hr.last⟩ }

/-- The first half of `tst_res` adds the bits of the type, and leaves the stream set. -/
theorem advance_tstResBegin {fname : Option CString} (hfname : Untroubled env fname)
    (result : BitVec 32) (lib : Lib) :
    Advance env result [.report result] lib (tstResBegin env result fname lib) ∧
      (tstResBegin env result fname lib).tOut ≠ none := by
  have hset := (((advance_log lib (.report result)).trans (advance_record _ result)).quiet
    (advance_stream _ .stdout)).quiet (@advance_checkEnv env _)
  rw [BitVec.zero_or, List.append_nil] at hset
  have hout : (checkEnv env { (lib.log (.report result)).record result with
      tOut := lib.tOut.or (some .stdout) }).tOut ≠ none :=
    (@advance_checkEnv env _).tOut (by simp)
  unfold tstResBegin
  cases fname with
  | none => exact ⟨hset, hout⟩
  | some name =>
    dsimp only
    split_ifs
    · exact ⟨hset.quiet (advance_setFile fun _ => .inr (hfname.resolve_left (by simp))), hout⟩
    · exact ⟨hset, hout⟩

/-! ### The functions -/

theorem tstPrint_advance (depth : ℕ) (tcid : CString) (tnum : ℤ) (ttype : BitVec 32)
    (tmesg : CString) (hready : Ready env lib) :
    Outcome (tstPrint env depth tcid tnum ttype tmesg) lib
      (fun _ lib' => Advance env (ttypeResult ttype) [] lib lib') (fun _ _ => False) :=
  Outcome.of_ok (tstPrint_run depth tcid tnum ttype tmesg hready.file (.inl hready.tOut))
    (advance_printed tcid tnum ttype tmesg lib)

/-- The buffered result is printed. -/
theorem releaseLast_advance (depth : ℕ) (hready : Ready env lib) (hbuffered : lib.buffered = true) :
    Outcome (do
        set (lib.setFile none)
        tstPrint env depth lib.last.tcid lib.last.num lib.last.type lib.last.mesg
        modify (·.setFile lib.file) : Run Unit) lib
      (fun _ lib' => Advance env 0#32 [] lib lib') (fun _ _ => False) := by
  have hclear : Advance env 0#32 [] lib (lib.setFile none) := advance_setFile fun _ => .inl rfl
  refine Outcome.bind_of_ok (EStateM.run_set _ _) ?_
  refine Outcome.bind (tstPrint_advance depth _ _ _ _ (hclear.ready hready)) fun _ lib' h => ?_
  refine Outcome.of_ok (EStateM.run_modify _ _) ?_
  have hrestore : Advance env 0#32 [] lib' (lib'.setFile lib.file) :=
    advance_setFile fun _ => hready.file
  exact ((hclear.of_quiet h).quiet hrestore).absorb fun hr => hr.last hbuffered

theorem tstCondense_advance (tnum : ℤ) (ttype : BitVec 32) (tmesg : CString)
    (hready : Ready env lib) (hcovers : Covers lib.tExitval (ttypeResult ttype)) :
    Outcome (tstCondense env tnum ttype tmesg) lib
      (fun _ lib' => Advance env 0#32 [] lib lib') (fun _ _ => False) := by
  refine Outcome.bind_of_ok (EStateM.run_get lib) ?_
  refine Outcome.onlyIf (fun _ => ?_) fun _ => Advance.refl env lib
  refine Outcome.bind (Outcome.onlyIf (releaseLast_advance _ hready) fun _ => Advance.refl env lib)
    fun _ lib' h => ?_
  split_ifs
  · refine Outcome.bind (tstPrint_advance _ _ _ _ _ (h.ready hready)) fun _ lib'' h' => ?_
    refine Outcome.of_ok (EStateM.run_modify _ _) ?_
    exact ((h.of_quiet h').quiet (advance_unbuffer lib'')).absorb fun _ => hcovers
  · refine Outcome.of_ok (EStateM.run_modify _ _) (h.quiet (advance_hold ?_))
    rw [ttypeResult_ttypeResult]
    exact h.covers hcovers

theorem tstFlush_advance (hout : lib.tOut ≠ none ∨ lib.buffered = false)
    (hfile : Untroubled env lib.file) :
    Outcome (tstFlush env) lib (fun _ lib' => Advance env 0#32 [] lib lib')
      (fun _ _ => False) := by
  refine Outcome.bind_of_ok (EStateM.run_get lib) ?_
  refine Outcome.onlyIf (fun hbuffered => ?_) fun _ => Advance.refl env lib
  have hready : Ready env lib :=
    ⟨hout.resolve_right (by rw [hbuffered.1]; exact Bool.true_eq_false.mp), hfile⟩
  refine Outcome.bind (tstPrint_advance _ _ _ _ _ hready) fun _ lib' h => ?_
  refine Outcome.of_ok (EStateM.run_modify _ _) ?_
  exact (h.quiet (advance_unbuffer lib')).absorb fun hr => hr.last hbuffered.1

theorem tstResDisplay_advance (ttype : BitVec 32) (tmesg : CString) (hready : Ready env lib)
    (hcovers : Covers lib.tExitval (ttypeResult ttype)) :
    Outcome (tstResDisplay env ttype tmesg) lib
      (fun _ lib' => Advance env 0#32 [] lib lib') (fun _ _ => False) := by
  refine Outcome.bind_of_ok (EStateM.run_get lib) ?_
  cases lib.tMode with
  | verbose =>
    refine (tstPrint_advance _ _ _ _ _ hready).mono (fun _ lib' h => ?_) fun _ _ => id
    exact h.absorb fun _ => hcovers
  | nopass => exact tstCondense_advance _ ttype tmesg hready hcovers
  | discard => exact Outcome.of_ok (EStateM.run_pure _ _) (Advance.refl env lib)

/-- The warning about a negative `Tst_count` is not printed in a regular state. -/
private theorem warnNegative_advance (mesg : CString) (hready : Ready env lib) :
    Outcome (onlyIf (lib.tstCount < 0) (tstPrint env env.stack env.tcid 0 twarn mesg)) lib
      (fun _ lib' => Advance env 0#32 [] lib lib') (fun _ _ => False) := by
  refine Outcome.onlyIf (fun hneg => ?_) fun _ => Advance.refl env lib
  refine (tstPrint_advance _ _ _ _ _ hready).mono (fun _ _ h => ?_) fun _ _ => id
  exact h.absorb fun hr => absurd hr.tstCount (Int.not_le.mpr hneg)

theorem expandVarArgs_run {mesg : CString} (h : mesg ≠ []) :
    (expandVarArgs mesg).run lib = .ok (mesg.take (usermesg - 1)) lib := by
  rw [expandVarArgs, if_neg (by simpa [usermesg] using h), EStateM.run_pure]

theorem expandVarArgs_run_nil : (expandVarArgs []).run lib = .error .assertion lib := rfl

/-- **Reporting.** A call of `tst_res` adds the bits of its type, if its message is not empty. -/
theorem tstRes_advance (ttype : BitVec 32) {fname : Option CString} (mesg : CString)
    (hfname : Untroubled env fname) (hfile : Untroubled env lib.file) :
    Outcome (tstRes env ttype fname mesg) lib
      (fun _ lib' => Advance env (ttypeResult ttype) [.report (ttypeResult ttype)] lib lib' ∧
        lib'.tOut ≠ none)
      (fun stop _ => stop = .assertion ∧ mesg = []) := by
  by_cases hmesg : mesg = []
  · subst hmesg
    exact Outcome.of_error (run_bind_of_error expandVarArgs_run_nil) ⟨rfl, rfl⟩
  · refine Outcome.bind_of_ok (expandVarArgs_run hmesg) ?_
    refine Outcome.bind_of_ok (EStateM.run_modify _ _) ?_
    obtain ⟨hbegin, hout⟩ := advance_tstResBegin hfname (ttypeResult ttype) lib
    have hready : Ready env (tstResBegin env (ttypeResult ttype) fname lib) :=
      ⟨hout, hbegin.file hfile⟩
    have hcovers := hbegin.covers_bits
    suffices hrest : Outcome _ (tstResBegin env (ttypeResult ttype) fname lib)
        (fun _ lib' => Advance env 0#32 [] (tstResBegin env (ttypeResult ttype) fname lib) lib')
        (fun _ _ => False) from
      hrest.mono (fun _ _ h => ⟨hbegin.quiet h, h.tOut hout⟩) fun _ _ => False.elim
    split_ifs
    · refine (tstPrint_advance _ _ _ _ _ hready).mono (fun _ _ h => ?_) fun _ _ => id
      exact h.absorb fun _ => hcovers
    · refine Outcome.bind_of_ok (EStateM.run_get _) ?_
      refine Outcome.bind (warnNegative_advance _ hready) fun _ lib₁ h₁ => ?_
      refine Outcome.bind (tstResDisplay_advance ttype _ (h₁.ready hready) (h₁.covers hcovers))
        fun _ lib₂ h₂ => ?_
      exact Outcome.of_ok (EStateM.run_modify _ _) ((h₁.quiet h₂).quiet (advance_count lib₂))

/-- Expanding a message twice is expanding it once. -/
theorem expandVarArgs_twice (mesg : CString) (f : CString → Run Unit) (lib : Lib) :
    (do f (← expandVarArgs (← expandVarArgs mesg))).run lib =
      (do f (← expandVarArgs mesg)).run lib := by
  by_cases hmesg : mesg = []
  · subst hmesg
    exact (run_bind_of_error expandVarArgs_run_nil).trans
      (run_bind_of_error expandVarArgs_run_nil).symm
  · have hcut : expandVarArgs (mesg.take (usermesg - 1)) = expandVarArgs mesg := by
      rw [expandVarArgs, expandVarArgs, List.take_take, Nat.min_self]
    rw [run_bind_of_ok (expandVarArgs_run hmesg), hcut]

theorem tstResm_run (ttype : BitVec 32) (mesg : CString) (lib : Lib) :
    (tstResm env ttype mesg).run lib = (tstRes env ttype none mesg).run lib :=
  expandVarArgs_twice mesg _ lib

/-- **Exiting.** The status is what was collected, without the bits of `TRETR`, `TINFO` and
`TCONF`. -/
theorem tstExit_advance (hout : lib.tOut ≠ none ∨ lib.buffered = false)
    (hfile : Untroubled env lib.file) :
    Outcome (tstExit env) lib (fun _ _ => False) fun stop lib' =>
      Advance env 0#32 [.exit lib.tstBrkEntered] lib lib' ∧
        stop = .exit (lib'.tExitval &&& ~~~(tretr ||| tinfo ||| tconf)) := by
  refine Outcome.bind ((tstFlush_advance hout hfile).mono (fun _ _ => id) fun _ _ => False.elim)
    fun _ lib' h => ?_
  refine Outcome.bind_of_ok (EStateM.run_get _) ?_
  refine Outcome.bind_of_ok (EStateM.run_set _ _) ?_
  refine Outcome.of_error (EStateM.run_throw _ _) ⟨?_, rfl⟩
  rw [h.entered]
  exact h.of_quiet (advance_log lib' _)

/-! ### Breaking the test -/

/-- The events of the report of the remaining cases. -/
def remainingEvents (result : BitVec 32) : List Event :=
  if result = tconf ∨ result = tretr ∨ result = tbrok then [.remaining, .report result] else []

/-- The bits of the report of the remaining cases. -/
def remainingBits (result : BitVec 32) : BitVec 32 :=
  if result = tconf ∨ result = tretr ∨ result = tbrok then result else 0#32

theorem ttypeResult_brkType_of_supported {ttype : BitVec 32}
    (h : Supported (ttypeResult ttype)) : ttypeResult (brkType ttype) = ttypeResult ttype := by
  rw [brkType, if_pos h]

theorem ttypeResult_brkType_of_not_supported {ttype : BitVec 32}
    (h : ¬Supported (ttypeResult ttype)) : ttypeResult (brkType ttype) = tbrok := by
  have hgone : ttype &&& ~~~(ttype &&& ttypeMask) &&& ttypeMask = 0#32 := by
    rw [BitVec.and_assoc, BitVec.and_comm _ ttypeMask, ← BitVec.and_assoc, BitVec.and_not_self]
    rfl
  have hkept : tbrok &&& ttypeMask = tbrok := by decide
  rw [brkType, if_neg h, ttypeResult, ttypeResult, BitVec.and_or_distrib_right, hgone, hkept,
    BitVec.zero_or]

theorem ttypeResult_brkType (ttype : BitVec 32) : ttypeResult (brkType ttype) =
    if Supported (ttypeResult ttype) then ttypeResult ttype else tbrok := by
  split_ifs with h
  · exact ttypeResult_brkType_of_supported h
  · exact ttypeResult_brkType_of_not_supported h

theorem reportRemaining_advance (ttype : BitVec 32) (hready : Ready env lib) :
    Outcome (reportRemaining env (ttypeResult ttype) (brkType ttype)) lib
      (fun _ lib' => Advance env (remainingBits (ttypeResult ttype))
        (remainingEvents (ttypeResult ttype)) lib lib')
      (fun _ _ => False) := by
  have hreport : ∀ (remaining : BitVec 32) (mesg : CString), mesg ≠ [] →
      ttypeResult remaining = ttypeResult ttype →
      Outcome (tstRes env remaining none mesg) (lib.log .remaining)
        (fun _ lib' => Advance env (ttypeResult ttype)
          [.remaining, .report (ttypeResult ttype)] lib lib') (fun _ _ => False) := by
    intro remaining mesg hmesg hsame
    have hlog := @advance_log env lib .remaining
    refine (tstRes_advance remaining mesg (.inl rfl) (hlog.ready hready).file).mono
      (fun _ lib' h => ?_) fun _ _ h => hmesg h.2
    have hall := hlog.trans h.1
    rwa [BitVec.zero_or, hsame] at hall
  rw [remainingBits, remainingEvents]
  refine Outcome.onlyIf (fun h => ?_) fun h => ?_
  · rw [if_pos h, if_pos h]
    refine Outcome.bind_of_ok (EStateM.run_modify _ _) ?_
    have hsame : ttypeResult (brkType ttype) = ttypeResult ttype := by
      refine ttypeResult_brkType_of_supported ?_
      rcases h with h | h | h <;> rw [h] <;> decide
    split_ifs with hconf hretr
    · exact hreport _ _ (by decide) hsame
    · exact hreport _ _ (by decide) hsame
    · have hbrok : ttypeResult ttype = tbrok := (h.resolve_left hconf).resolve_left hretr
      exact hreport _ _ (by decide) (by rw [hbrok]; decide)
  · rw [if_neg h, if_neg h]
    exact Advance.refl env lib

/-- The bits of the report of `tst_brk`, with those of its warning. -/
def breakBits (ttype : BitVec 32) : BitVec 32 :=
  if Supported (ttypeResult ttype) then ttypeResult ttype else twarn ||| tbrok

theorem reportBreak_advance (ttype : BitVec 32) {fname : Option CString} {mesg : CString}
    (hmesg : mesg ≠ []) (hfname : Untroubled env fname) (hfile : Untroubled env lib.file) :
    Outcome (reportBreak env ttype fname mesg) lib
      (fun _ lib' =>
        Advance env (breakBits ttype) [.report (ttypeResult (brkType ttype))] lib lib' ∧
          lib'.tOut ≠ none)
      (fun stop _ => stop = .nullStream ∧ lib.tOut = none ∧ ¬Supported (ttypeResult ttype)) := by
  have hwarn : Outcome (onlyIf (¬Supported (ttypeResult ttype)) (tstPrint env env.stack env.tcid 0
        twarn ("tst_brk: Invalid Type: " ++ toString (ttypeResult ttype).toInt ++
          ". Using TBROK").toList)) lib
      (fun _ lib' =>
        Advance env (if Supported (ttypeResult ttype) then 0#32 else twarn) [] lib lib')
      (fun stop _ => stop = .nullStream ∧ lib.tOut = none ∧ ¬Supported (ttypeResult ttype)) := by
    refine Outcome.onlyIf (fun hs => ?_) fun hs => ?_
    · rw [if_neg hs]
      by_cases hout : lib.tOut ≠ none ∨ Filtered lib.tMode (ttypeResult twarn)
      · have hprinted := @advance_printed env env.tcid 0 twarn ("tst_brk: Invalid Type: " ++
          toString (ttypeResult ttype).toInt ++ ". Using TBROK").toList lib
        exact Outcome.of_ok (tstPrint_run _ _ _ _ _ hfile hout) hprinted
      · obtain ⟨hnull, hf⟩ := not_or.mp hout
        exact Outcome.of_error (tstPrint_run_nullStream _ _ _ _ _ (not_not.mp hnull) hf)
          ⟨rfl, not_not.mp hnull, hs⟩
    · rw [if_pos (not_not.mp hs)]
      exact Advance.refl env lib
  refine Outcome.bind hwarn fun _ lib₁ h₁ => ?_
  refine (tstRes_advance (brkType ttype) mesg hfname (h₁.file hfile)).mono
    (fun _ lib' h => ⟨?_, h.2⟩) fun _ _ h => absurd h.2 hmesg
  have hall := h₁.trans h.1
  have hbits : (if Supported (ttypeResult ttype) then 0#32 else twarn) |||
      ttypeResult (brkType ttype) = breakBits ttype := by
    rw [ttypeResult_brkType, breakBits]
    split_ifs
    · rw [BitVec.zero_or]
    · rfl
  rwa [hbits, List.nil_append] at hall

/-- How a call can go wrong: its message is empty, or there is no stream. -/
def Stop.IsFault (stop : Stop) : Prop := stop = .assertion ∨ stop = .nullStream

/-- What is known of the cleanup function given to `tst_brk`: run while `tst_brk` is entered, it
adds the given bits and events, if the code in it is sound. -/
def Cleans (env : Env) (sound : Prop) (bits : BitVec 32) (events : List Event)
    (func : Run Unit) : Prop :=
  ∀ lib, Ready env lib → 0 < lib.tstBrkEntered →
    Outcome func lib (fun _ lib' => Advance env bits events lib lib')
      (fun stop _ => stop.IsFault ∧ ¬sound)

theorem runCleanup_advance {sound : Prop} {func : Run Unit}
    (hfunc : Cleans env sound bits events func) (hready : Ready env lib)
    (hentered : 0 ≤ lib.tstBrkEntered) :
    Outcome (runCleanup func) lib
      (fun _ lib' => Advance env bits (.cleanup :: (events ++ [.cleanedUp])) lib lib')
      (fun stop _ => stop.IsFault ∧ ¬sound) := by
  refine Outcome.bind_of_ok (EStateM.run_modify _ _) ?_
  refine Outcome.bind (hfunc _ ⟨hready.tOut, hready.file⟩ (Int.lt_add_one_of_le hentered))
    fun _ lib' h => ?_
  refine Outcome.of_ok (EStateM.run_modify _ _) ?_
  have hregular : lib.Regular → lib'.Regular := fun hr => h.regular ⟨hr.tstCount, hr.last⟩
  exact
    { trace := by
        simp only [Lib.log, h.trace, List.append_assoc, List.cons_append, List.nil_append]
      entered := by
        simp only [h.entered]
        omega
      tOut := h.tOut
      file := h.file
      exitval := by
        obtain ⟨extra, heq, hzero⟩ := h.exitval
        exact ⟨extra, heq, fun hr => hzero ⟨hr.tstCount, hr.last⟩⟩
      regular := fun hr => ⟨(hregular hr).tstCount, (hregular hr).last⟩ }

/-- What is known of the cleanup argument of `tst_brk`, `NULL` or a function. -/
def CleansUp (env : Env) (sound : Prop) (bits : BitVec 32) (events : List Event)
    (func : Option (Run Unit)) : Prop :=
  ∀ lib, Ready env lib → 0 ≤ lib.tstBrkEntered →
    Outcome (func.elim (pure ()) runCleanup) lib (fun _ lib' => Advance env bits events lib lib')
      (fun stop _ => stop.IsFault ∧ ¬sound)

theorem cleansUp_none (env : Env) (sound : Prop) : CleansUp env sound 0#32 [] none :=
  fun lib _ _ => Outcome.of_ok (EStateM.run_pure _ _) (Advance.refl env lib)

theorem Cleans.cleansUp {sound : Prop} {func : Run Unit} (h : Cleans env sound bits events func) :
    CleansUp env sound bits (.cleanup :: (events ++ [.cleanedUp])) (some func) :=
  fun _ hready hentered => runCleanup_advance h hready hentered

/-- When a call of `tst_brk` goes well: its message is not empty, there is a stream or the type
is supported, and the cleanup function is sound. -/
def BreakSound (lib : Lib) (ttype : BitVec 32) (mesg : CString) (sound : Prop) : Prop :=
  mesg ≠ [] ∧ (lib.tOut ≠ none ∨ Supported (ttypeResult ttype)) ∧ sound

/-- `tst_brk` up to its end, where it exits if it was not called inside a cleanup function. -/
theorem tstBrk_advance {sound : Prop} {func : Option (Run Unit)} (ttype : BitVec 32)
    {fname : Option CString} (mesg : CString) (hfunc : CleansUp env sound bits events func)
    (hfname : Untroubled env fname) (hfile : Untroubled env lib.file)
    (hentered : 0 ≤ lib.tstBrkEntered) :
    Outcome (tstBrk env ttype fname func mesg) lib
      (fun _ lib' => lib.tstBrkEntered ≠ 0 ∧ lib'.tOut ≠ none ∧
        Advance env (breakBits ttype ||| bits)
          (.report (ttypeResult (brkType ttype)) :: events) lib lib')
      (fun stop lib' =>
        (lib.tstBrkEntered = 0 ∧ stop = .exit (lib'.tExitval &&& ~~~(tretr ||| tinfo ||| tconf)) ∧
          Advance env (breakBits ttype ||| remainingBits (ttypeResult ttype) ||| bits)
            (.report (ttypeResult (brkType ttype)) :: remainingEvents (ttypeResult ttype) ++
              events ++ [.exit 0]) lib lib') ∨
        stop.IsFault ∧ ¬BreakSound lib ttype mesg sound) := by
  by_cases hmesg : mesg = []
  · subst hmesg
    exact Outcome.of_error (run_bind_of_error expandVarArgs_run_nil)
      (.inr ⟨.inl rfl, fun h => h.1 rfl⟩)
  · refine Outcome.bind_of_ok (expandVarArgs_run hmesg) ?_
    have hbuf : mesg.take (usermesg - 1) ≠ [] := by simpa [usermesg] using hmesg
    refine Outcome.bind ((reportBreak_advance ttype hbuf hfname hfile).mono (fun _ _ => id)
      fun _ _ h => .inr ⟨.inr h.1, fun hs => ?_⟩) fun _ lib₁ h₁ => ?_
    · exact hs.2.1.elim (fun hout => hout h.2.1) h.2.2
    have hready : Ready env lib₁ := ⟨h₁.2, h₁.1.file hfile⟩
    refine Outcome.bind_of_ok (EStateM.run_get _) ?_
    rw [h₁.1.entered]
    by_cases hzero : lib.tstBrkEntered = 0
    · rw [onlyIf_of_pos hzero]
      refine Outcome.bind ((reportRemaining_advance ttype hready).mono (fun _ _ => id)
        fun _ _ => False.elim) fun _ lib₂ h₂ => ?_
      have hall := h₁.1.trans h₂
      refine Outcome.bind ((hfunc lib₂ (h₂.ready hready) ?_).mono (fun _ _ => id)
        fun _ _ h => .inr ⟨h.1, fun hs => h.2 hs.2.2⟩) fun _ lib₃ h₃ => ?_
      · rw [hall.entered]
        exact hentered
      have hall := hall.trans h₃
      have hexit : lib₃.tstBrkEntered = 0 := hall.entered.trans hzero
      refine Outcome.bind_of_ok (EStateM.run_get _) ?_
      rw [onlyIf_of_pos hexit]
      have hready := h₃.ready (h₂.ready hready)
      refine (tstExit_advance (.inl hready.tOut) hready.file).mono (fun _ _ => False.elim)
        fun _ lib₄ h₄ => .inl ⟨hzero, h₄.2, ?_⟩
      have hlast := hall.trans h₄.1
      rwa [BitVec.or_zero, hexit] at hlast
    · rw [onlyIf_of_neg hzero]
      refine Outcome.bind_of_ok (EStateM.run_pure _ _) ?_
      refine Outcome.bind ((hfunc lib₁ hready ?_).mono (fun _ _ => id)
        fun _ _ h => .inr ⟨h.1, fun hs => h.2 hs.2.2⟩) fun _ lib₂ h₂ => ?_
      · rw [h₁.1.entered]
        exact hentered
      have hall := h₁.1.trans h₂
      refine Outcome.bind_of_ok (EStateM.run_get _) ?_
      rw [onlyIf_of_neg (by rw [hall.entered]; exact hzero)]
      exact Outcome.of_ok (EStateM.run_pure _ _) ⟨hzero, h₂.tOut hready.tOut, hall⟩

/-- **Breaking inside a cleanup function.** The call returns. -/
theorem tstBrk_nested {sound : Prop} {func : Option (Run Unit)} (ttype : BitVec 32)
    {fname : Option CString} (mesg : CString) (hfunc : CleansUp env sound bits events func)
    (hfname : Untroubled env fname) (hready : Ready env lib) (hentered : 0 < lib.tstBrkEntered) :
    Outcome (tstBrk env ttype fname func mesg) lib
      (fun _ lib' => Advance env (breakBits ttype ||| bits)
        (.report (ttypeResult (brkType ttype)) :: events) lib lib')
      (fun stop _ => stop.IsFault ∧ ¬(mesg ≠ [] ∧ sound)) := by
  refine (tstBrk_advance ttype mesg hfunc hfname hready.file (Int.le_of_lt hentered)).mono
    (fun _ _ h => h.2.2) fun _ _ h => ?_
  obtain ⟨hzero, -, -⟩ | ⟨hfault, hsound⟩ := h
  · omega
  · exact ⟨hfault, fun hs => hsound ⟨hs.1, .inl hready.tOut, hs.2⟩⟩

/-- **Breaking the test.** Outside the cleanup functions the call exits, after the cleanup
function has returned. -/
theorem tstBrk_outermost {sound : Prop} {func : Option (Run Unit)} (ttype : BitVec 32)
    {fname : Option CString} (mesg : CString) (hfunc : CleansUp env sound bits events func)
    (hfname : Untroubled env fname) (hfile : Untroubled env lib.file)
    (hentered : lib.tstBrkEntered = 0) :
    Outcome (tstBrk env ttype fname func mesg) lib (fun _ _ => False) fun stop lib' =>
      (stop = .exit (lib'.tExitval &&& ~~~(tretr ||| tinfo ||| tconf)) ∧
        Advance env (breakBits ttype ||| remainingBits (ttypeResult ttype) ||| bits)
          (.report (ttypeResult (brkType ttype)) :: remainingEvents (ttypeResult ttype) ++
            events ++ [.exit 0]) lib lib') ∨
      stop.IsFault ∧ ¬BreakSound lib ttype mesg sound :=
  (tstBrk_advance ttype mesg hfunc hfname hfile (Int.le_of_eq hentered.symm)).mono
    (fun _ _ h => h.1 hentered) fun _ _ h => h.imp_left fun h => h.2

theorem tstBrkm_run (ttype : BitVec 32) (func : Option (Run Unit)) (mesg : CString) (lib : Lib) :
    (tstBrkm env ttype func mesg).run lib = (tstBrk env ttype none func mesg).run lib :=
  expandVarArgs_twice mesg _ lib

end SnowballLtp.TstRes
