import SnowballLtp.Ltp.TstFile

/-!
# The first call

`T_out` is null and `T_mode` is not set when a test begins. The first call of `tst_res` sets both in
front of everything it prints, and so does every other function that reports by way of `tst_res`.
The exception is `tst_brk` with a type that it does not support: it warns of the type with
`tst_print` before it calls `tst_res`. As the first call of a test that gets past its message this
writes to a null stream.

`tst_flush` and `tst_exit` print what is in the buffer, and nothing is before the first call of
`tst_res`.

## Main definitions

* `Calls`, `Calls.run`: the calls of a test, with cleanup functions that make such calls.
* `InOrder`: nothing is printed before the stream and the mode are set.
* `Calls.Initializes`: the first call that gets past its message is not a bad call of `tst_brk`.

## Main results

* `Calls.keeps_started`: what holds once the mode is set.
* `inOrder_iff`.
* `breakInfo_not_inOrder`: a break with the type `TINFO`.
-/

namespace SnowballLtp.TstRes

/-- The calls of a test or of a cleanup function, in order. -/
inductive Calls where
  | ret
  | res (ttype : BitVec 32) (fname : Option CString) (mesg : CString) (next : Calls)
  | resm (ttype : BitVec 32) (mesg : CString) (next : Calls)
  /-- `tst_brk` with `NULL` for its cleanup function. -/
  | brk (ttype : BitVec 32) (fname : Option CString) (mesg : CString) (next : Calls)
  /-- `tst_brk` with a cleanup function. -/
  | brkWith (ttype : BitVec 32) (fname : Option CString) (mesg : CString) (func next : Calls)
  | brkm (ttype : BitVec 32) (mesg : CString) (next : Calls)
  | brkmWith (ttype : BitVec 32) (mesg : CString) (func next : Calls)
  | flush (next : Calls)
  | exit (next : Calls)
  deriving DecidableEq, Repr

/-- The calls are made one after the other. -/
def Calls.run (env : Env) : Calls → Run Unit
  | ret => pure ()
  | res ttype fname mesg next => do
    tstRes env ttype fname mesg
    next.run env
  | resm ttype mesg next => do
    tstResm env ttype mesg
    next.run env
  | brk ttype fname mesg next => do
    tstBrk env ttype fname none mesg
    next.run env
  | brkWith ttype fname mesg func next => do
    tstBrk env ttype fname (some (func.run env)) mesg
    next.run env
  | brkm ttype mesg next => do
    tstBrkm env ttype none mesg
    next.run env
  | brkmWith ttype mesg func next => do
    tstBrkm env ttype (some (func.run env)) mesg
    next.run env
  | flush next => do
    tstFlush env
    next.run env
  | exit next => do
    tstExit env
    next.run env

/-- The first call that gets past its message is not one of `tst_brk` or `tst_brkm` with a type that
is not supported. -/
def Calls.Initializes : Calls → Prop
  | ret => True
  | res _ _ _ _ => True
  | resm _ _ _ => True
  | brk ttype _ mesg _ => mesg = [] ∨ Supported (ttypeResult ttype)
  | brkWith ttype _ mesg _ _ => mesg = [] ∨ Supported (ttypeResult ttype)
  | brkm ttype mesg _ => mesg = [] ∨ Supported (ttypeResult ttype)
  | brkmWith ttype mesg _ _ => mesg = [] ∨ Supported (ttypeResult ttype)
  | flush next => next.Initializes
  | exit _ => True

/-- A line of a result that the mode set from `TOUTPUT` does not filter, as it prints it. -/
def InMode (env : Env) (l : Line) : Prop :=
  ∃ tcid tnum ttype tmesg, l = lineOf (modeOf env.toutput) tcid tnum ttype tmesg ∧
    ¬Filtered (modeOf env.toutput) (ttypeResult ttype)

/-- Before `check_env` has set the mode nothing has been printed, collected or put into the buffer,
and all lines that are printed are printed in this mode. -/
structure Obeys (env : Env) (lib : Lib) : Prop where
  before : lib.firstTime = true → lib.output = [] ∧ lib.tExitval = 0 ∧ lib.buffered = false
  lines : ∀ l, .line l ∈ lib.output → InMode env l

/-- Nothing is printed before the stream and the mode are set: `tst_print` does not write to a null
stream, and the globals obey the order where the test returns or stops. -/
def InOrder (env : Env) (calls : Calls) : Prop :=
  Outcome (calls.run env) (Lib.initial none) (fun _ lib' => Obeys env lib')
    fun stop lib' => stop ≠ .nullStream ∧ Obeys env lib'

/-- The stream and the mode are set. -/
structure Started (env : Env) (lib : Lib) : Prop where
  tOut : lib.tOut ≠ none
  firstTime : lib.firstTime = false
  tMode : lib.tMode = modeOf env.toutput
  lines : ∀ l, .line l ∈ lib.output → InMode env l

/-- Nothing has been reported. -/
structure Fresh (lib : Lib) : Prop where
  tOut : lib.tOut = none
  firstTime : lib.firstTime = true
  tMode : lib.tMode = .verbose
  output : lib.output = []
  tExitval : lib.tExitval = 0
  buffered : lib.buffered = false

variable {env : Env} {lib lib' : Lib}

theorem Started.obeys (h : Started env lib) : Obeys env lib :=
  ⟨fun hfirst => (Bool.false_ne_true (h.firstTime.symm.trans hfirst)).elim, h.lines⟩

theorem Fresh.obeys (h : Fresh lib) : Obeys env lib :=
  ⟨fun _ => ⟨h.output, h.tExitval, h.buffered⟩, fun l hl => by
    rw [h.output] at hl
    exact absurd hl List.not_mem_nil⟩

/-! ### Once the mode is set -/

/-- A computation that is run behind the first report: it keeps the stream and the mode. -/
abbrev KeepsStarted {α : Type} (env : Env) (m : Run α) : Prop :=
  Keeps (Started env) (fun stop => stop ≠ .nullStream) m

theorem keeps_emit {out : Output} (h : ∀ l, out = .line l → InMode env l) :
    KeepsStarted env (emit out) := by
  intro lib hlib
  refine Outcome.of_ok (emit_run out hlib.tOut)
    ⟨hlib.tOut, hlib.firstTime, hlib.tMode, fun l hl => ?_⟩
  rcases List.mem_append.mp hl with hold | hnew
  · exact hlib.lines l hold
  · exact h l (List.mem_singleton.mp hnew).symm

section Printing

variable {print : Printer} (hprint : ∀ tcid tnum ttype tmesg, KeepsStarted env
  (print tcid tnum ttype tmesg))

include hprint in
theorem keeps_warnMesg (text : CString) : KeepsStarted env (warnMesg env print text) :=
  keeps_ite (fun _ => keeps_throw (by decide)) fun _ => hprint _ _ _ _

include hprint in
theorem keeps_copyOut (filename : CString) (chunks : List (CString × ℕ)) :
    KeepsStarted env (copyOut env print filename chunks) := by
  induction chunks with
  | nil => exact keeps_pure ()
  | cons chunk rest ih =>
    refine Keeps.bind (keeps_emit fun l hl => nomatch hl) fun _ => ?_
    by_cases hshort : chunk.2 ≠ chunk.1.length
    · rw [if_pos hshort]
      exact keeps_warnMesg hprint _
    · rw [if_neg hshort]
      exact ih

include hprint in
theorem keeps_catFile (filename : CString) : KeepsStarted env (catFile env print filename) := by
  refine keeps_get_bind fun lib _ => ?_
  dsimp only
  by_cases hopen : ¬(env.reading lib filename).fopen = true
  · rw [if_pos hopen]
    exact keeps_warnMesg hprint _
  · rw [if_neg hopen]
    refine Keeps.bind (keeps_copyOut hprint _ _) fun _ => ?_
    refine Keeps.bind (keeps_onlyIf fun _ => keeps_warnMesg hprint _) fun _ => ?_
    exact keeps_onlyIf fun _ => keeps_warnMesg hprint _

theorem started_setFile (h : Started env lib) (file : Option CString) :
    Started env (lib.setFile file) :=
  ⟨h.tOut, h.firstTime, h.tMode, h.lines⟩

include hprint in
theorem keeps_printLine (tcid : CString) (tnum : ℤ) (ttype : BitVec 32) (tmesg : CString) :
    KeepsStarted env (printLine env print tcid tnum ttype tmesg) := by
  refine Keeps.bind (keeps_modify fun lib h => ⟨h.tOut, h.firstTime, h.tMode, h.lines⟩) fun _ => ?_
  refine keeps_get_bind fun lib hlib => keeps_onlyIf fun hf => ?_
  refine keeps_get_bind fun lib' hlib' => ?_
  rw [hlib.tMode] at hf
  refine Keeps.bind (keeps_emit fun l hl => ?_) fun _ => Keeps.bind ?_ fun _ =>
    keeps_modify fun lib h => started_setFile h none
  · rw [hlib'.tMode] at hl
    exact ⟨tcid, tnum, ttype, tmesg, (Output.line.inj hl).symm, hf⟩
  · cases lib'.file with
    | none => exact keeps_pure ()
    | some filename => exact keeps_catFile hprint filename

end Printing

theorem keeps_tstPrint (depth : ℕ) (tcid : CString) (tnum : ℤ) (ttype : BitVec 32)
    (tmesg : CString) : KeepsStarted env (tstPrint env depth tcid tnum ttype tmesg) := by
  induction depth generalizing tcid tnum ttype tmesg with
  | zero => exact keeps_printLine (fun _ _ _ _ => keeps_throw (by decide)) tcid tnum ttype tmesg
  | succ depth ih => exact keeps_printLine ih tcid tnum ttype tmesg

theorem keeps_tstCondense (tnum : ℤ) (ttype : BitVec 32) (tmesg : CString) :
    KeepsStarted env (tstCondense env tnum ttype tmesg) := by
  refine keeps_get_bind fun lib hlib => keeps_onlyIf fun _ => ?_
  refine Keeps.bind (keeps_onlyIf fun _ => ?_) fun _ => ?_
  · refine Keeps.bind (keeps_set (started_setFile hlib none)) fun _ => ?_
    refine Keeps.bind (keeps_tstPrint _ _ _ _ _) fun _ => ?_
    exact keeps_modify fun lib' h => started_setFile h lib.file
  · split_ifs
    · refine Keeps.bind (keeps_tstPrint _ _ _ _ _) fun _ => ?_
      exact keeps_modify fun lib h => ⟨h.tOut, h.firstTime, h.tMode, h.lines⟩
    · exact keeps_modify fun lib h => ⟨h.tOut, h.firstTime, h.tMode, h.lines⟩

theorem keeps_tstFlush : KeepsStarted env (tstFlush env) := by
  refine keeps_get_bind fun lib _ => keeps_onlyIf fun _ => ?_
  refine Keeps.bind (keeps_tstPrint _ _ _ _ _) fun _ => ?_
  exact keeps_modify fun lib h => ⟨h.tOut, h.firstTime, h.tMode, h.lines⟩

theorem keeps_tstExit : KeepsStarted env (tstExit env) := by
  refine Keeps.bind keeps_tstFlush fun _ => ?_
  refine keeps_get_bind fun lib hlib => ?_
  refine Keeps.bind (keeps_set ⟨hlib.tOut, hlib.firstTime, hlib.tMode, hlib.lines⟩) fun _ => ?_
  exact keeps_throw (by simp)

theorem keeps_tstResDisplay (ttype : BitVec 32) (tmesg : CString) :
    KeepsStarted env (tstResDisplay env ttype tmesg) := by
  refine keeps_get_bind fun lib _ => ?_
  cases lib.tMode with
  | discard => exact keeps_pure ()
  | nopass => exact keeps_tstCondense _ _ _
  | verbose => exact keeps_tstPrint _ _ _ _ _

/-- **The first half of `tst_res`** sets the stream and the mode. -/
theorem started_tstResBegin (result : BitVec 32) (fname : Option CString)
    (hmode : lib.firstTime = false → lib.tMode = modeOf env.toutput)
    (hlines : ∀ l, .line l ∈ lib.output → InMode env l) :
    Started env (tstResBegin env result fname lib) := by
  have hbegun := begun_tstResBegin env result fname lib
  refine ⟨hbegun.tOut, hbegun.firstTime, hbegun.tMode hmode, ?_⟩
  rw [hbegun.output]
  exact hlines

/-- Behind its first half `tst_res` keeps what is set. -/
theorem tstRes_started (ttype : BitVec 32) (fname : Option CString) {mesg : CString}
    (hmesg : mesg ≠ []) (h : Started env lib ∨ Fresh lib) :
    Outcome (tstRes env ttype fname mesg) lib (fun _ lib' => Started env lib')
      fun stop lib' => stop ≠ .nullStream ∧ Started env lib' := by
  have hbegin : Started env (tstResBegin env (ttypeResult ttype) fname lib) := by
    obtain hstarted | hfresh := h
    · exact started_tstResBegin _ _ (fun _ => hstarted.tMode) hstarted.lines
    · refine started_tstResBegin _ _ (fun hfirst => ?_) (hfresh.obeys).lines
      exact (Bool.false_ne_true (hfirst.symm.trans hfresh.firstTime)).elim
  refine Outcome.bind_of_ok (expandVarArgs_run hmesg) ?_
  refine Outcome.bind_of_ok (EStateM.run_modify _ _) ?_
  split_ifs
  · exact keeps_tstPrint _ _ _ _ _ _ hbegin
  · refine keeps_get_bind (fun lib _ => ?_) _ hbegin
    refine Keeps.bind (keeps_onlyIf fun _ => keeps_tstPrint _ _ _ _ _) fun _ => ?_
    refine Keeps.bind (keeps_tstResDisplay _ _) fun _ => ?_
    exact keeps_modify fun lib h => ⟨h.tOut, h.firstTime, h.tMode, h.lines⟩

theorem keeps_tstRes (ttype : BitVec 32) (fname : Option CString) (mesg : CString) :
    KeepsStarted env (tstRes env ttype fname mesg) := by
  intro lib hlib
  by_cases hmesg : mesg = []
  · subst hmesg
    exact Outcome.of_error (run_bind_of_error expandVarArgs_run_nil) ⟨by decide, hlib⟩
  · exact tstRes_started ttype fname hmesg (.inl hlib)

theorem keeps_runCleanup {func : Run Unit} (hfunc : KeepsStarted env func) :
    KeepsStarted env (runCleanup func) := by
  refine Keeps.bind (keeps_modify fun lib h => ⟨h.tOut, h.firstTime, h.tMode, h.lines⟩) fun _ => ?_
  refine Keeps.bind hfunc fun _ => ?_
  exact keeps_modify fun lib h => ⟨h.tOut, h.firstTime, h.tMode, h.lines⟩

/-- The part of `tst_brk` behind its own report. -/
theorem keeps_afterBreak (ttype : BitVec 32) {func : Option (Run Unit)}
    (hfunc : ∀ f ∈ func, KeepsStarted env f) :
    KeepsStarted env (do
      onlyIf ((← get).tstBrkEntered = 0) <|
        reportRemaining env (ttypeResult ttype) (brkType ttype)
      func.elim (pure ()) runCleanup
      onlyIf ((← get).tstBrkEntered = 0) <| tstExit env) := by
  refine keeps_get_bind fun lib _ => Keeps.bind (keeps_onlyIf fun _ => ?_) fun _ =>
    Keeps.bind ?_ fun _ => keeps_get_bind fun lib _ => keeps_onlyIf fun _ => keeps_tstExit
  · refine keeps_onlyIf fun _ => Keeps.bind
      (keeps_modify fun lib h => ⟨h.tOut, h.firstTime, h.tMode, h.lines⟩) fun _ => ?_
    split_ifs
    all_goals exact keeps_tstRes _ _ _
  · cases func with
    | none => exact keeps_pure ()
    | some f => exact keeps_runCleanup (hfunc f rfl)

/-- `tst_brk` behind the first report. -/
theorem keeps_tstBrk (ttype : BitVec 32) (fname : Option CString) {func : Option (Run Unit)}
    (mesg : CString) (hfunc : ∀ f ∈ func, KeepsStarted env f) :
    KeepsStarted env (tstBrk env ttype fname func mesg) := by
  intro lib hlib
  by_cases hmesg : mesg = []
  · subst hmesg
    exact Outcome.of_error (run_bind_of_error expandVarArgs_run_nil) ⟨by decide, hlib⟩
  · refine Outcome.bind_of_ok (expandVarArgs_run hmesg) ?_
    refine Keeps.bind ?_ (fun _ => keeps_afterBreak ttype hfunc) lib hlib
    exact Keeps.bind (keeps_onlyIf fun _ => keeps_tstPrint _ _ _ _ _) fun _ => keeps_tstRes _ _ _

theorem keeps_tstBrkm (ttype : BitVec 32) {func : Option (Run Unit)} (mesg : CString)
    (hfunc : ∀ f ∈ func, KeepsStarted env f) : KeepsStarted env (tstBrkm env ttype func mesg) :=
  fun lib hlib => Outcome.of_run_eq (tstBrkm_run ttype func mesg lib)
    (keeps_tstBrk ttype none mesg hfunc lib hlib)

theorem keeps_of_mem_none : ∀ f ∈ (none : Option (Run Unit)), KeepsStarted env f :=
  fun f hf => (Option.not_mem_none f hf).elim

theorem keeps_of_mem_some {func : Run Unit} (hfunc : KeepsStarted env func) :
    ∀ f ∈ some func, KeepsStarted env f :=
  fun _ hf => Option.mem_some_iff.mp hf ▸ hfunc

/-- **Once the mode is set** every sequence of calls keeps the stream and the mode, by induction on
the nesting of the cleanup functions. -/
theorem Calls.keeps_started (calls : Calls) : KeepsStarted env (calls.run env) := by
  induction calls with
  | ret => exact keeps_pure ()
  | res ttype fname mesg next ih => exact (keeps_tstRes ttype fname mesg).bind fun _ => ih
  | resm ttype mesg next ih =>
    refine Keeps.bind (fun lib hlib => ?_) fun _ => ih
    exact Outcome.of_run_eq (tstResm_run ttype mesg lib) (keeps_tstRes ttype none mesg lib hlib)
  | brk ttype fname mesg next ih =>
    exact (keeps_tstBrk ttype fname mesg keeps_of_mem_none).bind fun _ => ih
  | brkWith ttype fname mesg func next ihfunc ihnext =>
    exact (keeps_tstBrk ttype fname mesg (keeps_of_mem_some ihfunc)).bind fun _ => ihnext
  | brkm ttype mesg next ih => exact (keeps_tstBrkm ttype mesg keeps_of_mem_none).bind fun _ => ih
  | brkmWith ttype mesg func next ihfunc ihnext =>
    exact (keeps_tstBrkm ttype mesg (keeps_of_mem_some ihfunc)).bind fun _ => ihnext
  | flush next ih => exact keeps_tstFlush.bind fun _ => ih
  | exit next ih => exact keeps_tstExit.bind fun _ => ih

/-! ### The beginning -/

theorem fresh_initial : Fresh (Lib.initial none) := ⟨rfl, rfl, rfl, rfl, rfl, rfl⟩

/-- The end of a test in which everything is in order. -/
abbrev EndsInOrder (env : Env) (m : Run Unit) (lib : Lib) : Prop :=
  Outcome m lib (fun _ lib' => Obeys env lib') fun stop lib' => stop ≠ .nullStream ∧ Obeys env lib'

/-- A first report, and what comes behind it. -/
theorem endsInOrder_of_started {m next : Run Unit}
    (hm : Outcome m lib (fun _ lib' => Started env lib')
      fun stop lib' => stop ≠ .nullStream ∧ Started env lib')
    (hnext : KeepsStarted env next) : EndsInOrder env (m >>= fun _ => next) lib := by
  refine Outcome.bind (hm.mono (fun _ _ => id) fun _ _ h => ⟨h.1, h.2.obeys⟩) fun _ lib' h => ?_
  exact (hnext lib' h).mono (fun _ _ h' => h'.obeys) fun _ _ h' => ⟨h'.1, h'.2.obeys⟩

/-- A call that does not get past its message. -/
theorem endsInOrder_of_assertion {m next : Run Unit} (hm : m.run lib = .error .assertion lib)
    (h : Fresh lib) : EndsInOrder env (m >>= fun _ => next) lib :=
  Outcome.of_error (run_bind_of_error hm) ⟨by decide, h.obeys⟩

theorem tstRes_endsInOrder (ttype : BitVec 32) (fname : Option CString) (mesg : CString)
    {next : Run Unit} (h : Fresh lib) (hnext : KeepsStarted env next) :
    EndsInOrder env (tstRes env ttype fname mesg >>= fun _ => next) lib := by
  by_cases hmesg : mesg = []
  · subst hmesg
    exact endsInOrder_of_assertion (run_bind_of_error expandVarArgs_run_nil) h
  · exact endsInOrder_of_started (tstRes_started ttype fname hmesg (.inr h)) hnext

/-- **A first call of `tst_brk`** is in order if and only if its message is empty or its type is
supported. -/
theorem tstBrk_endsInOrder_iff (ttype : BitVec 32) (fname : Option CString)
    {func : Option (Run Unit)} (mesg : CString) {next : Run Unit} (h : Fresh lib)
    (hfunc : ∀ f ∈ func, KeepsStarted env f) (hnext : KeepsStarted env next) :
    EndsInOrder env (tstBrk env ttype fname func mesg >>= fun _ => next) lib ↔
      mesg = [] ∨ Supported (ttypeResult ttype) := by
  by_cases hmesg : mesg = []
  · subst hmesg
    exact iff_of_true (endsInOrder_of_assertion (run_bind_of_error expandVarArgs_run_nil) h)
      (.inl rfl)
  by_cases hs : Supported (ttypeResult ttype)
  · refine iff_of_true (endsInOrder_of_started ?_ hnext) (.inr hs)
    have hcut : mesg.take (usermesg - 1) ≠ [] := by simpa [usermesg] using hmesg
    refine Outcome.bind_of_ok (expandVarArgs_run hmesg) ?_
    rw [reportBreak, onlyIf_of_neg (not_not_intro hs), pure_bind]
    exact Outcome.bind (tstRes_started _ fname hcut (.inr h)) fun _ lib' h' =>
      keeps_afterBreak ttype hfunc lib' h'
  · refine iff_of_false (fun hends => ?_) (not_or.mpr ⟨hmesg, hs⟩)
    have hrun : (tstBrk env ttype fname func mesg).run lib =
        .error .nullStream (lib.record (ttypeResult twarn)) := by
      rw [tstBrk, run_bind_of_ok (expandVarArgs_run hmesg)]
      refine run_bind_of_error (run_bind_of_error ?_)
      rw [onlyIf_of_pos hs]
      refine tstPrint_run_nullStream _ _ _ _ _ h.tOut ?_
      rw [h.tMode]
      decide
    rw [EndsInOrder, Outcome, run_bind_of_error hrun] at hends
    exact hends.1 rfl

/-- `tst_brkm` is `tst_brk` without a file. -/
theorem tstBrkm_endsInOrder_iff (ttype : BitVec 32) {func : Option (Run Unit)} (mesg : CString)
    {next : Run Unit} (h : Fresh lib) (hfunc : ∀ f ∈ func, KeepsStarted env f)
    (hnext : KeepsStarted env next) :
    EndsInOrder env (tstBrkm env ttype func mesg >>= fun _ => next) lib ↔
      mesg = [] ∨ Supported (ttypeResult ttype) := by
  have hrun : (tstBrkm env ttype func mesg >>= fun _ => next).run lib =
      (tstBrk env ttype none func mesg >>= fun _ => next).run lib := by
    rw [EStateM.run_bind, EStateM.run_bind, tstBrkm_run]
  rw [← tstBrk_endsInOrder_iff ttype none mesg h hfunc hnext]
  exact ⟨Outcome.of_run_eq hrun.symm, Outcome.of_run_eq hrun⟩

/-- Nothing is in the buffer that could be printed. -/
theorem tstFlush_run_of_fresh (h : Fresh lib) : (tstFlush env).run lib = .ok () lib := by
  have hquiet : ¬((lib.buffered = true) ∧ lib.tMode = .nopass) := by
    rw [h.buffered]
    exact fun hb => Bool.false_ne_true hb.1
  refine (run_bind_of_ok (EStateM.run_get lib)).trans ?_
  rw [onlyIf_of_neg hquiet]
  exact EStateM.run_pure () lib

theorem tstExit_endsInOrder {next : Run Unit} (h : Fresh lib) :
    EndsInOrder env (tstExit env >>= fun _ => next) lib := by
  refine Outcome.of_error (run_bind_of_error (run_bind_of_ok (tstFlush_run_of_fresh h))) ?_
  have hlog : Fresh (lib.log (.exit lib.tstBrkEntered)) :=
    ⟨h.tOut, h.firstTime, h.tMode, h.output, h.tExitval, h.buffered⟩
  exact ⟨by simp, hlog.obeys⟩

/-- **Before the first report** the calls are in order if and only if they set the stream and the
mode, by induction on the calls that do nothing. -/
theorem Calls.endsInOrder_iff (calls : Calls) (h : Fresh lib) :
    EndsInOrder env (calls.run env) lib ↔ calls.Initializes := by
  induction calls with
  | ret => exact iff_of_true (Outcome.of_ok (EStateM.run_pure () lib) h.obeys) trivial
  | res ttype fname mesg next =>
    exact iff_of_true (tstRes_endsInOrder ttype fname mesg h next.keeps_started) trivial
  | resm ttype mesg next =>
    refine iff_of_true (Outcome.of_run_eq ?_
      (tstRes_endsInOrder ttype none mesg h next.keeps_started)) trivial
    rw [Calls.run, EStateM.run_bind, EStateM.run_bind, tstResm_run]
  | brk ttype fname mesg next =>
    exact tstBrk_endsInOrder_iff ttype fname mesg h keeps_of_mem_none next.keeps_started
  | brkWith ttype fname mesg func next =>
    exact tstBrk_endsInOrder_iff ttype fname mesg h (keeps_of_mem_some func.keeps_started)
      next.keeps_started
  | brkm ttype mesg next =>
    exact tstBrkm_endsInOrder_iff ttype mesg h keeps_of_mem_none next.keeps_started
  | brkmWith ttype mesg func next =>
    exact tstBrkm_endsInOrder_iff ttype mesg h (keeps_of_mem_some func.keeps_started)
      next.keeps_started
  | flush next ih =>
    rw [Calls.run, EndsInOrder, Outcome, run_bind_of_ok (tstFlush_run_of_fresh h)]
    exact ih
  | exit next => exact iff_of_true (tstExit_endsInOrder h) trivial

variable (env) in
/-- **Nothing is printed before the stream and the mode are set** if and only if the first call that
gets past its message is not one of `tst_brk` with a type that is not supported. -/
theorem inOrder_iff (calls : Calls) : InOrder env calls ↔ calls.Initializes :=
  calls.endsInOrder_iff fresh_initial

/-- A break with the type `TINFO` as the first call. -/
theorem breakInfo_not_inOrder :
    ¬InOrder (fileEnv "test".toList none) (.brkm tinfo ['a'] .ret) := fun h => by
  obtain hmesg | hsupported := (Calls.endsInOrder_iff (.brkm tinfo ['a'] .ret) fresh_initial).mp h
  · exact List.cons_ne_nil _ _ hmesg
  · exact absurd hsupported (by decide)

end SnowballLtp.TstRes
