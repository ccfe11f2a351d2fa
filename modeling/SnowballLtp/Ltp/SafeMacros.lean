import SnowballLtp.Ltp.TstExit
import SnowballLtp.Machine.CInt
import SnowballLtp.Machine.Decimal

/-!
# The safe calls

A function of `safe_macros.c` makes one call of the system and returns its value. When the value
tells of a failure, the function breaks the test by `tst_brkm`, with the cleanup function that it is
given. A test that makes its calls in this way takes no care of failures: it goes on with the values
of the calls, which may decide what it does next, and ends at the first one that fails.

`safe_read` and `safe_write` have an argument that asks for the full length. Their condition takes
every other length as a failure without it, too.

## Main definitions

* `SafeFn`: a function, with its members `safeBasename` to `safeWrite`.
* `Site.call`: a call of one.
* `Test`, `main`: a test that makes such calls.
* `Follows`, `Ended`: how a test goes when the values are given.

## Main results

* `moves_failed_iff`: the argument for the full length has no part.
* `main_ended`: a test ends at the first call that fails, or at its own end.
-/

namespace SnowballLtp.SafeMacros

open SnowballLtp.TstRes

/-! ### The functions -/

/-- A function: its name in the message, and the values that it takes as a failure. A pointer is
given as a number. -/
structure SafeFn where
  name : CString
  failed : ℤ → Bool

/-- A function that compares the value with one value. -/
def failsAt (value : ℤ) (name : String) : SafeFn := ⟨name.toList, fun rval => rval == value⟩

/-- A function that moves `nbyte` bytes, whose number is compared as a `size_t`. -/
def moves (name : String) (lenStrict nbyte : ℤ) : SafeFn :=
  ⟨name.toList, fun rval => (lenStrict == 0 && rval == -1) || (uint64 rval : ℤ) != nbyte⟩

def safeBasename : SafeFn := failsAt 0 "basename"

def safeChdir : SafeFn := failsAt (-1) "chdir"

def safeClose : SafeFn := failsAt (-1) "close"

/-- The message is that of `safe_pipe`. -/
def safeCreat : SafeFn := failsAt (-1) "pipe"

def safeDirname : SafeFn := failsAt 0 "dirname"

def safeGetcwd : SafeFn := failsAt 0 "getcwd"

def safeGetpwnam : SafeFn := failsAt 0 "getpwnam"

def safeGetrusage : SafeFn := failsAt (-1) "getrusage"

def safeMalloc : SafeFn := failsAt 0 "malloc"

def safeMkdir : SafeFn := failsAt (-1) "mkdir"

/-- `MAP_FAILED` is -1. -/
def safeMmap : SafeFn := failsAt (-1) "mmap"

def safeMunmap : SafeFn := failsAt (-1) "munmap"

def safeOpen : SafeFn := failsAt (-1) "open"

def safePipe : SafeFn := failsAt (-1) "pipe"

def safeRead (lenStrict nbyte : ℤ) : SafeFn := moves "read" lenStrict nbyte

def safeSetegid : SafeFn := failsAt (-1) "setegid"

def safeSeteuid : SafeFn := failsAt (-1) "seteuid"

def safeSetgid : SafeFn := failsAt (-1) "setgid"

def safeSetuid : SafeFn := failsAt (-1) "setuid"

def safeUnlink : SafeFn := failsAt (-1) "unlink"

def safeWrite (lenStrict nbyte : ℤ) : SafeFn := moves "write" lenStrict nbyte

/-- **Short transfers.** Whether the full length is asked for or not, every other number of bytes is
a failure. Only the greatest `size_t` is the number -1, too. -/
theorem moves_failed_iff (name : String) (lenStrict : ℤ) {rval nbyte : ℤ} (hlow : -1 ≤ rval)
    (hhigh : rval < 9223372036854775808) (hpos : 0 ≤ nbyte)
    (hnbyte : nbyte < 18446744073709551615) :
    (moves name lenStrict nbyte).failed rval = true ↔ rval ≠ nbyte := by
  simp only [moves, Bool.or_eq_true, Bool.and_eq_true, beq_iff_eq, bne_iff_ne]
  by_cases hrval : rval = -1
  · have hvalue : (uint64 rval : ℤ) ≠ nbyte := by
      rw [uint64]
      omega
    exact iff_of_true (.inr hvalue) (by omega)
  · have hvalue : (uint64 rval : ℤ) = rval := by
      rw [uint64]
      omega
    rw [hvalue, or_iff_right fun h => hrval h.2]

/-! ### The calls -/

/-- A call in the source. -/
structure Site where
  fn : SafeFn
  file : CString
  lineno : ℤ
  cleanupFn : Option Program

/-- The message. -/
def Site.text (site : Site) : CString :=
  site.fn.name ++ " failed at ".toList ++ site.file ++ ":".toList ++ decimal site.lineno

/-- A process: the library, and the values that the system has given. -/
structure Process where
  lib : Lib
  given : List ℤ

abbrev Main := EStateM Stop Process

/-- A call into the library. -/
def inLib {α : Type} (m : Run α) : Main α := onPart Process.lib (fun p lib => { p with lib }) id m

/-- A test: the calls of `tst_resm` and the safe calls, whose values may decide what comes next. -/
inductive Test where
  | ret
  | resm (ttype : BitVec 32) (mesg : CString) (next : Test)
  | call (site : Site) (next : ℤ → Test)

section Runs

variable (env : Env) (kernel : List ℤ → ℤ)

/-- A call. The value may depend on those before. -/
def Site.call (site : Site) : Main ℤ := do
  let p ← get
  let rval := kernel p.given
  set { p with given := p.given ++ [rval] }
  onlyIf (site.fn.failed rval)
    (inLib (tstBrkm env (tbrok ||| terrno) (site.cleanupFn.map (Program.run env)) site.text))
  pure rval

def Test.run : Test → Main Unit
  | .ret => pure ()
  | .resm ttype mesg next => do
    inLib (tstResm env ttype mesg)
    next.run
  | .call site next => do
    let rval ← site.call env kernel
    (next rval).run

/-- The test, and `tst_exit`. -/
def main (test : Test) : Main Unit := do
  test.run env kernel
  inLib (tstExit env)

/-- No message of the cleanup function is empty, and no file makes trouble. -/
def Site.Sound (site : Site) : Prop :=
  ∀ program ∈ site.cleanupFn, program.Forall fun fname mesg => Untroubled env fname ∧ mesg ≠ []

/-- No message is empty, and no file makes trouble. -/
def Test.Sound : Test → Prop
  | .ret => True
  | .resm _ mesg next => mesg ≠ [] ∧ next.Sound
  | .call site next => site.Sound env ∧ ∀ rval, (next rval).Sound

/-- The test gets to a place by calls that succeed, making reports on the way. -/
inductive Follows : List ℤ → Test → List (BitVec 32) → List ℤ → Test → Prop
  | here {given : List ℤ} {test : Test} : Follows given test [] given test
  | resm {given given' : List ℤ} {ttype : BitVec 32} {mesg : CString} {next rest : Test}
      {reports : List (BitVec 32)} (h : Follows given next reports given' rest) :
      Follows given (.resm ttype mesg next) (ttypeResult ttype :: reports) given' rest
  | call {given given' : List ℤ} {site : Site} {next : ℤ → Test} {rest : Test}
      {reports : List (BitVec 32)} (hsucceeds : ¬site.fn.failed (kernel given))
      (h : Follows (given ++ [kernel given]) (next (kernel given)) reports given' rest) :
      Follows given (.call site next) reports given' rest

/-- How a test ends: what it has reported, the events of the library, and the values. -/
inductive Ended (given : List ℤ) (test : Test) : List (BitVec 32) → List Event → List ℤ → Prop
  | returned {reports : List (BitVec 32)} {given' : List ℤ}
      (h : Follows kernel given test reports given' .ret) :
      Ended given test reports (reports.map .report ++ [.exit 0]) given'
  | failed {reports : List (BitVec 32)} {given' : List ℤ} {site : Site} {next : ℤ → Test}
      (h : Follows kernel given test reports given' (.call site next))
      (hfails : site.fn.failed (kernel given')) :
      Ended given test (reports ++ tbrok :: cleanupTypes site.cleanupFn)
        (reports.map .report ++ (.report tbrok :: [.remaining, .report tbrok] ++
          cleanupEvents site.cleanupFn ++ [.exit 0]))
        (given' ++ [kernel given'])

end Runs

variable {env : Env} {kernel : List ℤ → ℤ} {p : Process} {site : Site} {next : ℤ → Test}

/-! ### A call -/

theorem text_ne_nil (site : Site) : site.text ≠ [] := by
  rw [Site.text]
  simp

theorem outcome_inLib {α : Type} {m : Run α} {returns : α → Lib → Prop} {stops : Stop → Lib → Prop}
    (h : Outcome m p.lib returns stops) :
    Outcome (inLib m) p (fun a p' => p'.given = p.given ∧ returns a p'.lib) fun stop p' =>
      p'.given = p.given ∧ stops stop p'.lib :=
  h.onPart.mono (fun _ _ ⟨_, heq, h⟩ => heq ▸ ⟨rfl, h⟩)
    fun _ _ ⟨_, _, hstop, heq, h⟩ => heq ▸ hstop ▸ ⟨rfl, h⟩

/-- How a process exits with the collected status. -/
def Exits (env : Env) (types : List (BitVec 32)) (events : List Event) (lib : Lib) (stop : Stop)
    (lib' : Lib) : Prop :=
  stop = .exit (lib'.tExitval &&& ~~~(tretr ||| tinfo ||| tconf)) ∧
    Advance env (union types) events lib lib'

theorem tstBrkm_exits {lib : Lib} (hsite : site.Sound env) (hfile : Untroubled env lib.file)
    (hentered : lib.tstBrkEntered = 0) :
    Outcome (tstBrkm env (tbrok ||| terrno) (site.cleanupFn.map (Program.run env)) site.text) lib
      (fun _ _ => False) (Exits env (tbrok :: cleanupTypes site.cleanupFn)
        (.report tbrok :: [.remaining, .report tbrok] ++ cleanupEvents site.cleanupFn ++ [.exit 0])
        lib) := by
  have hfiles : ∀ program ∈ site.cleanupFn, program.Forall fun fname _ => Untroubled env fname :=
    fun program hmem => (hsite program hmem).mono fun _ _ h => h.1
  have hmesgs : ∀ program ∈ site.cleanupFn, program.Forall fun _ mesg => mesg ≠ [] :=
    fun program hmem => (hsite program hmem).mono fun _ _ h => h.2
  refine Outcome.of_run_eq (tstBrkm_run _ _ _ lib) ((tstBrk_outermost _ site.text
    (cleansUp_program hfiles) (.inl rfl) hfile hentered).mono (fun _ _ => id) fun stop lib' h => ?_)
  obtain ⟨hexit, hall⟩ :=
    h.resolve_right fun h => h.2 ⟨text_ne_nil site, .inr (by decide), hmesgs⟩
  exact ⟨hexit, hall⟩

/-- A call returns when it succeeds, and exits when it fails. -/
theorem call_outcome (hsite : site.Sound env) (hfile : Untroubled env p.lib.file)
    (hentered : p.lib.tstBrkEntered = 0) :
    Outcome (site.call env kernel) p
      (fun rval p' => rval = kernel p.given ∧ ¬site.fn.failed (kernel p.given) ∧
        p' = { p with given := p.given ++ [kernel p.given] })
      fun stop p' => site.fn.failed (kernel p.given) ∧ p'.given = p.given ++ [kernel p.given] ∧
        Exits env (tbrok :: cleanupTypes site.cleanupFn)
          (.report tbrok :: [.remaining, .report tbrok] ++ cleanupEvents site.cleanupFn ++
            [.exit 0]) p.lib stop p'.lib := by
  refine Outcome.bind_of_ok (EStateM.run_get p) (Outcome.bind_of_ok (EStateM.run_set _ _) ?_)
  by_cases hfails : site.fn.failed (kernel p.given)
  · rw [onlyIf_of_pos hfails]
    refine Outcome.bind ((@outcome_inLib ⟨p.lib, p.given ++ [kernel p.given]⟩ _ _ _ _
      (tstBrkm_exits hsite hfile hentered)).mono (fun _ _ => id) fun _ _ h => ⟨hfails, h⟩)
      fun _ _ h => h.2.elim
  · rw [onlyIf_of_neg hfails]
    exact Outcome.bind_of_ok (EStateM.run_pure _ _)
      (Outcome.of_ok (EStateM.run_pure _ _) ⟨rfl, hfails, rfl⟩)

/-! ### A test -/

variable {given given' : List ℤ} {types : List (BitVec 32)} {events : List Event}

theorem Ended.resm {ttype : BitVec 32} {mesg : CString} {next : Test}
    (h : Ended kernel given next types events given') :
    Ended kernel given (.resm ttype mesg next) (ttypeResult ttype :: types)
      (.report (ttypeResult ttype) :: events) given' := by
  cases h with
  | returned h => exact .returned h.resm
  | failed h hfails => exact .failed h.resm hfails

theorem Ended.call (hsucceeds : ¬site.fn.failed (kernel given))
    (h : Ended kernel (given ++ [kernel given]) (next (kernel given)) types events given') :
    Ended kernel given (.call site next) types events given' := by
  cases h with
  | returned h => exact .returned (h.call hsucceeds)
  | failed h hfails => exact .failed (h.call hsucceeds) hfails

/-- A test from any state, by induction on what is left of it. -/
theorem main_exits {test : Test} (hsound : test.Sound env) (hfile : Untroubled env p.lib.file)
    (hentered : p.lib.tstBrkEntered = 0) (hout : p.lib.tOut ≠ none ∨ p.lib.buffered = false) :
    Outcome (main env kernel test) p (fun _ _ => False) fun stop p' => ∃ types events,
      Ended kernel p.given test types events p'.given ∧
        Exits env types events p.lib stop p'.lib := by
  induction test generalizing p with
  | ret =>
    refine Outcome.bind_of_ok (EStateM.run_pure _ _) ?_
    refine (outcome_inLib (tstExit_advance hout hfile)).mono (fun _ _ h => h.2) fun stop p' h => ?_
    obtain ⟨hgiven, hadvance, hexit⟩ := h
    rw [hentered] at hadvance
    rw [hgiven]
    exact ⟨_, _, .returned .here, hexit, hadvance⟩
  | resm ttype mesg next ih =>
    rw [main, Test.run, bind_assoc]
    have hreport := Outcome.of_run_eq (tstResm_run ttype mesg p.lib)
      (tstRes_advance ttype mesg (.inl rfl) hfile)
    refine Outcome.bind ((outcome_inLib hreport).mono (fun _ _ => id)
      fun _ _ h => absurd h.2.2 hsound.1) fun _ p₁ h₁ => ?_
    obtain ⟨hgiven, hadvance, hout₁⟩ := h₁
    refine (ih hsound.2 (hadvance.file hfile) (hadvance.entered.trans hentered) (.inl hout₁)).mono
      (fun _ _ => id) fun stop p' h => ?_
    obtain ⟨types, events, hended, hexit, hrest⟩ := h
    rw [hgiven] at hended
    exact ⟨_, _, hended.resm, hexit, hadvance.trans hrest⟩
  | call site next ih =>
    rw [main, Test.run, bind_assoc]
    refine Outcome.bind ((call_outcome hsound.1 hfile hentered).mono (fun _ _ => id)
      fun stop p' h => ?_) fun rval p₁ h₁ => ?_
    · obtain ⟨hfails, hgiven, hexits⟩ := h
      rw [hgiven]
      exact ⟨_, _, .failed .here hfails, hexits⟩
    · obtain ⟨rfl, hsucceeds, rfl⟩ := h₁
      refine (@ih (kernel p.given) ⟨p.lib, p.given ++ [kernel p.given]⟩ (hsound.2 _) hfile hentered
        hout).mono (fun _ _ => id) fun stop p' h => ?_
      obtain ⟨types, events, hended, hexits⟩ := h
      exact ⟨_, _, hended.call hsucceeds, hexits⟩

theorem masked_cleanupTypes (func : Option Program) : Masked (cleanupTypes func) := by
  cases func with
  | none => exact masked_nil
  | some program => exact program.masked_types

theorem Follows.masked {test rest : Test} {reports : List (BitVec 32)}
    (h : Follows kernel given test reports given' rest) : Masked reports := by
  induction h with
  | here => exact masked_nil
  | resm _ ih => exact (masked_singleton _).append ih
  | call _ _ ih => exact ih

theorem Ended.masked {test : Test} (h : Ended kernel given test types events given') :
    Masked types := by
  cases h with
  | returned h => exact h.masked
  | failed h _ => exact h.masked.append ((masked_singleton tbrok).append (masked_cleanupTypes _))

/-- **The first failure.** Whatever values the system gives, a test that makes its calls by these
functions makes them up to the first one that fails, and none behind it. When one fails, the test
reports `TBROK` for its case and for the remaining ones, the cleanup function of this call runs to
its end, once, and the process exits. When none fails, the test gets to its end. The status tells
what was reported. -/
theorem main_ended (kernel : List ℤ → ℤ) {test : Test} (hsound : test.Sound env) :
    Outcome (main env kernel test) ⟨.initial none, []⟩ (fun _ _ => False) fun stop p =>
      ∃ types events, Ended kernel [] test types events p.given ∧
        stop = .exit (union types &&& failureMask) ∧ p.lib.trace = events := by
  refine (main_exits hsound (.inl rfl) rfl (.inr rfl)).mono (fun _ _ => id) fun stop p h => ?_
  obtain ⟨types, events, hended, rfl, hall⟩ := h
  obtain ⟨extra, heq, hzero⟩ := hall.exitval
  have hexitval : p.lib.tExitval = union types := by
    rw [heq, hzero (regular_initial none)]
    simp [Lib.initial]
  refine ⟨types, events, hended, ?_, hall.trace⟩
  rw [hexitval, and_not_eq_and_failureMask hended.masked.union_and]

/-- A test that opens a file and closes it. -/
def openTest : Test :=
  .call ⟨safeOpen, "gyr.c".toList, 50, some (.resm tinfo ['a'] .ret)⟩ fun fd =>
    .resm tpass ['b'] (.call ⟨safeClose, "gyr.c".toList, 52, none⟩ fun _ =>
      if fd = 0 then .ret else .resm tfail ['c'] .ret)

/-- The file opens, and does not close. -/
def noClose (given : List ℤ) : ℤ := if given = [] then 3 else -1

theorem main_ended_openTest : Outcome (main (plainEnv none) noClose openTest) ⟨.initial none, []⟩
    (fun _ _ => False) fun stop p => ∃ types events,
      Ended noClose [] openTest types events p.given ∧
        stop = .exit (union types &&& failureMask) ∧ p.lib.trace = events := by
  refine main_ended noClose ⟨?_, fun fd => ⟨by decide, ?_, fun _ => ?_⟩⟩
  · rintro program hmem
    obtain rfl := Option.some.inj hmem
    exact ⟨⟨.inl rfl, by decide⟩, trivial⟩
  · exact fun _ hmem => absurd hmem (Option.not_mem_none _)
  · split_ifs
    · trivial
    · exact ⟨by decide, trivial⟩

end SnowballLtp.SafeMacros
