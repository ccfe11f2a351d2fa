import SnowballLtp.Ltp.TstAdvance

/-!
# The exit status

A test is a sequence of calls of `tst_res`, `tst_resm` and `tst_brk`, where each call of `tst_brk`
is given `NULL` or a cleanup function that is itself such a sequence, to any depth. A call of
`tst_brk` outside the cleanup functions ends the process, and the calls behind it are not made.
A call inside a cleanup function returns.

The status that the process exits with is the union of the types of all results that were
reported, restricted to `TFAIL`, `TBROK` and `TWARN`. The output mode has no part in it.

## Main definitions

* `Program`, `Program.run`, `session`.
* `Program.types`, `Program.events`: what a program reports inside a cleanup function.
* `Program.reported`: what it reports as a test.

## Main results

* `Program.cleans`: a program run as a cleanup function returns, by induction on the nesting.
* `session_status`: the exit status of a test.
* `tstBrk_runs_cleanup`: what an outermost call of `tst_brk` does, in order.
-/

namespace SnowballLtp.TstRes

/-- The calls of a test or of a cleanup function, in order. -/
inductive Program where
  | ret
  | res (ttype : BitVec 32) (fname : Option CString) (mesg : CString) (next : Program)
  | resm (ttype : BitVec 32) (mesg : CString) (next : Program)
  /-- `tst_brk` with `NULL` for its cleanup function. -/
  | brk (ttype : BitVec 32) (fname : Option CString) (mesg : CString) (next : Program)
  /-- `tst_brk` with a cleanup function. -/
  | brkWith (ttype : BitVec 32) (fname : Option CString) (mesg : CString) (func next : Program)
  deriving DecidableEq, Repr

/-- The types that `tst_brk` reports: an unsupported one counts as `TBROK`, with a warning. -/
def breakTypes (ttype : BitVec 32) : List (BitVec 32) :=
  if Supported (ttypeResult ttype) then [ttypeResult ttype] else [twarn, tbrok]

/-- The types of the report of the remaining cases. -/
def remainingTypes (ttype : BitVec 32) : List (BitVec 32) :=
  if ttypeResult ttype = tconf ∨ ttypeResult ttype = tretr ∨ ttypeResult ttype = tbrok then
    [ttypeResult ttype]
  else []

namespace Program

/-- The calls are made one after the other. -/
def run (env : Env) : Program → Run Unit
  | ret => pure ()
  | res ttype fname mesg next => do
    tstRes env ttype fname mesg
    next.run env
  | resm ttype mesg next => do
    tstResm env ttype mesg
    next.run env
  | brk ttype fname mesg next => do
    tstBrk env ttype fname none mesg
    next.run env
  | brkWith ttype fname mesg func next => do
    tstBrk env ttype fname (some (func.run env)) mesg
    next.run env

/-- The types reported by a cleanup function. -/
def types : Program → List (BitVec 32)
  | ret => []
  | res ttype _ _ next => ttypeResult ttype :: next.types
  | resm ttype _ next => ttypeResult ttype :: next.types
  | brk ttype _ _ next => breakTypes ttype ++ next.types
  | brkWith ttype _ _ func next => breakTypes ttype ++ func.types ++ next.types

/-- The events in a cleanup function. -/
def events : Program → List Event
  | ret => []
  | res ttype _ _ next => .report (ttypeResult ttype) :: next.events
  | resm ttype _ next => .report (ttypeResult ttype) :: next.events
  | brk ttype _ _ next => .report (ttypeResult (brkType ttype)) :: next.events
  | brkWith ttype _ _ func next =>
    .report (ttypeResult (brkType ttype)) :: .cleanup :: (func.events ++ [.cleanedUp]) ++
      next.events

/-- The types reported by a test, up to its exit. -/
def reported : Program → List (BitVec 32)
  | ret => []
  | res ttype _ _ next => ttypeResult ttype :: next.reported
  | resm ttype _ next => ttypeResult ttype :: next.reported
  | brk ttype _ _ _ => breakTypes ttype ++ remainingTypes ttype
  | brkWith ttype _ _ func _ => breakTypes ttype ++ remainingTypes ttype ++ func.types

/-- A property of the file and the message of every call. -/
def Forall (p : Option CString → CString → Prop) : Program → Prop
  | ret => True
  | res _ fname mesg next => p fname mesg ∧ next.Forall p
  | resm _ mesg next => p none mesg ∧ next.Forall p
  | brk _ fname mesg next => p fname mesg ∧ next.Forall p
  | brkWith _ fname mesg func next => p fname mesg ∧ func.Forall p ∧ next.Forall p

end Program

/-- A test: the calls, and `tst_exit` if none of them exits. -/
def session (env : Env) (program : Program) : Run Unit := do
  program.run env
  tstExit env

/-- The bits of all types of a list. -/
def union (types : List (BitVec 32)) : BitVec 32 := types.foldr (· ||| ·) 0#32

@[simp] theorem union_nil : union [] = 0#32 := rfl

@[simp] theorem union_cons (ttype : BitVec 32) (types : List (BitVec 32)) :
    union (ttype :: types) = ttype ||| union types := rfl

@[simp] theorem union_append (types more : List (BitVec 32)) :
    union (types ++ more) = union types ||| union more := by
  induction types with
  | nil => simp
  | cons ttype types ih => rw [List.cons_append, union_cons, union_cons, ih, BitVec.or_assoc]

@[simp] theorem union_breakTypes (ttype : BitVec 32) :
    union (breakTypes ttype) = breakBits ttype := by
  rw [breakTypes, breakBits]
  split_ifs <;> simp

@[simp] theorem union_remainingTypes (ttype : BitVec 32) :
    union (remainingTypes ttype) = remainingBits (ttypeResult ttype) := by
  rw [remainingTypes, remainingBits]
  split_ifs <;> simp

variable {env : Env} {lib lib' lib'' : Lib} {bits more : BitVec 32} {events later : List Event}

/-! ### Cleanup functions -/

/-- Two parts of a cleanup function. -/
theorem Cleans.bind {sound sound' : Prop} {func next : Run Unit}
    (h : Cleans env sound bits events func) (h' : Cleans env sound' more later next) :
    Cleans env (sound ∧ sound') (bits ||| more) (events ++ later) (func >>= fun _ => next) := by
  intro lib hready hentered
  refine Outcome.bind ((h lib hready hentered).mono (fun _ _ => id)
    fun _ _ h => ⟨h.1, fun hs => h.2 hs.1⟩) fun _ lib₁ h₁ => ?_
  refine (h' lib₁ (h₁.ready hready) (by rw [h₁.entered]; exact hentered)).mono
    (fun _ _ h₂ => h₁.trans h₂) fun _ _ h => ⟨h.1, fun hs => h.2 hs.2⟩

theorem cleans_tstRes (ttype : BitVec 32) {fname : Option CString} (mesg : CString)
    (hfname : Untroubled env fname) :
    Cleans env (mesg ≠ []) (ttypeResult ttype) [.report (ttypeResult ttype)]
      (tstRes env ttype fname mesg) :=
  fun _ hready _ => (tstRes_advance ttype mesg hfname hready.file).mono (fun _ _ h => h.1)
    fun _ _ h => ⟨.inl h.1, fun hm => hm h.2⟩

theorem cleans_tstResm (ttype : BitVec 32) (mesg : CString) :
    Cleans env (mesg ≠ []) (ttypeResult ttype) [.report (ttypeResult ttype)]
      (tstResm env ttype mesg) := by
  intro lib hready hentered
  rw [Outcome, tstResm_run]
  exact cleans_tstRes ttype mesg (.inl rfl) lib hready hentered

theorem cleans_tstBrk {sound : Prop} {func : Option (Run Unit)} (ttype : BitVec 32)
    {fname : Option CString} (mesg : CString) (hfunc : CleansUp env sound bits events func)
    (hfname : Untroubled env fname) :
    Cleans env (mesg ≠ [] ∧ sound) (breakBits ttype ||| bits)
      (.report (ttypeResult (brkType ttype)) :: events) (tstBrk env ttype fname func mesg) :=
  fun _ hready hentered => tstBrk_nested ttype mesg hfunc hfname hready hentered

/-- **Cleanup functions return.** A program run as a cleanup function reports all its results and
returns, whatever calls of `tst_brk` it makes, if no message is empty. -/
theorem Program.cleans {program : Program}
    (hfile : program.Forall fun fname _ => Untroubled env fname) :
    Cleans env (program.Forall fun _ mesg => mesg ≠ []) (union program.types) program.events
      (program.run env) := by
  induction program with
  | ret => exact fun lib _ _ => Outcome.of_ok (EStateM.run_pure _ _) (Advance.refl env lib)
  | res ttype fname mesg next ih =>
    exact (cleans_tstRes ttype mesg hfile.1).bind (ih hfile.2)
  | resm ttype mesg next ih =>
    exact (cleans_tstResm ttype mesg).bind (ih hfile.2)
  | brk ttype fname mesg next ih =>
    have hall := (cleans_tstBrk ttype mesg (cleansUp_none env True) hfile.1).bind (ih hfile.2)
    simpa only [and_true, BitVec.or_zero, Forall, run, types, events, union_append,
      union_breakTypes, List.cons_append, List.nil_append] using hall
  | brkWith ttype fname mesg func next ihfunc ihnext =>
    have hall := (cleans_tstBrk ttype mesg (ihfunc hfile.2.1).cleansUp hfile.1).bind
      (ihnext hfile.2.2)
    simpa only [and_assoc, Forall, run, types, events, union_append, union_breakTypes] using hall

/-! ### Tests -/

/-- Whether the first call of a test sets the stream before it prints. -/
def Program.SetsStream : Program → Prop
  | .brk ttype _ _ _ => Supported (ttypeResult ttype)
  | .brkWith ttype _ _ _ _ => Supported (ttypeResult ttype)
  | _ => True

/-- The bits of the types that make an exit status. -/
def failureMask : BitVec 32 := tfail ||| tbrok ||| twarn

theorem Program.Forall.mono {p q : Option CString → CString → Prop} {program : Program}
    (h : program.Forall p) (hpq : ∀ fname mesg, p fname mesg → q fname mesg) :
    program.Forall q := by
  induction program with
  | ret => trivial
  | res ttype fname mesg next ih => exact ⟨hpq _ _ h.1, ih h.2⟩
  | resm ttype mesg next ih => exact ⟨hpq _ _ h.1, ih h.2⟩
  | brk ttype fname mesg next ih => exact ⟨hpq _ _ h.1, ih h.2⟩
  | brkWith ttype fname mesg func next ihfunc ihnext =>
    exact ⟨hpq _ _ h.1, ihfunc h.2.1, ihnext h.2.2⟩

/-- When a test goes well: no message is empty, and the stream is set before something is
printed. -/
def Program.Sound (program : Program) (tOut : Option Stream) : Prop :=
  (program.Forall fun _ mesg => mesg ≠ []) ∧ (tOut ≠ none ∨ program.SetsStream)

/-- How a test ends from a state: it exits with what was collected, or it was not sound. -/
def Ends (env : Env) (types : List (BitVec 32)) (sound : Prop) (lib : Lib) (stop : Stop)
    (lib' : Lib) : Prop :=
  (stop = .exit (lib'.tExitval &&& ~~~(tretr ||| tinfo ||| tconf)) ∧
    ∃ events, Advance env (union types) events lib lib') ∨
  stop.IsFault ∧ ¬sound

/-- A report is made, and the rest of the test runs to its end. -/
private theorem report_ends {report : Run Unit} {ttype : BitVec 32} {fname : Option CString}
    {mesg : CString} {next : Program} {sound : Prop}
    (hreport : report.run lib = (tstRes env ttype fname mesg).run lib)
    (hfname : Untroubled env fname) (hlib : Untroubled env lib.file)
    (hsound : sound → mesg ≠ [] ∧ next.Forall fun _ mesg => mesg ≠ [])
    (hnext : ∀ {lib' : Lib}, Untroubled env lib'.file →
      lib'.tstBrkEntered = lib.tstBrkEntered → lib'.tOut ≠ none →
      Outcome (session env next) lib' (fun _ _ => False)
        (Ends env next.reported (next.Sound lib'.tOut) lib')) :
    Outcome (report >>= fun _ => session env next) lib (fun _ _ => False)
      (Ends env (ttypeResult ttype :: next.reported) sound lib) := by
  refine Outcome.bind ((Outcome.of_run_eq hreport (tstRes_advance ttype mesg hfname hlib)).mono
    (fun _ _ => id) fun _ _ h => .inr ⟨.inl h.1, fun hs => (hsound hs).1 h.2⟩) fun _ lib₁ h₁ => ?_
  refine (hnext (h₁.1.file hlib) h₁.1.entered h₁.2).mono (fun _ _ => id) fun stop lib₂ h₂ => ?_
  obtain ⟨hexit, events, hall⟩ | ⟨hfault, hunsound⟩ := h₂
  · exact .inl ⟨hexit, _, h₁.1.trans hall⟩
  · exact .inr ⟨hfault, fun hs => hunsound ⟨(hsound hs).2, .inl h₁.2⟩⟩

/-- A test exits, and its status has the bits of all types it reports. -/
theorem session_ends {program : Program}
    (hfile : program.Forall fun fname _ => Untroubled env fname)
    (hlib : Untroubled env lib.file) (hentered : lib.tstBrkEntered = 0)
    (hout : lib.tOut ≠ none ∨ lib.buffered = false) :
    Outcome (session env program) lib (fun _ _ => False)
      (Ends env program.reported (program.Sound lib.tOut) lib) := by
  induction program generalizing lib with
  | ret =>
    refine Outcome.bind_of_ok (EStateM.run_pure _ _) ?_
    exact (tstExit_advance hout hlib).mono (fun _ _ => id) fun _ _ h => .inl ⟨h.2, _, h.1⟩
  | res ttype fname mesg next ih =>
    rw [session, Program.run, bind_assoc]
    exact report_ends rfl hfile.1 hlib (fun hs => hs.1) fun hlib' hentered' hout' =>
      ih hfile.2 hlib' (hentered'.trans hentered) (.inl hout')
  | resm ttype mesg next ih =>
    rw [session, Program.run, bind_assoc]
    exact report_ends (tstResm_run ttype mesg lib) hfile.1 hlib (fun hs => hs.1)
      fun hlib' hentered' hout' => ih hfile.2 hlib' (hentered'.trans hentered) (.inl hout')
  | brk ttype fname mesg next ih =>
    rw [session, Program.run, bind_assoc]
    have hbrk := tstBrk_outermost ttype mesg (cleansUp_none env True) hfile.1 hlib hentered
    refine Outcome.bind (hbrk.mono (fun _ _ => id) fun _ _ h => ?_) fun _ _ => False.elim
    obtain ⟨hexit, hall⟩ | ⟨hfault, hsound⟩ := h
    · rw [BitVec.or_zero] at hall
      refine .inl ⟨hexit, ?_⟩
      rw [Program.reported, union_append, union_breakTypes, union_remainingTypes]
      exact ⟨_, hall⟩
    · exact .inr ⟨hfault, fun hs => hsound ⟨hs.1.1, hs.2, trivial⟩⟩
  | brkWith ttype fname mesg func next ihfunc ihnext =>
    rw [session, Program.run, bind_assoc]
    have hbrk := tstBrk_outermost ttype mesg (Program.cleans hfile.2.1).cleansUp hfile.1 hlib
      hentered
    refine Outcome.bind (hbrk.mono (fun _ _ => id) fun _ _ h => ?_) fun _ _ => False.elim
    obtain ⟨hexit, hall⟩ | ⟨hfault, hsound⟩ := h
    · refine .inl ⟨hexit, ?_⟩
      rw [Program.reported, union_append, union_append, union_breakTypes, union_remainingTypes]
      exact ⟨_, hall⟩
    · exact .inr ⟨hfault, fun hs => hsound ⟨hs.1.1, hs.2, hs.1.2.1⟩⟩

/-! ### The status -/

/-- The types have no flags. -/
def Masked (types : List (BitVec 32)) : Prop := ∀ ttype ∈ types, ttype &&& ttypeMask = ttype

theorem masked_nil : Masked [] := fun _ h => absurd h List.not_mem_nil

theorem Masked.append {types more : List (BitVec 32)} (h : Masked types) (h' : Masked more) :
    Masked (types ++ more) :=
  fun ttype hmem => (List.mem_append.mp hmem).elim (h ttype) (h' ttype)

theorem masked_singleton (ttype : BitVec 32) : Masked [ttypeResult ttype] := by
  intro other hmem
  rw [List.mem_singleton.mp hmem]
  exact ttypeResult_ttypeResult ttype

theorem masked_breakTypes (ttype : BitVec 32) : Masked (breakTypes ttype) := by
  rw [breakTypes]
  split_ifs
  · exact masked_singleton ttype
  · exact (masked_singleton twarn).append (masked_singleton tbrok)

theorem masked_remainingTypes (ttype : BitVec 32) : Masked (remainingTypes ttype) := by
  rw [remainingTypes]
  split_ifs
  · exact masked_singleton ttype
  · exact masked_nil

theorem Program.masked_types (program : Program) : Masked program.types := by
  induction program with
  | ret => exact masked_nil
  | res ttype fname mesg next ih => exact (masked_singleton ttype).append ih
  | resm ttype mesg next ih => exact (masked_singleton ttype).append ih
  | brk ttype fname mesg next ih => exact (masked_breakTypes ttype).append ih
  | brkWith ttype fname mesg func next ihfunc ihnext =>
    exact ((masked_breakTypes ttype).append ihfunc).append ihnext

theorem Program.masked_reported (program : Program) : Masked program.reported := by
  induction program with
  | ret => exact masked_nil
  | res ttype fname mesg next ih => exact (masked_singleton ttype).append ih
  | resm ttype mesg next ih => exact (masked_singleton ttype).append ih
  | brk ttype fname mesg next ih =>
    exact (masked_breakTypes ttype).append (masked_remainingTypes ttype)
  | brkWith ttype fname mesg func next ihfunc ihnext =>
    exact ((masked_breakTypes ttype).append (masked_remainingTypes ttype)).append func.masked_types

theorem Masked.union_and {types : List (BitVec 32)} (h : Masked types) :
    union types &&& ttypeMask = union types := by
  induction types with
  | nil => exact BitVec.zero_and
  | cons ttype types ih =>
    rw [union_cons, BitVec.and_or_distrib_right, h ttype List.mem_cons_self,
      ih fun other hmem => h other (List.mem_cons_of_mem _ hmem)]

/-- On the bits of result types the mask of `tst_exit` leaves those of failures. -/
theorem and_not_eq_and_failureMask {bits : BitVec 32} (h : bits &&& ttypeMask = bits) :
    bits &&& ~~~(tretr ||| tinfo ||| tconf) = bits &&& failureMask := by
  have hmask : ttypeMask &&& ~~~(tretr ||| tinfo ||| tconf) = ttypeMask &&& failureMask := by
    decide
  rw [← h, BitVec.and_assoc, BitVec.and_assoc, hmask]

theorem union_and_eq_zero_iff (types : List (BitVec 32)) (mask : BitVec 32) :
    union types &&& mask = 0#32 ↔ ∀ ttype ∈ types, ttype &&& mask = 0#32 := by
  induction types with
  | nil => simp
  | cons ttype types ih =>
    rw [union_cons, BitVec.and_or_distrib_right, BitVec.or_eq_zero_iff, ih, List.forall_mem_cons]

theorem regular_initial (tOut : Option Stream) : (Lib.initial tOut).Regular :=
  ⟨Int.le_refl 0, fun hb => absurd hb Bool.false_ne_true⟩

/-- How a test ends that starts with the program. -/
private theorem status_of_ends {tOut : Option Stream} {program : Program} {stop : Stop}
    (h : Ends env program.reported (program.Sound tOut) (Lib.initial tOut) stop lib') :
    stop = .exit (union program.reported &&& failureMask) ∨
      stop.IsFault ∧ ¬program.Sound tOut := by
  refine h.imp_left fun hexit => ?_
  obtain ⟨rfl, events, hall⟩ := hexit
  obtain ⟨extra, heq, hzero⟩ := hall.exitval
  rw [heq, hzero (regular_initial tOut), and_not_eq_and_failureMask]
  · simp [Lib.initial]
  · simpa [Lib.initial] using program.masked_reported.union_and

/-- **The exit status.** Whatever is in `TOUTPUT`, a test that exits passes to `exit` the union of
the types of all results it reported, restricted to `TFAIL`, `TBROK` and `TWARN`, and it exits if
no message is empty and the stream is set before something is printed. The status is 0 exactly
when no failure, break or warning was reported. -/
theorem session_status (env : Env) (tOut : Option Stream) {program : Program}
    (hfile : program.Forall fun fname _ => fname = none) :
    (∀ status lib', (session env program).run (Lib.initial tOut) = .error (.exit status) lib' →
      status = union program.reported &&& failureMask) ∧
    (program.Sound tOut → ∃ lib', (session env program).run (Lib.initial tOut) =
      .error (.exit (union program.reported &&& failureMask)) lib') ∧
    (union program.reported &&& failureMask = 0 ↔
      ∀ ttype ∈ program.reported, ttype &&& failureMask = 0) := by
  have hends := @session_ends env (Lib.initial tOut) program
    (hfile.mono fun _ _ h => .inl h) (.inl rfl) rfl (.inr rfl)
  obtain ⟨stop, lib', hrun, hend⟩ := hends.exists_error
  have hstatus := status_of_ends hend
  refine ⟨fun status lib'' hrun' => ?_, fun hsound => ?_, union_and_eq_zero_iff _ _⟩
  · obtain ⟨rfl, rfl⟩ := EStateM.Result.error.inj (hrun.symm.trans hrun')
    obtain hexit | ⟨hfault | hfault, -⟩ := hstatus
    · exact Stop.exit.inj hexit
    · exact absurd hfault (by simp)
    · exact absurd hfault (by simp)
  · obtain hexit | ⟨-, hunsound⟩ := hstatus
    · exact ⟨lib', by rw [hrun, hexit]⟩
    · exact absurd hsound hunsound

/-- Surroundings with the given `TOUTPUT` and no files. -/
def plainEnv (toutput : Option CString) : Env where
  tcid := "test".toList
  toutput := toutput
  access _ _ := false
  reading _ _ :=
    { fopen := false, chunks := [], feof := true, fclose := true, errno := [], fcloseErrno := [] }
  stack := 0

/-- A failure with a flag, and a break with an unsupported type whose cleanup function breaks the
test again. -/
def failingTest : Program :=
  .res 0x101 none ['a'] (.brkWith 16 none ['b'] (.brk 32 none ['c'] (.resm 0 ['d'] .ret)) .ret)

theorem session_status_failingTest :
    ∃ lib', (session (plainEnv (some "NOPASS".toList)) failingTest).run (Lib.initial none) =
      .error (.exit 7) lib' :=
  (session_status (plainEnv (some "NOPASS".toList)) none
    (by simp [failingTest, Program.Forall])).2.1
    ⟨by simp [failingTest, Program.Forall], .inr trivial⟩

/-! ### Nested calls -/

/-- The events of a cleanup argument. -/
def cleanupEvents : Option Program → List Event
  | none => []
  | some program => .cleanup :: (program.events ++ [.cleanedUp])

/-- The types reported by a cleanup argument. -/
def cleanupTypes : Option Program → List (BitVec 32)
  | none => []
  | some program => program.types

/-- A cleanup function neither exits nor reports the remaining cases. -/
theorem Program.events_inner (program : Program) :
    ∀ event ∈ program.events, event ≠ .remaining ∧ ∀ entered, event ≠ .exit entered := by
  induction program with
  | ret => simp [events]
  | res ttype fname mesg next ih => simpa [events] using ih
  | resm ttype mesg next ih => simpa [events] using ih
  | brk ttype fname mesg next ih => simpa [events] using ih
  | brkWith ttype fname mesg func next ihfunc ihnext =>
    intro event hevent
    simp only [events, List.cons_append, List.mem_cons, List.mem_append, List.append_assoc,
      List.nil_append] at hevent
    rcases hevent with rfl | rfl | hfunc | rfl | hnext
    · simp
    · simp
    · exact ihfunc event hfunc
    · simp
    · exact ihnext event hnext

theorem cleansUp_program {func : Option Program}
    (hfiles : ∀ program ∈ func, program.Forall fun fname _ => Untroubled env fname) :
    CleansUp env (∀ program ∈ func, program.Forall fun _ mesg => mesg ≠ [])
      (union (cleanupTypes func)) (cleanupEvents func) (func.map (Program.run env)) := by
  cases func with
  | none => exact cleansUp_none env _
  | some program =>
    have hprogram := (Program.cleans (hfiles program rfl)).cleansUp
    simpa [cleanupTypes, cleanupEvents] using hprogram

theorem covers_union {types : List (BitVec 32)} {ttype : BitVec 32} (h : ttype ∈ types) :
    Covers (union types) ttype := by
  induction types with
  | nil => exact absurd h List.not_mem_nil
  | cons other types ih =>
    rw [union_cons]
    rcases List.mem_cons.mp h with rfl | hmem
    · rw [BitVec.or_comm]
      exact Covers.or_right _ _
    · rw [BitVec.or_comm]
      exact (ih hmem).or_left _

theorem Covers.trans {a b c : BitVec 32} (h : Covers a b) (h' : Covers b c) : Covers a c := by
  rw [Covers, ← h, BitVec.or_assoc, h']

theorem Covers.and {a b : BitVec 32} (h : Covers a b) (mask : BitVec 32) :
    Covers (a &&& mask) (b &&& mask) := by
  rw [Covers, ← BitVec.and_or_distrib_right, h]

/-- **Cleaning up once.** An outermost call of `tst_brk` reports its result, reports the remaining
cases at most once, runs its cleanup function to its end and exits, once, with `tst_brk_entered`
back at 0. Inside the cleanup function no call exits or reports the remaining cases, to any depth
of nesting. The status contains the bits of every nested report that tell of a failure, a break or
a warning. -/
theorem tstBrk_runs_cleanup (env : Env) {lib : Lib} (ttype : BitVec 32) {fname : Option CString}
    {mesg : CString} {func : Option Program} (hentered : lib.tstBrkEntered = 0)
    (hfile : Untroubled env lib.file) (hfname : Untroubled env fname)
    (hfiles : ∀ program ∈ func, program.Forall fun fname _ => Untroubled env fname)
    (hmesg : mesg ≠ []) (hmesgs : ∀ program ∈ func, program.Forall fun _ mesg => mesg ≠ [])
    (hout : lib.tOut ≠ none ∨ Supported (ttypeResult ttype)) :
    ∃ status lib', (tstBrk env ttype fname (func.map (Program.run env)) mesg).run lib =
        .error (.exit status) lib' ∧
      lib'.tstBrkEntered = 0 ∧
      lib'.trace = lib.trace ++ (.report (ttypeResult (brkType ttype)) ::
        remainingEvents (ttypeResult ttype) ++ cleanupEvents func ++ [.exit 0]) ∧
      ∀ program ∈ func,
        (∀ event ∈ program.events, event ≠ .remaining ∧ ∀ entered, event ≠ .exit entered) ∧
        ∀ nested ∈ program.types, Covers status (nested &&& failureMask) := by
  have hsound : BreakSound lib ttype mesg
      (∀ program ∈ func, program.Forall fun _ mesg => mesg ≠ []) := ⟨hmesg, hout, hmesgs⟩
  obtain ⟨stop, lib', hrun, hend⟩ :=
    (tstBrk_outermost ttype mesg (cleansUp_program hfiles) hfname hfile hentered).exists_error
  obtain ⟨rfl, hall⟩ := hend.resolve_right fun h => h.2 hsound
  refine ⟨_, lib', hrun, hall.entered.trans hentered, hall.trace, ?_⟩
  rintro program rfl
  refine ⟨program.events_inner, fun nested hnested => ?_⟩
  have hcovers : Covers lib'.tExitval nested :=
    (hall.covers_bits.trans (Covers.or_right _ _)).trans (covers_union hnested)
  rw [← and_not_eq_and_failureMask (program.masked_types nested hnested)]
  exact hcovers.and _

theorem tstBrk_runs_cleanup_failing :
    ∃ status lib', (tstBrk (plainEnv none) tconf none
        (some ((Program.brkWith tfail none ['b'] (.resm twarn ['c'] .ret) .ret).run
          (plainEnv none))) ['a']).run (Lib.initial none) = .error (.exit status) lib' ∧
      lib'.tstBrkEntered = 0 ∧
      lib'.trace = [.report tconf, .remaining, .report tconf, .cleanup, .report tfail, .cleanup,
        .report twarn, .cleanedUp, .cleanedUp, .exit 0] ∧
      Covers status tfail ∧ Covers status twarn := by
  obtain ⟨status, lib', hrun, hentered, htrace, hnested⟩ :=
    @tstBrk_runs_cleanup (plainEnv none) (Lib.initial none) tconf none ['a']
      (some (.brkWith tfail none ['b'] (.resm twarn ['c'] .ret) .ret)) rfl (.inl rfl) (.inl rfl)
      (by simp [Program.Forall, Untroubled]) (by simp) (by simp [Program.Forall])
      (.inr (by decide))
  refine ⟨status, lib', hrun, hentered, htrace, ?_, ?_⟩
  · exact (hnested _ rfl).2 tfail (by decide)
  · exact (hnested _ rfl).2 twarn (by decide)

/-- A result reported inside a cleanup function as `TCONF` is masked out of the status. -/
theorem not_covers_nested_tconf :
    ∃ lib', (tstBrk (plainEnv none) tbrok none
        (some (tstRes (plainEnv none) tconf none ['b'])) ['a']).run (Lib.initial none) =
          .error (.exit 2) lib' ∧
      .report tconf ∈ lib'.trace ∧ ¬Covers 2 tconf :=
  ⟨_, rfl, by decide, by decide⟩

end SnowballLtp.TstRes
