import Mathlib.Data.Int.Notation
import Mathlib.Data.Nat.Notation
import SnowballLtp.Machine.Outcome

/-!
# Streams on attribute files

The calls of the standard library with which the sensor tests read and write the attribute files
of a driver. Every call is written to a log. A file may fail to open, a write may fail, and what is
read may be any text.

A computation returns its value at its end, or at an early `return`, which is its error.

## Main definitions

* `scan`: what `fscanf` returns on a text.
* `World`: the behaviour of the files. `Session`: what has been done so far.
* `fopen`, `fputc`, `fputs`, `fscanf`, `fflush`, `fclose`, `close`.
* `ClosesSingly`: the logs that the results on the programs are about.

## Main results

* `fopen_run`, `put_run`: the effect of a call.
-/

namespace SnowballLtp.Sensors

/-- `EOF`. -/
def eof : ℤ := -1

/-! ### Formatted input -/

/-- A directive in the format of `fscanf`. -/
inductive Directive where
  /-- `%d`. -/
  | decimal
  /-- `%x` with a maximal field width. -/
  | hex (width : ℕ)
  | literal (c : Char)
  deriving DecidableEq, Repr

abbrev Format := List Directive

/-- `"%d"`. -/
def formatD : Format := [.decimal]

/-- `"%8x:%8x:%8x"`. -/
def formatX : Format := [.hex 8, .literal ':', .hex 8, .literal ':', .hex 8]

/-- The number of assignments of a directive. -/
def Directive.conversions : Directive → ℕ
  | .literal _ => 0
  | _ => 1

/-- The number of assignments of a format. -/
def Format.conversions (format : Format) : ℕ :=
  format.foldr (fun directive count => directive.conversions + count) 0

/-- `isspace`. -/
def isSpace (c : Char) : Bool := c = ' ' ∨ '\t' ≤ c ∧ c ≤ '\r'

/-- `isxdigit`. -/
def isHexDigit (c : Char) : Bool :=
  c.isDigit ∨ 'a' ≤ c ∧ c ≤ 'f' ∨ 'A' ≤ c ∧ c ≤ 'F'

/-- The length of the digits at the start of a text, if there are any. -/
def digits (isDigit : Char → Bool) (text : List Char) : Option ℕ :=
  if text.takeWhile isDigit = [] then none else some (text.takeWhile isDigit).length

/-- The length of a hexadecimal number, which may start with `0x`. -/
def hexDigits : List Char → Option ℕ
  | '0' :: 'x' :: text => (digits isHexDigit text).map (· + 2)
  | '0' :: 'X' :: text => (digits isHexDigit text).map (· + 2)
  | text => digits isHexDigit text

/-- The length of a number that may have a sign. -/
def signed (number : List Char → Option ℕ) : List Char → Option ℕ
  | '+' :: text => (number text).map (· + 1)
  | '-' :: text => (number text).map (· + 1)
  | text => number text

/-- How much of a text a directive matches. -/
def Directive.item : Directive → List Char → Option ℕ
  | .decimal, text => signed (digits Char.isDigit) text
  | .hex width, text => signed hexDigits (text.take width)
  | .literal c, text => if text.head? = some c then some 1 else none

/-- The text from where a directive is matched: conversions skip white space. -/
def Directive.skip : Directive → List Char → List Char
  | .literal _, text => text
  | _, text => text.dropWhile isSpace

/-- What `fscanf` returns on a text after a number of assignments. -/
def scan : Format → (assigned : ℕ) → List Char → ℤ
  | [], assigned, _ => assigned
  | directive :: rest, assigned, text =>
    let text := directive.skip text
    if text = [] then if assigned = 0 then eof else assigned
    else
      match directive.item text with
      | none => assigned
      | some length => scan rest (assigned + directive.conversions) (text.drop length)

example : scan formatD 0 " -12\n".toList = 1 ∧ scan formatD 0 "on".toList = 0 ∧
    scan formatX 0 "0x1f:22:ffffffff\n".toList = 3 ∧ scan formatX 0 "1f:22".toList = 2 ∧
    scan formatX 0 "\n".toList = eof := by decide

/-! ### The log -/

/-- The mode of `fopen`: `"r"` or `"w"`. -/
inductive FileMode where
  | r
  | w
  deriving DecidableEq, Repr

/-- A call with its result. A stream is named by the number of calls of `fopen` before it was
opened. -/
inductive Event where
  | fopen (path : String) (mode : FileMode) (stream : Option ℕ)
  | fputc (stream : ℕ) (c : Char) (ok : Bool)
  | fputs (stream : ℕ) (s : String) (ok : Bool)
  | fscanf (stream : ℕ) (format : Format) (assigned : ℤ)
  | fflush (stream : ℕ)
  | fclose (stream : ℕ)
  /-- The system call, applied to a stream. -/
  | close (stream : ℕ)
  deriving DecidableEq, Repr

/-- A file opens, a write is made, or all conversions of a format are assigned. -/
def Event.Succeeded : Event → Prop
  | .fopen _ _ stream => stream.isSome
  | .fputc _ _ ok => ok
  | .fputs _ _ ok => ok
  | .fscanf _ format assigned => assigned = format.conversions
  | _ => True

instance : DecidablePred Event.Succeeded
  | .fopen _ _ stream => inferInstanceAs (Decidable (stream.isSome = true))
  | .fputc _ _ ok => inferInstanceAs (Decidable (ok = true))
  | .fputs _ _ ok => inferInstanceAs (Decidable (ok = true))
  | .fscanf _ format assigned => inferInstanceAs (Decidable (assigned = format.conversions))
  | .fflush _ => instDecidableTrue
  | .fclose _ => instDecidableTrue
  | .close _ => instDecidableTrue

def Event.closed : Event → Option ℕ
  | .fclose n => some n
  | _ => none

/-- No stream is passed to `fclose` a second time. What a program does behind that is undefined. -/
def ClosesSingly (log : List Event) : Prop := (log.filterMap Event.closed).Nodup

instance (log : List Event) : Decidable (ClosesSingly log) :=
  inferInstanceAs (Decidable (List.Nodup _))

/-- The answers of the files, call by call. -/
structure World where
  /-- Whether the `n`-th file opens, and the text that is read from it. -/
  fopen : ℕ → Option (List Char)
  /-- Whether the `n`-th call of `fputc` or `fputs` succeeds, which write into the buffer of their
  stream. That a file refuses what is in the buffer shows at `fflush` or `fclose`, whose answers no
  routine looks at. -/
  put : ℕ → Bool

/-- The calls made so far. -/
structure Session where
  fopens : ℕ
  puts : ℕ
  log : List Event
  deriving DecidableEq, Repr

def Session.initial : Session := ⟨0, 0, []⟩

/-- An open stream, with the text that can be read from it. -/
structure Stream where
  number : ℕ
  text : List Char
  deriving DecidableEq, Repr

abbrev Run := EStateM ℤ Session

/-! ### Calls -/

section

variable (world : World)

def fopen (path : String) (mode : FileMode) : Run (Option Stream) := do
  let session ← get
  let stream := (world.fopen session.fopens).map (Stream.mk session.fopens)
  set { session with
    fopens := session.fopens + 1
    log := session.log ++ [Event.fopen path mode (stream.map Stream.number)] }
  pure stream

/-- A write: `fputc` or `fputs`, as the event tells. -/
def put (event : Bool → Event) : Run Bool := do
  let session ← get
  let ok := world.put session.puts
  set { session with puts := session.puts + 1, log := session.log ++ [event ok] }
  pure ok

def fputc (f : Stream) (c : Char) : Run Bool := put world (.fputc f.number c)

def fputs (f : Stream) (s : String) : Run Bool := put world (.fputs f.number s)

/-- A call without an answer. -/
def note (event : Event) : Run Unit :=
  modify fun session => { session with log := session.log ++ [event] }

def fflush (f : Stream) : Run Unit := note (.fflush f.number)

/-- `fclose`: what follows a second call for one stream is outside `ClosesSingly`. -/
def fclose (f : Stream) : Run Unit := note (.fclose f.number)

/-- `close`, called with a stream in the place of a file descriptor. -/
def close (f : Stream) : Run Unit := note (.close f.number)

/-- `fscanf`. The routines read each stream once, from its start. -/
def fscanf (f : Stream) (format : Format) : Run ℤ := do
  note (.fscanf f.number format (scan format 0 f.text))
  pure (scan format 0 f.text)

/-- `fopen`, with `return -1` when it fails. -/
def fopenOrReturn (path : String) (mode : FileMode) : Run Stream := do
  match ← fopen world path mode with
  | none => throw (-1)
  | some f => pure f

end

/-! ### What a call adds -/

/-- Between two states there are the given numbers of calls, and all of them succeeded if and only
if `sound` holds. -/
structure Made (fopens puts : ℕ) (sound : Prop) (s s' : Session) : Prop where
  fopens : s'.fopens = s.fopens + fopens
  puts : s'.puts = s.puts + puts
  log : ∃ events, s'.log = s.log ++ events ∧ ((∀ e ∈ events, e.Succeeded) ↔ sound)

variable {world : World} {s s' s'' : Session} {fopens puts fopens' puts' : ℕ} {p q : Prop}

theorem Made.refl (s : Session) : Made 0 0 True s s :=
  ⟨rfl, rfl, [], by simp⟩

theorem Made.trans (h : Made fopens puts p s s') (h' : Made fopens' puts' q s' s'') :
    Made (fopens + fopens') (puts + puts') (p ∧ q) s s'' := by
  obtain ⟨events, hlog, hp⟩ := h.log
  obtain ⟨events', hlog', hq⟩ := h'.log
  refine ⟨?_, ?_, events ++ events', ?_, ?_⟩
  · rw [h'.fopens, h.fopens, Nat.add_assoc]
  · rw [h'.puts, h.puts, Nat.add_assoc]
  · rw [hlog', hlog, List.append_assoc]
  · rw [← hp, ← hq]
    simp only [List.mem_append, or_imp, forall_and]

theorem Made.congr (h : Made fopens puts p s s') (hpq : p ↔ q) : Made fopens puts q s s' := by
  rwa [← propext hpq]

/-- From the start to a state. -/
theorem Made.succeeded_iff (h : Made fopens puts p Session.initial s) :
    (∀ e ∈ s.log, e.Succeeded) ↔ p := by
  obtain ⟨events, hlog, hp⟩ := h.log
  obtain rfl : s.log = events := hlog
  exact hp

/-- One more call. -/
theorem Made.single {e : Event} (hfopens : s'.fopens = s.fopens + fopens)
    (hputs : s'.puts = s.puts + puts) (hlog : s'.log = s.log ++ [e]) :
    Made fopens puts e.Succeeded s s' :=
  ⟨hfopens, hputs, [e], hlog, by simp⟩

theorem note_run (event : Event) (s : Session) :
    ∃ s', (note event).run s = .ok () s' ∧ Made 0 0 event.Succeeded s s' :=
  ⟨_, EStateM.run_modify _ s, Made.single rfl rfl rfl⟩

theorem put_run {event : Bool → Event} (h : ∀ ok, (event ok).Succeeded ↔ ok = true)
    (s : Session) :
    ∃ s', (put world event).run s = .ok (world.put s.puts) s' ∧
      Made 0 1 (world.put s.puts = true) s s' := by
  rw [put, run_bind_of_ok (EStateM.run_get s), run_bind_of_ok (EStateM.run_set _ s),
    EStateM.run_pure]
  exact ⟨_, rfl, (Made.single rfl rfl rfl).congr (h _)⟩

theorem fopen_run (path : String) (mode : FileMode) (s : Session) :
    ∃ s', (fopen world path mode).run s =
        .ok ((world.fopen s.fopens).map (Stream.mk s.fopens)) s' ∧
      Made 1 0 (world.fopen s.fopens ≠ none) s s' := by
  rw [fopen, run_bind_of_ok (EStateM.run_get s), run_bind_of_ok (EStateM.run_set _ s),
    EStateM.run_pure]
  refine ⟨_, rfl, (Made.single rfl rfl rfl).congr ?_⟩
  rw [Event.Succeeded]
  cases world.fopen s.fopens <;> simp

theorem fscanf_run (f : Stream) (format : Format) (s : Session) :
    ∃ s', (fscanf f format).run s = .ok (scan format 0 f.text) s' ∧
      Made 0 0 (scan format 0 f.text = format.conversions) s s' := by
  obtain ⟨s', hrun, hmade⟩ := note_run (.fscanf f.number format (scan format 0 f.text)) s
  exact ⟨s', by rw [fscanf, run_bind_of_ok hrun, EStateM.run_pure], hmade⟩

/-- A file that does not open ends the computation. -/
theorem fopenOrReturn_outcome (path : String) (mode : FileMode) (s : Session) :
    Outcome (fopenOrReturn world path mode) s
      (fun f s' => world.fopen s.fopens = some f.text ∧ Made 1 0 True s s')
      (fun value _ => value = -1 ∧ world.fopen s.fopens = none) := by
  obtain ⟨s', hrun, hmade⟩ := fopen_run path mode s
  refine Outcome.bind_of_ok hrun ?_
  cases hanswer : world.fopen s.fopens with
  | none => exact Outcome.of_error rfl ⟨rfl, rfl⟩
  | some text =>
    exact Outcome.of_ok rfl ⟨rfl, hmade.congr (by simp [hanswer])⟩

end SnowballLtp.Sensors
