import Mathlib.Algebra.GroupWithZero.Nat
import Mathlib.Logic.Function.Basic
import SnowballLtp.Machine.CString
import SnowballLtp.Machine.Getopt
import SnowballLtp.Machine.Outcome
import SnowballLtp.Machine.ScanInt

/-!
# Options of a test program

`parse_opts` makes the option string of the standard options and those of the test, goes through the
command line, and then looks at the environment. An option of the test is left out of the option
string when its first character is there already, and it is found again by its first character.

An option of the test may have two characters of which the second one is no colon. It is then a
letter as well, and an option that no entry of the table starts with unless another one does.

## Main definitions

* `Std`, `UserOption`: the variables of the standard options, and an option of the test.
* `parseOpts`.
* `optionString`, `admitted`: the option string, and the options of the test that are in it.

## Main results

* `makeOptionString_eq`: the option string fits its buffer.
* `parsesSoundly_iff`.
-/

namespace SnowballLtp

namespace ParseOpts

/-! ### Variables -/

/-- What a program uses of the type `float`; `clocks hertz x` is `(int)((float)hertz * x)`. -/
structure Floats (F : Type) where
  zero : F
  isZero : F → Bool
  nonneg : F → Bool
  atof : List Char → F
  scanFloat : List Char → Option F
  clocks : ℤ → F → ℤ
  isZero_zero : isZero zero = true

/-- The variables of the standard options. -/
structure Std (F : Type) where
  functionalTest : ℤ
  timingOn : ℤ
  pause : ℤ
  infinite : ℤ
  loopCount : ℤ
  copies : ℤ
  errnoLog : ℤ
  loopDuration : F
  loopDelay : F

/-- The variables at the start of a program. -/
def Std.initial {F : Type} (floats : Floats F) : Std F where
  functionalTest := 1
  timingOn := 0
  pause := 0
  infinite := 0
  loopCount := 1
  copies := 1
  errnoLog := 0
  loopDuration := floats.zero
  loopDelay := floats.zero

/-- `option_t`; the pointers are locations, and may be null. -/
structure UserOption where
  option : List Char
  flag : Option ℕ
  arg : Option ℕ
  nul_notMem : nul ∉ option

/-- What a call works with: the variables, the options that were seen, and the locations of the test
for flags and arguments. -/
structure State (F : Type) where
  std : Std F
  options : BitVec 32
  flags : ℕ → ℤ
  args : ℕ → Option (List Char)

/-- The messages that are returned. -/
inductive Message
  | onlyShort
  | noMemory
  | unknownOption
  | missingArgument
  | notFound (opt : Char)
  deriving DecidableEq, Repr

/-- The text of a message. -/
def Message.text : Message → String
  | onlyShort => "parse_opts: ERROR - Only short options are allowed"
  | noMemory => "parse_opts: ERROR - Could not allocate memory for optionstr"
  | unknownOption => "Unknown option"
  | missingArgument => "Missing argument"
  | notFound opt =>
    "parse_opts: ERROR - option:\"" ++ String.singleton opt ++ "\" NOT FOUND... INTERNAL ERROR"

/-- How a call ends other than with a null pointer: a message, a string that does not fit its
buffer, a null pointer that is used as the table of the test or as an argument, or the exit after
the help. -/
inductive Stop
  | message (m : Message)
  | overflow
  | nullTable
  | nullArgument
  | exit (status : ℤ)
  deriving DecidableEq, Repr

def optIteration : BitVec 32 := 0o1
def optNofunccheck : BitVec 32 := 0o2
def optDuration : BitVec 32 := 0o4
def optDelay : BitVec 32 := 0o10
def optCopies : BitVec 32 := 0o20

/-! ### The option string -/

/-- The option strings of `std_options`. -/
def stdOptions (uclinux : Bool) : List (List Char) :=
  [['c', ':'], ['e'], ['f'], ['h'], ['i', ':'], ['I', ':'], ['p'], ['P', ':'], ['t']] ++
    if uclinux then [['C', ':']] else []

/-- `strchr` finds the character, which may be the end of the string. -/
def StrchrFinds (s : List Char) (c : Char) : Prop := c = nul ∨ c ∈ s

instance (s : List Char) (c : Char) : Decidable (StrchrFinds s c) :=
  inferInstanceAs (Decidable (_ ∨ _))

/-- The first character of a string, which may be its end. -/
def firstChar (s : List Char) : Char := s.headD nul

/-- `strcat` in a buffer of a given size. -/
def strcat (size : ℕ) (s t : List Char) : Except Stop (List Char) :=
  if s.length + t.length + 1 ≤ size then .ok (s ++ t) else .error .overflow

/-- Add the standard options. -/
def catStd (size : ℕ) : List (List Char) → List Char → Except Stop (List Char)
  | [], s => .ok s
  | o :: os, s =>
    match strcat size s o with
    | .ok s => catStd size os s
    | .error stop => .error stop

/-- Add the options of the test that are not there already. -/
def catUser (size : ℕ) : List UserOption → List Char → Except Stop (List Char)
  | [], s => .ok s
  | e :: es, s =>
    if StrchrFinds s (firstChar e.option) then catUser size es s
    else
      match strcat size s e.option with
      | .ok s => catUser size es s
      | .error stop => .error stop

/-- The length of some strings. -/
def totalLength (l : List (List Char)) : ℕ := (l.map List.length).sum

/-- The option string, in a buffer of the size that is computed for it. -/
def makeOptionString (uclinux allocated : Bool) (table : List UserOption) :
    Except Stop (List Char) :=
  if ∃ e ∈ table, 2 < e.option.length then .error (.message .onlyShort)
  else
    let size := totalLength (stdOptions uclinux) + totalLength (table.map UserOption.option) + 1
    if allocated then
      match catStd size (stdOptions uclinux) [] with
      | .ok s => catUser size table s
      | .error stop => .error stop
    else .error (.message .noMemory)

/-! ### The command line -/

section Options

variable {F : Type} (floats : Floats F) (uclinux : Bool) (user : Option (List UserOption))

/-- The argument of an option that is used. -/
def required (optarg : Option (List Char)) : EStateM Stop (State F) (List Char) :=
  match optarg with
  | some arg => pure arg
  | none => throw .nullArgument

/-- Set variables of the standard options. -/
def setStd (f : Std F → Std F) : EStateM Stop (State F) Unit :=
  modify fun s => { s with std := f s.std }

/-- An option with a variable that the environment may set as well. -/
def seen (bit : BitVec 32) : EStateM Stop (State F) Unit :=
  modify fun s => { s with options := s.options ||| bit }

/-- Set the flag of an option of the test, if it has one. -/
def setFlag (e : UserOption) : EStateM Stop (State F) Unit :=
  match e.flag with
  | some loc => modify fun s => { s with flags := Function.update s.flags loc 1 }
  | none => pure ()

/-- Save the argument of an option of the test. -/
def saveArgument (e : UserOption) (optarg : Option (List Char)) : EStateM Stop (State F) Unit :=
  match e.arg with
  | some loc => modify fun s => { s with args := Function.update s.args loc optarg }
  | none => throw .nullArgument

/-- The options of the test, in the `default` case of the `switch`. -/
def handleUserOption (opt : Char) (optarg : Option (List Char)) :
    EStateM Stop (State F) Unit :=
  match user with
  | none => throw .nullTable
  | some table =>
    match table.find? fun e => decide (e.option.head? = some opt) with
    | none => throw (.message (.notFound opt))
    | some e => do
      setFlag e
      onlyIf (e.option.getLast? = some ':') (saveArgument e optarg)

/-- The `switch` of the loop. -/
def handleOption (opt : Char) (optarg : Option (List Char)) : EStateM Stop (State F) Unit := do
  if opt = '?' then throw (.message .unknownOption)
  else if opt = ':' then throw (.message .missingArgument)
  else if opt = 'i' then
    seen optIteration
    let arg ← required optarg
    setStd fun std => { std with
      loopCount := atoi arg, infinite := if atoi arg = 0 then 1 else std.infinite }
  else if opt = 'P' then
    seen optDelay
    let arg ← required optarg
    setStd fun std => { std with loopDelay := floats.atof arg }
  else if opt = 'I' then
    seen optDuration
    let arg ← required optarg
    setStd fun std => { std with
      loopDuration := floats.atof arg,
      infinite := if floats.isZero (floats.atof arg) then 1 else std.infinite }
  else if opt = 'c' then
    seen optCopies
    let arg ← required optarg
    setStd fun std => { std with copies := atoi arg }
  else if opt = 'f' then setStd fun std => { std with functionalTest := 0 }
  else if opt = 'p' then setStd fun std => { std with pause := 1 }
  else if opt = 't' then setStd fun std => { std with timingOn := 1 }
  else if opt = 'e' then setStd fun std => { std with errnoLog := 1 }
  else if opt = 'h' then throw (.exit 0)
  else if uclinux ∧ opt = 'C' then pure ()
  else handleUserOption user opt optarg

/-- The loop over the options. -/
def optionLoop : List Getopt → EStateM Stop (State F) Unit
  | [] => pure ()
  | r :: rs =>
    match r.opt with
    | none => pure ()
    | some opt => do
      handleOption floats uclinux user opt r.optarg
      optionLoop rs

/-! ### The environment -/

/-- A variable of the environment for an option that was not given. -/
def unlessSeen (bit : BitVec 32) (value : Option (List Char))
    (use : List Char → Std F → Std F) : EStateM Stop (State F) Unit :=
  match value with
  | none => pure ()
  | some text => modify fun s =>
    if s.options &&& bit = 0 then { s with std := use text s.std } else s

/-- `USC_ITERATIONS`. -/
def envIteration (text : List Char) (std : Std F) : Std F :=
  match scanInt text with
  | none => std
  | some (x, _) =>
    if int32 (clampLong x) = 0 then { std with infinite := 1 }
    else { std with loopCount := int32 (clampLong x) }

/-- `USC_LOOP_WALLTIME` and `USC_DURATION`. -/
def envDuration (text : List Char) (std : Std F) : Std F :=
  match floats.scanFloat text with
  | none => std
  | some x =>
    if floats.nonneg x then
      { std with
        loopDuration := x,
        infinite := if floats.isZero x then 1 else std.infinite }
    else std

/-- `USC_LOOP_DELAY`. -/
def envDelay (text : List Char) (std : Std F) : Std F :=
  match floats.scanFloat text with
  | none => std
  | some x => if floats.nonneg x then { std with loopDelay := x } else std

/-- `USC_COPIES`. -/
def envCopies (text : List Char) (std : Std F) : Std F :=
  if (strtol text).2 = text then std else { std with copies := atoi text }

/-- The environment after the command line. -/
def environment (getenv : String → Option (List Char)) : EStateM Stop (State F) Unit := do
  unlessSeen optIteration (getenv "USC_ITERATIONS") envIteration
  unlessSeen optNofunccheck (getenv "USC_NO_FUNC_CHECK") fun _ std =>
    { std with functionalTest := 0 }
  unlessSeen optDuration (getenv "USC_LOOP_WALLTIME") (envDuration floats)
  unlessSeen optDuration (getenv "USC_DURATION") (envDuration floats)
  unlessSeen optDelay (getenv "USC_LOOP_DELAY") (envDelay floats)
  unlessSeen optCopies (getenv "USC_COPIES") envCopies

/-- `parse_opts`. -/
def parseOpts (allocated : Bool) (getenv : String → Option (List Char))
    (getopt : List Char → List Getopt) : EStateM Stop (State F) Unit := do
  modify fun s => { s with options := 0 }
  match makeOptionString uclinux allocated (user.getD []) with
  | .error stop => throw stop
  | .ok optionstr =>
    optionLoop floats uclinux user (getopt optionstr)
    environment floats getenv

end Options

/-! ### The letters of the option string -/

/-- The standard part of the option string. -/
def stdString (uclinux : Bool) : List Char := (stdOptions uclinux).flatten

/-- The options of the test that are added behind a string: those whose first character is neither
in the string nor in an option that was added before. -/
def admitted (s : List Char) : List UserOption → List UserOption
  | [] => []
  | e :: es =>
    if StrchrFinds s (firstChar e.option) then admitted s es
    else e :: admitted (s ++ e.option) es

/-- The characters of some options of the test. -/
def characters (es : List UserOption) : List Char := (es.map UserOption.option).flatten

/-- The option string. -/
def optionString (uclinux : Bool) (table : List UserOption) : List Char :=
  stdString uclinux ++ characters (admitted (stdString uclinux) table)

/-- All options of the table are short. -/
def Accepted (table : List UserOption) : Prop := ∀ e ∈ table, e.option.length ≤ 2

instance (table : List UserOption) : Decidable (Accepted table) :=
  inferInstanceAs (Decidable (∀ e ∈ table, e.option.length ≤ 2))

variable {uclinux : Bool} {table : List UserOption} {size : ℕ} {s : List Char} {c : Char}

theorem admitted_subset (s : List Char) (table : List UserOption) : admitted s table ⊆ table := by
  induction table generalizing s with
  | nil => exact fun e he => he
  | cons e es ih =>
    rw [admitted]
    split
    · exact List.subset_cons_of_subset e (ih s)
    · exact List.cons_subset_cons e (ih _)

private theorem strcat_eq_ok {t : List Char} (h : s.length + t.length + 1 ≤ size) :
    strcat size s t = .ok (s ++ t) := if_pos h

private theorem catStd_eq {os : List (List Char)} (h : s.length + totalLength os + 1 ≤ size) :
    catStd size os s = .ok (s ++ os.flatten) := by
  induction os generalizing s with
  | nil => simp [catStd]
  | cons o os ih =>
    simp only [totalLength, List.map_cons, List.sum_cons] at h
    rw [catStd, strcat_eq_ok (by omega)]
    dsimp only
    rw [ih (by rw [List.length_append, totalLength]; omega), List.flatten_cons, List.append_assoc]

private theorem catUser_eq (h : s.length + totalLength (table.map UserOption.option) + 1 ≤ size) :
    catUser size table s = .ok (s ++ characters (admitted s table)) := by
  induction table generalizing s with
  | nil => simp [catUser, admitted, characters]
  | cons e es ih =>
    simp only [totalLength, List.map_cons, List.sum_cons] at h
    rw [catUser, admitted]
    split
    · exact ih (by rw [totalLength]; omega)
    · rw [strcat_eq_ok (by omega)]
      dsimp only
      rw [ih (by rw [List.length_append, totalLength]; omega), characters, characters,
        List.map_cons, List.flatten_cons, List.append_assoc]

/-- **The option string** fits its buffer. -/
theorem makeOptionString_eq (haccepted : Accepted table) (allocated : Bool) :
    makeOptionString uclinux allocated table =
      if allocated then .ok (optionString uclinux table) else .error (.message .noMemory) := by
  have hshort : ¬∃ e ∈ table, 2 < e.option.length := fun ⟨e, he, hlt⟩ => by
    have := haccepted e he
    omega
  have hlen : (stdString uclinux).length = totalLength (stdOptions uclinux) := by
    rw [stdString, totalLength, List.length_flatten]
  rw [makeOptionString, if_neg hshort]
  dsimp only
  rw [catStd_eq (by rw [List.length_nil]; omega), List.nil_append, ← stdString]
  dsimp only
  rw [catUser_eq (by rw [hlen]), optionString]

/-- The option string starts with a letter. -/
theorem optionString_head? (uclinux : Bool) (table : List UserOption) :
    (optionString uclinux table).head? ≠ some ':' := by
  rw [optionString, stdString, stdOptions]
  simp

/-! ### Letters that are handled -/

/-- The letter is one of the standard options or of the results of `getopt`, or an option of the
table starts with it. -/
def Covered (uclinux : Bool) (table : List UserOption) (c : Char) : Prop :=
  c = '?' ∨ c ∈ stdString uclinux ∨ ∃ e ∈ table, e.option.head? = some c

/-- The second characters of the options that are added are handled. -/
def SecondsCovered (uclinux : Bool) (table : List UserOption) : Prop :=
  ∀ e ∈ admitted (stdString uclinux) table, ∀ c ∈ e.option.tail, Covered uclinux table c

/-- A call should not end so: the option string does not fit, the table is a null pointer, or an
option is not found. -/
def Sound (stop : Stop) : Prop :=
  stop ≠ .overflow ∧ stop ≠ .nullTable ∧ ∀ c, stop ≠ .message (.notFound c)

/-- Every character of the option string is handled if the second ones are. -/
theorem covered_of_mem_optionString (h : SecondsCovered uclinux table)
    (hc : c ∈ optionString uclinux table) : Covered uclinux table c := by
  rcases List.mem_append.mp hc with hstd | huser
  · exact .inr (.inl hstd)
  · obtain ⟨o, ho, hc⟩ := List.mem_flatten.mp huser
    obtain ⟨e, he, rfl⟩ := List.mem_map.mp ho
    cases hoption : e.option with
    | nil =>
      rw [hoption] at hc
      exact absurd hc List.not_mem_nil
    | cons d t =>
      rw [hoption] at hc
      rcases List.mem_cons.mp hc with rfl | ht
      · exact .inr (.inr ⟨e, admitted_subset _ _ he, by rw [hoption]; rfl⟩)
      · exact h e he c (by rw [hoption]; exact ht)

section Handling

variable {F : Type} {floats : Floats F} {user : Option (List UserOption)}

/-- A computation that only ends as a call should. -/
abbrev KeepsSound {α : Type} (m : EStateM Stop (State F) α) : Prop := Keeps (fun _ => True) Sound m

private theorem sound_of_message {m : Message} (h : ∀ c, m ≠ .notFound c) : Sound (.message m) :=
  ⟨nofun, nofun, fun c hc => h c (Stop.message.inj hc)⟩

private theorem keeps_required (optarg : Option (List Char)) :
    KeepsSound (required (F := F) optarg) := by
  cases optarg with
  | some arg => exact keeps_pure arg
  | none => exact keeps_throw ⟨nofun, nofun, nofun⟩

private theorem keeps_setStd (f : Std F → Std F) : KeepsSound (setStd f) :=
  keeps_modify fun _ _ => trivial

private theorem keeps_seen (bit : BitVec 32) : KeepsSound (seen (F := F) bit) :=
  keeps_modify fun _ _ => trivial

private theorem keeps_setFlag (e : UserOption) : KeepsSound (setFlag (F := F) e) := by
  rw [setFlag]
  split
  · exact keeps_modify fun _ _ => trivial
  · exact keeps_pure ()

private theorem keeps_saveArgument (e : UserOption) (optarg : Option (List Char)) :
    KeepsSound (saveArgument (F := F) e optarg) := by
  rw [saveArgument]
  split
  · exact keeps_modify fun _ _ => trivial
  · exact keeps_throw ⟨nofun, nofun, nofun⟩

/-- An option of the table is found. -/
private theorem keeps_handleUserOption (h : ∃ e ∈ table, e.option.head? = some c)
    (optarg : Option (List Char)) :
    KeepsSound (handleUserOption (F := F) (some table) c optarg) := by
  obtain ⟨e, he, hhead⟩ := h
  rw [handleUserOption]
  cases hfind : table.find? fun e => decide (e.option.head? = some c) with
  | none => exact absurd (decide_eq_true hhead) (List.find?_eq_none.mp hfind e he)
  | some e' =>
    exact (keeps_setFlag e').bind fun _ => keeps_onlyIf fun _ => keeps_saveArgument e' optarg

/-- A letter that is covered is handled. -/
theorem keeps_handleOption (h : Covered uclinux (user.getD []) c) (optarg : Option (List Char)) :
    KeepsSound (handleOption floats uclinux user c optarg) := by
  have hset (bit : BitVec 32) (f : List Char → Std F → Std F) : KeepsSound (do
      seen bit
      let arg ← required optarg
      setStd (f arg)) :=
    (keeps_seen bit).bind fun _ => (keeps_required optarg).bind fun _ => keeps_setStd _
  refine keeps_ite (fun _ => keeps_throw (sound_of_message nofun)) fun hunknown => ?_
  refine keeps_ite (fun _ => keeps_throw (sound_of_message nofun)) fun hmissing => ?_
  refine keeps_ite (fun _ => hset _ _) fun hi => ?_
  refine keeps_ite (fun _ => hset _ _) fun hP => ?_
  refine keeps_ite (fun _ => hset _ _) fun hI => ?_
  refine keeps_ite (fun _ => hset _ _) fun hc => ?_
  refine keeps_ite (fun _ => keeps_setStd _) fun hf => ?_
  refine keeps_ite (fun _ => keeps_setStd _) fun hp => ?_
  refine keeps_ite (fun _ => keeps_setStd _) fun ht => ?_
  refine keeps_ite (fun _ => keeps_setStd _) fun he => ?_
  refine keeps_ite (fun _ => keeps_throw ⟨nofun, nofun, nofun⟩) fun hh => ?_
  refine keeps_ite (fun _ => keeps_pure ()) fun hC => ?_
  -- The letter is none of the standard ones, so that it is one of the table.
  have huser : ∃ e ∈ user.getD [], e.option.head? = some c := by
    obtain h | h | h := h
    · exact absurd h hunknown
    · refine absurd h ?_
      cases uclinux
      · simp [stdString, stdOptions, *]
      · have hC : c ≠ 'C' := fun h => hC ⟨rfl, h⟩
        simp [stdString, stdOptions, *]
    · exact h
  cases user with
  | none =>
    obtain ⟨e, he, -⟩ := huser
    exact absurd he List.not_mem_nil
  | some table => exact keeps_handleUserOption huser optarg

theorem keeps_optionLoop {rs : List Getopt}
    (h : ∀ r ∈ rs, ∀ c ∈ r.opt, Covered uclinux (user.getD []) c) :
    KeepsSound (optionLoop floats uclinux user rs) := by
  induction rs with
  | nil => exact keeps_pure ()
  | cons r rs ih =>
    rw [optionLoop]
    split
    · exact keeps_pure ()
    · next c hopt =>
      refine (keeps_handleOption (h r List.mem_cons_self c hopt) r.optarg).bind fun _ => ?_
      exact ih fun r' hr' => h r' (List.mem_cons_of_mem _ hr')

private theorem keeps_unlessSeen (bit : BitVec 32) (value : Option (List Char))
    (use : List Char → Std F → Std F) : KeepsSound (unlessSeen bit value use) := by
  cases value with
  | none => exact keeps_pure ()
  | some text => exact keeps_modify fun _ _ => trivial

private theorem keeps_environment (getenv : String → Option (List Char)) :
    KeepsSound (environment floats getenv) :=
  (keeps_unlessSeen _ _ _).bind fun _ => (keeps_unlessSeen _ _ _).bind fun _ =>
    (keeps_unlessSeen _ _ _).bind fun _ => (keeps_unlessSeen _ _ _).bind fun _ =>
      (keeps_unlessSeen _ _ _).bind fun _ => keeps_unlessSeen _ _ _

/-- A call never ends as it should not, for every command line and environment. -/
def ParsesSoundly (floats : Floats F) (uclinux : Bool) (user : Option (List UserOption)) : Prop :=
  ∀ allocated getenv getopt s, ReturnsLetters getopt →
    Outcome (parseOpts floats uclinux user allocated getenv getopt) s (fun _ _ => True)
      fun stop _ => Sound stop

/-- A call is sound when the second characters are handled. -/
theorem parsesSoundly_of_secondsCovered (haccepted : Accepted (user.getD []))
    (h : SecondsCovered uclinux (user.getD [])) : ParsesSoundly floats uclinux user := by
  intro allocated getenv getopt s hletters
  have hkeeps : KeepsSound (parseOpts floats uclinux user allocated getenv getopt) := by
    refine (keeps_modify fun _ _ => trivial).bind fun _ => ?_
    rw [makeOptionString_eq haccepted]
    cases allocated with
    | false => exact keeps_throw (sound_of_message nofun)
    | true =>
      refine (keeps_optionLoop fun r hr c hc => ?_).bind fun _ => keeps_environment getenv
      obtain rfl | ⟨hmem, -⟩ := hletters _ (optionString_head? _ _) r hr c hc
      · exact .inl rfl
      · exact covered_of_mem_optionString h hmem
  exact (hkeeps s trivial).mono (fun _ _ _ => trivial) fun _ _ hstop => hstop.1

/-- An option that is not found. -/
theorem run_handleUserOption_of_not_covered (hc : ¬Covered uclinux table c)
    (optarg : Option (List Char)) (s : State F) :
    (handleUserOption (some table) c optarg).run s = .error (.message (.notFound c)) s := by
  have hfind : (table.find? fun e => decide (e.option.head? = some c)) = none := by
    refine List.find?_eq_none.mpr fun e he hhead => hc (.inr (.inr ⟨e, he, ?_⟩))
    exact of_decide_eq_true hhead
  rw [handleUserOption, hfind]
  rfl

/-- Other letters than the standard ones are looked for in the table. -/
theorem handleOption_of_notMem (hunknown : c ≠ '?') (hstd : c ∉ stdString uclinux)
    (optarg : Option (List Char)) :
    handleOption (F := F) floats uclinux user c optarg = handleUserOption user c optarg := by
  have hmem : ∀ d ∈ [':', 'i', 'P', 'I', 'c', 'f', 'p', 't', 'e', 'h'], d ∈ stdString uclinux := by
    simp [stdString, stdOptions]
  have hne : ∀ d ∈ [':', 'i', 'P', 'I', 'c', 'f', 'p', 't', 'e', 'h'], c ≠ d :=
    fun d hd h => hstd (h ▸ hmem d hd)
  simp only [List.forall_mem_cons] at hne
  obtain ⟨hmissing, hi, hP, hI, hcopies, hf, hp, ht, he, hh, -⟩ := hne
  have hC : ¬(uclinux = true ∧ c = 'C') := by
    rintro ⟨rfl, rfl⟩
    exact hstd (by decide)
  rw [handleOption, if_neg hunknown, if_neg hmissing, if_neg hi, if_neg hP, if_neg hI,
    if_neg hcopies, if_neg hf, if_neg hp, if_neg ht, if_neg he, if_neg hh, if_neg hC]

/-- The command line with one letter, if the option string has it. -/
def oneLetter (c : Char) (optstring : List Char) : List Getopt :=
  if c ∈ optstring then [⟨some c, none⟩] else []

theorem returnsLetters_oneLetter (hc : c ≠ ':') : ReturnsLetters (oneLetter c) := by
  intro optstring _ r hr d hd
  rw [oneLetter] at hr
  split at hr
  · next hmem =>
    obtain rfl := List.mem_singleton.mp hr
    obtain rfl := Option.mem_some.mp hd
    exact .inr ⟨hmem, hc⟩
  · exact absurd hr List.not_mem_nil

variable (floats) in
/-- A command line with a letter that is not handled. -/
theorem run_parseOpts_of_not_covered {getopt : List Char → List Getopt} (haccepted : Accepted table)
    (hgetopt : getopt (optionString uclinux table) = [⟨some c, none⟩])
    (hc : ¬Covered uclinux table c) (getenv : String → Option (List Char)) (s : State F) :
    ∃ s', (parseOpts floats uclinux (some table) true getenv getopt).run s =
      .error (.message (.notFound c)) s' := by
  have hhandle : handleOption (F := F) floats uclinux (some table) c none =
      handleUserOption (some table) c none :=
    handleOption_of_notMem (fun h => hc (.inl h)) (fun h => hc (.inr (.inl h))) none
  refine ⟨{ s with options := 0 }, ?_⟩
  rw [parseOpts, run_bind_of_ok (EStateM.run_modify _ _), Option.getD_some,
    makeOptionString_eq haccepted, if_pos rfl]
  refine run_bind_of_error ?_
  rw [hgetopt, optionLoop]
  dsimp only
  rw [hhandle]
  exact run_bind_of_error (run_handleUserOption_of_not_covered hc none _)

/-- **Options of a test.** For an accepted table every call is sound just when the second characters
of the options that are added to the option string are handled. -/
theorem parsesSoundly_iff (floats : Floats F) (uclinux : Bool) (user : Option (List UserOption))
    (haccepted : ∀ table ∈ user, Accepted table) :
    ParsesSoundly floats uclinux user ↔ ∀ table ∈ user, SecondsCovered uclinux table := by
  constructor
  · rintro h table ⟨⟩ e he c hc
    refine Classical.byContradiction fun hnot => ?_
    have hcolon : c ≠ ':' := by
      rintro rfl
      exact hnot (.inr (.inl (by cases uclinux <;> decide)))
    have hmem : c ∈ optionString uclinux table :=
      List.mem_append_right _ (List.mem_flatten.mpr
        ⟨e.option, List.mem_map_of_mem he, List.mem_of_mem_tail hc⟩)
    have s : State F := ⟨Std.initial floats, 0, fun _ => 0, fun _ => none⟩
    have hgetopt : oneLetter c (optionString uclinux table) = [⟨some c, none⟩] := if_pos hmem
    obtain ⟨s', hrun⟩ := run_parseOpts_of_not_covered floats (haccepted table rfl) hgetopt hnot
      (fun _ => none) s
    have hout := h true (fun _ => none) (oneLetter c) s (returnsLetters_oneLetter hcolon)
    rw [Outcome, hrun] at hout
    exact hout.2.2 c rfl
  · intro h
    cases user with
    | none =>
      refine parsesSoundly_of_secondsCovered (fun e he => absurd he List.not_mem_nil) ?_
      exact fun e he => absurd he List.not_mem_nil
    | some table => exact parsesSoundly_of_secondsCovered (haccepted table rfl) (h table rfl)

end Handling

/-- Numbers of microseconds in place of the type `float`. -/
def microseconds : Floats ℤ where
  zero := 0
  isZero x := decide (x = 0)
  nonneg x := decide (0 ≤ x)
  atof text := 1000000 * atoi text
  scanFloat text := (scanInt text).map fun p => 1000000 * p.1
  clocks hertz x := int32 (hertz * x / 1000000)
  isZero_zero := rfl

/-- An option `a` with an argument and an option `b` without. -/
def usualTable : List UserOption :=
  [⟨['a', ':'], some 0, some 0, by decide⟩, ⟨['b'], some 1, none, by decide⟩]

theorem parsesSoundly_iff_usualTable :
    ParsesSoundly microseconds false (some usualTable) ↔
      ∀ table ∈ some usualTable, SecondsCovered false table :=
  parsesSoundly_iff microseconds false (some usualTable) fun _ h =>
    Option.mem_some.mp h ▸ by decide

/-- An option of two letters. -/
def twoLetters : List UserOption := [⟨['a', 'b'], some 0, none, by decide⟩]

theorem getopt_twoLetters :
    getopt [[], ['-', 'b']] (optionString false twoLetters) = [⟨some 'b', none⟩] := by
  have hletter : ¬('b' = ':' ∨ 'b' ∉ optionString false twoLetters) := by decide
  have harg : ¬TakesArgument (optionString false twoLetters) 'b' := by decide
  rw [getopt, List.tail_cons, getoptFrom, if_neg (by decide), if_pos (by rfl), List.tail_cons,
    getoptFrom, if_neg hletter, if_neg harg, getoptFrom]

/-- On the command line with the second letter that letter is not found. -/
theorem twoLetters_not_parsesSoundly :
    Accepted twoLetters ∧
      getopt [[], ['-', 'b']] (optionString false twoLetters) = [⟨some 'b', none⟩] ∧
      ¬ParsesSoundly microseconds false (some twoLetters) := by
  refine ⟨by decide, getopt_twoLetters, fun h => ?_⟩
  have hc : ¬Covered false twoLetters 'b' := by
    rintro (h | h | ⟨e, he, hhead⟩)
    · exact absurd h (by decide)
    · exact absurd h (by decide)
    · obtain rfl := List.mem_singleton.mp he
      exact absurd hhead (by decide)
  have hletters : ReturnsLetters (getopt [[], ['-', 'b']]) := returnsLetters_getopt _
  have s : State ℤ := ⟨Std.initial microseconds, 0, fun _ => 0, fun _ => none⟩
  obtain ⟨s', hrun⟩ := run_parseOpts_of_not_covered microseconds (by decide) getopt_twoLetters hc
    (fun _ => none) s
  have hout := h true (fun _ => none) _ s hletters
  rw [Outcome, hrun] at hout
  exact hout.2.2 'b' rfl

end ParseOpts

end SnowballLtp
