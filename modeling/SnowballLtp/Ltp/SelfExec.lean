import SnowballLtp.Machine.Decimal
import SnowballLtp.Machine.Separated

/-!
# Running a child by executing oneself

Without `fork`, a test runs a function in a child by executing itself again. `self_exec` joins the
current directory and the arguments of the function by commas into one string, which becomes the
value of the option `-C`; in the new process `maybe_run_child` splits it with `strtok`, stores the
arguments where it was told to and calls the function. A format string says which arguments there
are: `d` and `n` are numbers, `s` and `S` strings, and a number `n` is not stored but compared, to
tell one call of `maybe_run_child` from another.

`strtok` merges commas, so an empty string does not arrive, and neither does a string with a
comma; numbers always do.

## Main definitions

* `selfExec`, `decode`, `maybeRunChild`.
* `Arrives`: what the two calls should do together.

## Main results

* `decode_eq_written_iff`: what is read back of the arguments.
* `arrives_iff`.
-/

namespace SnowballLtp

namespace SelfExec

/-- An argument of the child function. -/
inductive Arg
  | int (i : ℤ)
  | str (s : List Char)
  deriving DecidableEq, Repr

/-! ### The parent -/

/-- The loop of `self_exec` over the format; there is no string for a character that is not
implemented, nor for an argument of another type. -/
def encode : List Char → List Arg → List Char → Option (List Char)
  | [], _, arg => some arg
  | p :: fmt, args, arg =>
    if p = 'd' ∨ p = 'n' then
      match args with
      | .int ival :: args => encode fmt args (arg ++ ',' :: decimal ival)
      | _ => none
    else if p = 's' ∨ p = 'S' then
      match args with
      | .str str :: args => encode fmt args (arg ++ ',' :: str)
      | _ => none
    else none

/-- `self_exec`, where `isDir` tells the directories that can be entered: the arguments of the
program that is executed, if it comes to that. -/
def selfExec (isDir : List Char → Bool) (cwd startCwd argv0 fmt : List Char) (args : List Arg) :
    Option (List (List Char)) :=
  match encode fmt args cwd with
  | some arg => if isDir startCwd then some [argv0, "-C".toList, arg] else none
  | none => none

/-! ### The child -/

/-- An argument of `maybe_run_child` behind the format: a place to store an argument, or the
number that a number is compared with. -/
inductive Param
  | dest
  | int (j : ℤ)
  deriving DecidableEq, Repr

/-- What happens to the arguments in the new process. -/
inductive Decoded
  /-- All are stored, one after the other. -/
  | written (stored : List Arg)
  /-- A number differs, and `maybe_run_child` returns. -/
  | returned
  /-- The test breaks and exits. -/
  | exited
  /-- An argument of another type is fetched. -/
  | undefined
  deriving DecidableEq, Repr

/-- An argument is stored in front of the others. -/
def Decoded.store (a : Arg) : Decoded → Decoded
  | .written stored => .written (a :: stored)
  | d => d

/-- The loop of `maybe_run_child` over the format, with the string that `strtok` goes on with. -/
def decode : List Char → List Param → List Char → Decoded
  | [], _, _ => .written []
  | p :: fmt, params, args =>
    match strtok ',' args with
    | none => .exited
    | some (tok, rest) =>
      if tok.length = 0 then .exited
      else if p = 'd' then
        match params with
        | .dest :: params =>
          if (strtol tok).2 ≠ [] then .exited
          else (decode fmt params rest).store (.int (int32 (strtol tok).1))
        | _ => .undefined
      else if p = 'n' then
        match params with
        | .int j :: params =>
          if (strtol tok).2 ≠ [] then .exited
          else if j ≠ int32 (strtol tok).1 then .returned
          else decode fmt params rest
        | _ => .undefined
      else if p = 's' ∨ p = 'S' then
        match params with
        | .dest :: params => (decode fmt params rest).store (.str tok)
        | _ => .undefined
      else .exited

/-- What `maybe_run_child` comes to. -/
inductive ChildRun
  /-- There is no option `-C`, and the program goes on. -/
  | parent
  /-- The child function is called in a directory, with the arguments stored. -/
  | runs (cwd : List Char) (stored : List Arg)
  | returned
  | exited
  | undefined
  deriving DecidableEq, Repr

/-- `maybe_run_child`, for the value of the option `-C`. -/
def maybeRunChild (isDir : List Char → Bool) (childArgs : Option (List Char))
    (fmt : List Char) (params : List Param) : ChildRun :=
  match childArgs with
  | none => .parent
  | some args =>
    match strtok ',' args with
    | none => .undefined
    | some (childDir, rest) =>
      match decode fmt params rest with
      | .written stored => if isDir childDir then .runs childDir stored else .exited
      | .returned => .returned
      | .exited => .exited
      | .undefined => .undefined

/-! ### Matching arguments -/

/-- The arguments are those that a format over `d`, `n`, `s` and `S` asks for, and the numbers
that the child compares with are the same. -/
inductive Matches : List Char → List Arg → List Param → Prop
  | nil : Matches [] [] []
  | int {fmt : List Char} {args : List Arg} {params : List Param} {i : ℤ} (hi : InInt32 i)
      (h : Matches fmt args params) : Matches ('d' :: fmt) (.int i :: args) (.dest :: params)
  | same {fmt : List Char} {args : List Arg} {params : List Param} {i : ℤ} (hi : InInt32 i)
      (h : Matches fmt args params) : Matches ('n' :: fmt) (.int i :: args) (.int i :: params)
  | str {fmt : List Char} {args : List Arg} {params : List Param} {p : Char} {s : List Char}
      (hp : p = 's' ∨ p = 'S') (h : Matches fmt args params) :
      Matches (p :: fmt) (.str s :: args) (.dest :: params)

/-- The arguments that the child is to get, which are all but those for `n`. -/
def delivered : List Char → List Arg → List Arg
  | p :: fmt, a :: args => if p = 'n' then delivered fmt args else a :: delivered fmt args
  | _, _ => []

/-- An argument in the string. -/
def Arg.field : Arg → List Char
  | .int i => decimal i
  | .str s => s

/-- A field comes back as the next token. -/
def Plain (s : List Char) : Prop := s ≠ [] ∧ ',' ∉ s

instance (s : List Char) : Decidable (Plain s) := inferInstanceAs (Decidable (_ ∧ _))

/-- The strings among the arguments are not empty and have no comma. -/
def PlainStrings (args : List Arg) : Prop := ∀ s, .str s ∈ args → Plain s

/-- What the two calls are to do: the string reaches the new process, and the child function is
called in the directory of the parent with the arguments stored. -/
def Arrives (isDir : List Char → Bool) (cwd startCwd argv0 fmt : List Char) (args : List Arg)
    (params : List Param) : Prop :=
  ∃ arg, selfExec isDir cwd startCwd argv0 fmt args = some [argv0, "-C".toList, arg] ∧
    maybeRunChild isDir (some arg) fmt params = .runs cwd (delivered fmt args)

variable {isDir : List Char → Bool} {cwd startCwd argv0 fmt : List Char} {args : List Arg}
  {params : List Param}

theorem plain_decimal (i : ℤ) : Plain (decimal i) := by
  refine ⟨decimal_ne_nil i, fun h => ?_⟩
  rcases mem_decimal h with h | h <;> exact absurd h (by decide)

/-- The string has the directory and the arguments, joined by commas. -/
theorem encode_eq (h : Matches fmt args params) (arg : List Char) :
    encode fmt args arg = some ([','].intercalate (arg :: args.map Arg.field)) := by
  rw [intercalate_cons]
  induction h generalizing arg with
  | nil => simp [encode]
  | int hi h ih => simp [encode, ih, Arg.field]
  | same hi h ih => simp [encode, ih, Arg.field]
  | str hp h ih => rcases hp with rfl | rfl <;> simp [encode, ih, Arg.field]

/-! ### Reading the arguments back -/

theorem store_eq_written_iff {a b : Arg} {d : Decoded} {l : List Arg} :
    d.store a = .written (b :: l) ↔ a = b ∧ d = .written l := by
  cases d <;> simp [Decoded.store]

/-- A number comes back as it was. -/
theorem decode_number {i : ℤ} (hi : InInt32 i) (fields : List (List Char)) :
    strtok ',' ([','].intercalate (decimal i :: fields)) =
        some (decimal i, [','].intercalate fields) ∧
      (decimal i).length ≠ 0 ∧ strtol (decimal i) = (i, []) ∧ int32 i = i := by
  obtain ⟨hne, hcomma⟩ := plain_decimal i
  refine ⟨strtok_intercalate hne hcomma fields, ?_, ?_, int32_eq_self hi⟩
  · exact fun h => hne (List.length_eq_zero_iff.mp h)
  · simpa using strtol_decimal_append hi noDigit_nil

theorem decode_int {i : ℤ} (hi : InInt32 i) (fields : List (List Char)) :
    decode ('d' :: fmt) (.dest :: params) ([','].intercalate (decimal i :: fields)) =
      (decode fmt params ([','].intercalate fields)).store (.int i) := by
  obtain ⟨htok, hlen, hstrtol, hint⟩ := decode_number hi fields
  rw [decode, htok]
  dsimp only
  rw [if_neg hlen, if_pos rfl, hstrtol, if_neg (by simp), hint]

theorem decode_same {i : ℤ} (hi : InInt32 i) (fields : List (List Char)) :
    decode ('n' :: fmt) (.int i :: params) ([','].intercalate (decimal i :: fields)) =
      decode fmt params ([','].intercalate fields) := by
  obtain ⟨htok, hlen, hstrtol, hint⟩ := decode_number hi fields
  rw [decode, htok]
  dsimp only
  rw [if_neg hlen, if_neg (by decide), if_pos rfl, hstrtol, if_neg (by simp), hint,
    if_neg (by simp)]

theorem decode_str {p : Char} (hp : p = 's' ∨ p = 'S') {args tok rest : List Char}
    (htok : strtok ',' args = some (tok, rest)) :
    decode (p :: fmt) (.dest :: params) args = (decode fmt params rest).store (.str tok) := by
  have hne : tok.length ≠ 0 := fun h => (strtok_spec htok).1 (List.length_eq_zero_iff.mp h)
  rw [decode, htok]
  rcases hp with rfl | rfl <;> simp [hne]

/-- **Reading back.** The arguments are stored as they were just when the strings among them are
not empty and have no comma. -/
theorem decode_eq_written_iff (h : Matches fmt args params) :
    decode fmt params ([','].intercalate (args.map Arg.field)) = .written (delivered fmt args) ↔
      PlainStrings args := by
  induction h with
  | nil => exact iff_of_true rfl fun s hs => nomatch hs
  | @int _ args _ i hi _ ih =>
    have hplain : PlainStrings (.int i :: args) ↔ PlainStrings args := by simp [PlainStrings]
    rw [List.map_cons, Arg.field, decode_int hi, delivered, if_neg (by decide),
      store_eq_written_iff, ih, hplain]
    exact and_iff_right rfl
  | @same _ args _ i hi _ ih =>
    have hplain : PlainStrings (.int i :: args) ↔ PlainStrings args := by simp [PlainStrings]
    rw [List.map_cons, Arg.field, decode_same hi, delivered, if_pos rfl, ih, hplain]
  | @str _ args _ p s hp _ ih =>
    have hplain : PlainStrings (.str s :: args) ↔ Plain s ∧ PlainStrings args := by
      simp [PlainStrings, forall_and, or_imp]
    have hn : p ≠ 'n' := by rcases hp with rfl | rfl <;> decide
    rw [List.map_cons, Arg.field, delivered, if_neg hn, hplain]
    by_cases hs : Plain s
    · rw [decode_str hp (strtok_intercalate hs.1 hs.2 _), store_eq_written_iff, ih]
      simp [hs]
    · refine iff_of_false (fun hwritten => hs ?_) fun hboth => hs hboth.1
      -- Whatever is stored is a token, and `s` is none.
      cases htok : strtok ',' ([','].intercalate (s :: args.map Arg.field)) with
      | none =>
        rw [decode, htok] at hwritten
        cases hwritten
      | some next =>
        obtain ⟨tok, rest⟩ := next
        rw [decode_str hp htok, store_eq_written_iff] at hwritten
        obtain rfl := Arg.str.inj hwritten.1
        exact strtok_spec htok

/-- When the child function is called, the first token is its directory and the others have been
read as its arguments. -/
theorem strtok_of_runs {arg : List Char} {stored : List Arg}
    (h : maybeRunChild isDir (some arg) fmt params = .runs cwd stored) :
    ∃ rest, strtok ',' arg = some (cwd, rest) ∧ decode fmt params rest = .written stored := by
  unfold maybeRunChild at h
  dsimp only at h
  cases htok : strtok ',' arg with
  | none =>
    rw [htok] at h
    cases h
  | some next =>
    obtain ⟨childDir, rest⟩ := next
    rw [htok] at h
    dsimp only at h
    cases hdecode : decode fmt params rest with
    | written stored' =>
      rw [hdecode] at h
      dsimp only at h
      split_ifs at h
      · obtain ⟨rfl, rfl⟩ := ChildRun.runs.inj h
        exact ⟨rest, rfl, hdecode⟩
    | returned => rw [hdecode] at h; cases h
    | exited => rw [hdecode] at h; cases h
    | undefined => rw [hdecode] at h; cases h

/-- **Running a child.** For a directory that can be entered and matching arguments, the child
function is called in the directory of the parent with the arguments of the parent if and only if
the directory has no comma and the strings among the arguments are not empty and have none. -/
theorem arrives_iff (h : Matches fmt args params) (hcwd : cwd ≠ []) (hdir : isDir cwd = true)
    (hstart : isDir startCwd = true) :
    Arrives isDir cwd startCwd argv0 fmt args params ↔ ',' ∉ cwd ∧ PlainStrings args := by
  have hexec : selfExec isDir cwd startCwd argv0 fmt args =
      some [argv0, "-C".toList, [','].intercalate (cwd :: args.map Arg.field)] := by
    rw [selfExec, encode_eq h, hstart]
    rfl
  rw [← decode_eq_written_iff h]
  constructor
  · rintro ⟨arg, harg, hrun⟩
    obtain rfl : [','].intercalate (cwd :: args.map Arg.field) = arg := by
      simpa [hexec] using harg
    obtain ⟨rest, htok, hdecode⟩ := strtok_of_runs hrun
    have hcomma := (strtok_spec htok).2
    rw [strtok_intercalate hcwd hcomma] at htok
    obtain ⟨-, rfl⟩ := Prod.mk.inj (Option.some.inj htok)
    exact ⟨hcomma, hdecode⟩
  · rintro ⟨hcomma, hdecode⟩
    refine ⟨_, hexec, ?_⟩
    rw [maybeRunChild, strtok_intercalate hcwd hcomma]
    dsimp only
    rw [hdecode]
    exact if_pos hdir

theorem arrives_example :
    Arrives (fun _ => true) "/tmp".toList "/".toList "test".toList "dnS".toList
      [.int (-7), .int 2, .str "a b".toList] [.dest, .int 2, .dest] := by
  refine (arrives_iff (.int (by decide) (.same (by decide) (.str (.inr rfl) .nil))) (by decide) rfl
    rfl).mpr ⟨by decide, ?_⟩
  intro s hs
  obtain rfl : s = "a b".toList := by simpa using hs
  decide

/-- The string `a,b` arrives as `a`. -/
theorem not_arrives_comma :
    ¬Arrives (fun _ => true) "/tmp".toList "/".toList "test".toList "s".toList
      [.str "a,b".toList] [.dest] := by
  have hexec : selfExec (fun _ => true) "/tmp".toList "/".toList "test".toList "s".toList
      [.str "a,b".toList] = some ["test".toList, "-C".toList, "/tmp,a,b".toList] := by
    decide +kernel
  have hrun : maybeRunChild (fun _ => true) (some "/tmp,a,b".toList) "s".toList [.dest] =
      .runs "/tmp".toList [.str "a".toList] := by
    decide +kernel
  rintro ⟨arg, harg, hrun'⟩
  obtain rfl : "/tmp,a,b".toList = arg := by
    rw [hexec] at harg
    simpa only [Option.some.injEq, List.cons.injEq, true_and, and_true] using harg
  have hstored := (ChildRun.runs.inj (hrun.symm.trans hrun')).2
  exact absurd hstored (by decide +kernel)

end SelfExec

end SnowballLtp
