import Mathlib.Algebra.GroupWithZero.Nat
import Mathlib.Data.List.Basic

/-!
# Command line options

`getopt` goes through the arguments of a program and returns one option after the other, with its
argument. The option string has the letters; a letter in front of a colon takes an argument, which
is the rest of the word or the next word. Words that are no options are passed over, and a word of
two dashes ends the options. An unknown letter and a missing argument are returned as a question
mark, the latter as a colon when the option string starts with one.

## Main definitions

* `Getopt`, `getopt`: the options of a command line.
* `ReturnsLetters`: what a caller relies on.

## Main results

* `returnsLetters_getopt`.
* `getopt_word`: an option in a word of its own, with its argument in the next one.
* `getopt_attached`, `getopt_operand`: an option with its argument, and a word that is no option.
-/

namespace SnowballLtp

/-- An option that is returned; `opt` is nothing for a value that ends the options. -/
structure Getopt where
  opt : Option Char
  optarg : Option (List Char)
  deriving DecidableEq, Repr

/-- The letter is in front of a colon. -/
def TakesArgument (optstring : List Char) (c : Char) : Prop :=
  (optstring.dropWhile fun d => decide (d ≠ c)).tail.head? = some ':'

instance (optstring : List Char) (c : Char) : Decidable (TakesArgument optstring c) :=
  inferInstanceAs (Decidable (_ = _))

/-- What stands for a missing argument. -/
def missingArgument (optstring : List Char) : Char :=
  if optstring.head? = some ':' then ':' else '?'

/-- The options in the rest of a word and in the words behind it. -/
def getoptFrom (optstring : List Char) : List Char → List (List Char) → List Getopt
  | c :: cs, words =>
    if c = ':' ∨ c ∉ optstring then ⟨some '?', none⟩ :: getoptFrom optstring cs words
    else if TakesArgument optstring c then
      if cs ≠ [] then ⟨some c, some cs⟩ :: getoptFrom optstring [] words
      else
        match words with
        | [] => [⟨some (missingArgument optstring), none⟩]
        | word :: words => ⟨some c, some word⟩ :: getoptFrom optstring [] words
    else ⟨some c, none⟩ :: getoptFrom optstring cs words
  | [], [] => []
  | [], word :: words =>
    if word = ['-', '-'] then []
    else if word.head? = some '-' then getoptFrom optstring word.tail words
    else getoptFrom optstring [] words
termination_by rest words => rest.length + (words.map fun word => word.length + 1).sum
decreasing_by all_goals simp only [List.length_cons, List.length_nil, List.map_cons,
  List.sum_cons, List.length_tail]; omega

/-- `getopt`, called until there are no options left. -/
def getopt (argv : List (List Char)) (optstring : List Char) : List Getopt :=
  getoptFrom optstring [] argv.tail

/-- The letter is a question mark or one of the option string. -/
def IsLetter (optstring : List Char) (r : Getopt) : Prop :=
  ∀ c ∈ r.opt, c = '?' ∨ c ∈ optstring ∧ c ≠ ':'

/-- What a caller whose option string does not start with a colon relies on. -/
def ReturnsLetters (getopt : List Char → List Getopt) : Prop :=
  ∀ optstring, optstring.head? ≠ some ':' → ∀ r ∈ getopt optstring, IsLetter optstring r

variable {optstring : List Char} {c : Char}

private theorem isLetter_of_mem (arg : Option (List Char)) (h : ¬(c = ':' ∨ c ∉ optstring)) :
    IsLetter optstring ⟨some c, arg⟩ := by
  rintro d hd
  obtain rfl := Option.mem_some.mp hd
  exact .inr ⟨Decidable.not_not.mp fun hc => h (.inr hc), fun hc => h (.inl hc)⟩

private theorem isLetter_unknown (arg : Option (List Char)) : IsLetter optstring ⟨some '?', arg⟩ :=
  fun _ hc => .inl (Option.mem_some.mp hc).symm

private theorem getoptFrom_letters (hcolon : optstring.head? ≠ some ':') (rest : List Char)
    (words : List (List Char)) : ∀ r ∈ getoptFrom optstring rest words, IsLetter optstring r := by
  fun_induction getoptFrom optstring rest words with
  | case1 c cs words hunknown ih => exact List.forall_mem_cons.mpr ⟨isLetter_unknown _, ih⟩
  | case2 c cs words hletter _ _ ih =>
    exact List.forall_mem_cons.mpr ⟨isLetter_of_mem _ hletter, ih⟩
  | case3 c cs hletter _ _ =>
    rw [missingArgument, if_neg hcolon, List.forall_mem_singleton]
    exact isLetter_unknown _
  | case4 c cs hletter _ _ word words ih =>
    exact List.forall_mem_cons.mpr ⟨isLetter_of_mem _ hletter, ih⟩
  | case5 c cs words hletter _ ih => exact List.forall_mem_cons.mpr ⟨isLetter_of_mem _ hletter, ih⟩
  | case6 => exact fun r hr => absurd hr List.not_mem_nil
  | case7 => exact fun r hr => absurd hr List.not_mem_nil
  | case8 word words _ _ ih => exact ih
  | case9 word words _ _ ih => exact ih

theorem returnsLetters_getopt (argv : List (List Char)) : ReturnsLetters (getopt argv) :=
  fun _ hcolon => getoptFrom_letters hcolon [] argv.tail

/-- **An option in a word of its own**, with its argument in the next word. -/
theorem getopt_word (hcolon : c ≠ ':') (hdash : c ≠ '-') (hc : c ∈ optstring)
    (harg : TakesArgument optstring c) (word : List Char) (words : List (List Char)) :
    getoptFrom optstring [] (['-', c] :: word :: words) =
      ⟨some c, some word⟩ :: getoptFrom optstring [] words := by
  have hdashes : ['-', c] ≠ ['-', '-'] := by simpa using hdash
  have hletter : ¬(c = ':' ∨ c ∉ optstring) := by simp [hcolon, hc]
  rw [getoptFrom, if_neg hdashes, if_pos (by rfl), List.tail_cons, getoptFrom, if_neg hletter,
    if_pos harg]
  rfl

/-- An option with its argument in the same word. -/
theorem getopt_attached (hcolon : c ≠ ':') (hdash : c ≠ '-') (hc : c ∈ optstring)
    (harg : TakesArgument optstring c) {arg : List Char} (hne : arg ≠ [])
    (words : List (List Char)) :
    getoptFrom optstring [] (('-' :: c :: arg) :: words) =
      ⟨some c, some arg⟩ :: getoptFrom optstring [] words := by
  have hdashes : '-' :: c :: arg ≠ ['-', '-'] := by simp [hdash]
  have hletter : ¬(c = ':' ∨ c ∉ optstring) := by simp [hcolon, hc]
  rw [getoptFrom, if_neg hdashes, if_pos (by rfl), List.tail_cons]
  cases words <;> rw [getoptFrom, if_neg hletter, if_pos harg, if_pos hne]

/-- A word that is no option. -/
theorem getopt_operand {word : List Char} (h : word.head? ≠ some '-') (words : List (List Char)) :
    getoptFrom optstring [] (word :: words) = getoptFrom optstring [] words := by
  have hdashes : word ≠ ['-', '-'] := by
    rintro rfl
    exact h rfl
  rw [getoptFrom, if_neg hdashes, if_neg h]

end SnowballLtp
