import Mathlib.Data.Int.Notation
import SnowballLtp.Machine.Bytes
import SnowballLtp.Machine.Separated

/-!
# Range lists

`parse_ranges` reads a comma-separated list of ranges `min:max:mult` into an array with one cell
more than the string has commas. `strtok` merges adjacent commas, the first two colons of a token
separate its fields, and a field that is empty or missing has a default of its own: a missing
`max` is the `min` of the same range, an empty one is `defmax`.

The array never overflows. What overflows is the static buffer for the text of an error: the text
contains the rejected field, whatever its length, also when the caller has not asked for it.

## Main definitions

* `Range`, `Fields`, `splitFields`, `parseRange`, `parseTokens`, `parseRanges`.
* `rangeMin`, `rangeMax`, `rangeMult`.
* `ParsesRanges`: what a call should do.

## Main results

* `parseRanges_eq`: the result of a call, by the first rejected field.
* `parsesRanges_iff`: a call does what it should unless the text of its error is too long.
-/

namespace SnowballLtp

namespace ParseRanges

/-- `struct range`. -/
structure Range where
  min : ℤ
  max : ℤ
  mult : ℤ
  deriving DecidableEq, Repr

/-- The size of the static buffer `errmsg`. -/
def sizeofErrmsg : ℕ := 256

/-- The text about a field that `parse_func` does not accept. -/
def parseError (field : List Char) : List Char :=
  "error parsing string ".toList ++ field ++ " into an integer".toList

/-- `sprintf`: the text and its terminator go to the start of the buffer. -/
def sprintf {n : ℕ} (dst : CArray Char n) (text : List Char) : Except Fault (CArray Char n) :=
  if h : text.length < n then
    .ok ⟨overwrite dst.cells 0 (text ++ [Char.ofNat 0]), by
      have hlen : 0 + (text ++ [Char.ofNat 0]).length ≤ dst.cells.length := by
        rw [dst.length_eq, List.length_append, List.length_singleton]
        omega
      rw [length_overwrite hlen, dst.length_eq]⟩
  else .error .outOfBounds

/-- The parts of a token; `n2str` and `multstr` are null when their colon is missing. -/
structure Fields where
  n1str : List Char
  n2str : Option (List Char)
  multstr : Option (List Char)
  deriving DecidableEq, Repr

/-- Split a token at its first two colons. -/
def splitFields (tok : List Char) : Fields :=
  match cut ':' tok with
  | (n1str, none) => ⟨n1str, none, none⟩
  | (n1str, some n2str) => ⟨n1str, some (cut ':' n2str).1, (cut ':' n2str).2⟩

/-- Parse a field unless it is empty, which leaves the value as it is. The error is the field. -/
def parseField (parseFunc : List Char → Option ℤ) (field : List Char) (val : ℤ) :
    Except (List Char) ℤ :=
  if 0 < field.length then
    match parseFunc field with
    | some val => .ok val
    | none => .error field
  else .ok val

/-- The body of the loop for one token. -/
def parseRange (parseFunc : List Char → Option ℤ) (defaults : Range) (tok : List Char) :
    Except (List Char) Range := do
  let min ← parseField parseFunc (splitFields tok).n1str defaults.min
  let max ←
    match (splitFields tok).n2str with
    | none => .ok min
    | some n2str => parseField parseFunc n2str defaults.max
  let mult ←
    match (splitFields tok).multstr with
    | none => .ok defaults.mult
    | some multstr => parseField parseFunc multstr defaults.mult
  return { min, max, mult }

/-- Why the loop is left early. -/
inductive Abort
  | fault (fault : Fault)
  | field (field : List Char)
  deriving DecidableEq, Repr

/-- Store a range in the cell that `rp` points at. -/
def storeRange (ranges : List Range) (rp : ℕ) (r : Range) : Except Abort (List Range) :=
  match store ranges rp [r] with
  | .ok ranges => .ok ranges
  | .error fault => .error (.fault fault)

/-- The loop over the tokens of `str`; the cell is set to the defaults before it is parsed. -/
def parseTokens (parseFunc : List Char → Option ℤ) (defaults : Range) (ranges : List Range)
    (rp : ℕ) (str : List Char) : Except Abort (List Range × ℕ) :=
  match _ : strtok ',' str with
  | none => .ok (ranges, rp)
  | some (tok, rest) =>
    match storeRange ranges rp defaults with
    | .error abort => .error abort
    | .ok ranges =>
      match parseRange parseFunc defaults tok with
      | .error field => .error (.field field)
      | .ok r =>
        match storeRange ranges rp r with
        | .error abort => .error abort
        | .ok ranges => parseTokens parseFunc defaults ranges (rp + 1) rest
termination_by str.length
decreasing_by exact length_lt_of_strtok ‹_›

/-- What a call leaves: the value returned, what `*rangeptr` is set to and the error buffer. -/
structure Parsed where
  ret : ℤ
  rangeptr : Option (List Range)
  errmsg : CArray Char sizeofErrmsg

/-- `parse_ranges`, for a `rangeptr` that is null or not. The cells of the array that `malloc`
returns are `fresh`, and `errmsg` is the static buffer, which `*errptr` is made to point at. -/
def parseRanges (parseFunc : List Char → Option ℤ) (fresh : ℕ → Range) (rangeptr : Bool)
    (errmsg : CArray Char sizeofErrmsg) (str : List Char) (defmin defmax defmult : ℤ) :
    Except Fault Parsed :=
  let ncommas := str.count ','
  let ranges := (List.range (ncommas + 1)).map fresh
  match parseTokens parseFunc ⟨defmin, defmax, defmult⟩ ranges 0 str with
  | .ok (ranges, rp) =>
    .ok { ret := rp, rangeptr := if rangeptr then some ranges else none, errmsg }
  | .error (.field field) =>
    match sprintf errmsg (parseError field) with
    | .ok errmsg => .ok { ret := -1, rangeptr := none, errmsg }
    | .error fault => .error fault
  | .error (.fault fault) => .error fault

/-- `range_min`. -/
def rangeMin (rbuf : List Range) (r : ℤ) : Except Fault ℤ := (cell rbuf r).map Range.min

/-- `range_max`. -/
def rangeMax (rbuf : List Range) (r : ℤ) : Except Fault ℤ := (cell rbuf r).map Range.max

/-- `range_mult`. -/
def rangeMult (rbuf : List Range) (r : ℤ) : Except Fault ℤ := (cell rbuf r).map Range.mult

/-! ### The fields of a token -/

variable {parseFunc : List Char → Option ℤ} {defaults : Range}

/-- The fields of a token that are there, in the order in which they are parsed. -/
def fields (tok : List Char) : List (List Char) :=
  (splitFields tok).n1str :: ((splitFields tok).n2str.toList ++ (splitFields tok).multstr.toList)

/-- The field is passed to `parse_func` and not accepted. -/
def Rejected (parseFunc : List Char → Option ℤ) (field : List Char) : Prop :=
  field ≠ [] ∧ parseFunc field = none

instance (parseFunc : List Char → Option ℤ) : DecidablePred (Rejected parseFunc) :=
  fun field => inferInstanceAs (Decidable (field ≠ [] ∧ parseFunc field = none))

/-- The first field of the list that is rejected. -/
def firstRejected (parseFunc : List Char → Option ℤ) (l : List (List Char)) :
    Option (List Char) :=
  l.find? fun field => decide (Rejected parseFunc field)

/-- The value of a field that is there. -/
def value (parseFunc : List Char → Option ℤ) (field : List Char) (default : ℤ) : ℤ :=
  if field = [] then default else (parseFunc field).getD default

/-- The range that a token stands for. -/
def rangeOf (parseFunc : List Char → Option ℤ) (defaults : Range) (tok : List Char) : Range :=
  let min := value parseFunc (splitFields tok).n1str defaults.min
  { min
    max := (splitFields tok).n2str.elim min fun n2str => value parseFunc n2str defaults.max
    mult := (splitFields tok).multstr.elim defaults.mult fun multstr =>
      value parseFunc multstr defaults.mult }

theorem parseField_eq (field : List Char) (val : ℤ) :
    parseField parseFunc field val =
      if Rejected parseFunc field then .error field else .ok (value parseFunc field val) := by
  by_cases hne : field = []
  · subst hne
    simp [parseField, Rejected, value]
  · have hpos := List.length_pos_iff.mpr hne
    cases hv : parseFunc field <;> simp [parseField, Rejected, value, hne, hpos, hv]

theorem firstRejected_cons (field : List Char) (l : List (List Char)) :
    firstRejected parseFunc (field :: l) =
      if Rejected parseFunc field then some field else firstRejected parseFunc l := by
  rw [firstRejected, List.find?_cons]
  by_cases h : Rejected parseFunc field <;> simp [h, firstRejected]

/-- A token fails with its first rejected field. -/
theorem parseRange_eq (tok : List Char) :
    parseRange parseFunc defaults tok =
      (firstRejected parseFunc (fields tok)).elim (.ok (rangeOf parseFunc defaults tok))
        .error := by
  rw [parseRange, fields, rangeOf]
  by_cases hmin : Rejected parseFunc (splitFields tok).n1str
  · simp [parseField_eq, firstRejected_cons, hmin, Bind.bind, Except.bind]
  · rw [firstRejected_cons, if_neg hmin, parseField_eq, if_neg hmin]
    -- The two fields behind the colons fail in the order in which they stand.
    cases (splitFields tok).n2str with
    | none =>
      cases (splitFields tok).multstr with
      | none => rfl
      | some multstr =>
        by_cases hmult : Rejected parseFunc multstr <;>
          simp [parseField_eq, firstRejected, hmult, Bind.bind, Except.bind, pure, Except.pure]
    | some n2str =>
      by_cases hmax : Rejected parseFunc n2str
      · simp [parseField_eq, firstRejected_cons, hmax, Bind.bind, Except.bind]
      · cases (splitFields tok).multstr with
        | none =>
          simp [parseField_eq, firstRejected, hmax, Bind.bind, Except.bind, pure, Except.pure]
        | some multstr =>
          by_cases hmult : Rejected parseFunc multstr <;>
            simp [parseField_eq, firstRejected, hmax, hmult, Bind.bind, Except.bind, pure,
              Except.pure]

/-! ### The loop -/

theorem storeRange_eq_ok {ranges : List Range} {rp : ℕ} (h : rp < ranges.length) (r : Range) :
    storeRange ranges rp r = .ok (overwrite ranges rp [r]) := by
  rw [storeRange, store_eq_ok ranges [r] rp h]

/-- The fields of all tokens, in order. -/
def allFields (toks : List (List Char)) : List (List Char) := toks.flatMap fields

theorem firstRejected_append (l l' : List (List Char)) :
    firstRejected parseFunc (l ++ l') =
      (firstRejected parseFunc l).elim (firstRejected parseFunc l') some := by
  rw [firstRejected, List.find?_append]
  cases h : firstRejected parseFunc l <;> rw [firstRejected] at h <;> simp [h, firstRejected]

/-- While the array has a cell for every token that is left, the loop stores the ranges one after
the other or stops at the first rejected field. -/
theorem parseTokens_eq (str : List Char) (ranges : List Range) (rp : ℕ)
    (hlen : rp + (tokens ',' str).length ≤ ranges.length) :
    parseTokens parseFunc defaults ranges rp str =
      (firstRejected parseFunc (allFields (tokens ',' str))).elim
        (.ok (overwrite ranges rp ((tokens ',' str).map (rangeOf parseFunc defaults)),
          rp + (tokens ',' str).length))
        fun field => .error (.field field) := by
  induction hn : str.length using Nat.strong_induction_on generalizing str ranges rp with
  | h n ih =>
  subst hn
  rw [parseTokens]
  cases htok : strtok ',' str with
  | none => simp [tokens_of_strtok_none htok, allFields, firstRejected]
  | some next =>
    obtain ⟨tok, rest⟩ := next
    rw [tokens_of_strtok htok, List.length_cons] at hlen
    have hrest := length_lt_of_strtok htok
    have hlen₁ : (overwrite ranges rp [defaults]).length = ranges.length :=
      length_overwrite (by simp; omega)
    simp only [storeRange_eq_ok (show rp < ranges.length by omega), parseRange_eq]
    rw [tokens_of_strtok htok, allFields, List.flatMap_cons, firstRejected_append]
    cases hrej : firstRejected parseFunc (fields tok) with
    | some field => rfl
    | none =>
      have hstore :
          storeRange (overwrite ranges rp [defaults]) rp (rangeOf parseFunc defaults tok) =
            .ok (overwrite (overwrite ranges rp [defaults]) rp [rangeOf parseFunc defaults tok]) :=
        storeRange_eq_ok (by omega) _
      simp only [Option.elim_none, hstore]
      have hlen₂ : (overwrite (overwrite ranges rp [defaults]) rp
          [rangeOf parseFunc defaults tok]).length = ranges.length := by
        rw [length_overwrite (by simp; omega), hlen₁]
      rw [ih rest.length hrest rest _ (rp + 1) (by omega) rfl, allFields]
      congr 3
      · have hone : rp + [defaults].length ≤ ranges.length := by
          simp only [List.length_singleton]; omega
        rw [overwrite_overwrite_self (by rfl) hone, List.map_cons, ← List.singleton_append]
        refine overwrite_overwrite_append ranges [_] _ rp ?_
        simp only [List.length_append, List.length_singleton, List.length_map]; omega
      · rw [List.length_cons]; omega

/-! ### A call -/

theorem length_parseError (field : List Char) : (parseError field).length = field.length + 37 := by
  unfold parseError
  simp only [List.length_append, String.length_toList]
  have hbefore : "error parsing string ".length = 21 := rfl
  have hbehind : " into an integer".length = 16 := rfl
  omega

theorem firstRejected_eq_none_iff {l : List (List Char)} :
    firstRejected parseFunc l = none ↔ ¬∃ field ∈ l, Rejected parseFunc field := by
  simp [firstRejected]

theorem exists_allFields_iff {toks : List (List Char)} :
    (∃ field ∈ allFields toks, Rejected parseFunc field) ↔
      ∃ tok ∈ toks, ∃ field ∈ fields tok, Rejected parseFunc field := by
  simp only [allFields, List.mem_flatMap]
  constructor
  · rintro ⟨field, ⟨tok, htok, hfield⟩, hrej⟩
    exact ⟨tok, htok, field, hfield, hrej⟩
  · rintro ⟨tok, htok, field, hfield, hrej⟩
    exact ⟨field, ⟨tok, htok, hfield⟩, hrej⟩

/-- What a call is to leave: an error if a field is rejected, otherwise the ranges. -/
def ParsesRanges (parseFunc : List Char → Option ℤ) (fresh : ℕ → Range)
    (errmsg : CArray Char sizeofErrmsg) (str : List Char) (defmin defmax defmult : ℤ) : Prop :=
  ∃ p, parseRanges parseFunc fresh true errmsg str defmin defmax defmult = .ok p ∧
    (p.ret = -1 ↔ ∃ tok ∈ tokens ',' str, ∃ field ∈ fields tok, Rejected parseFunc field) ∧
    (p.ret = -1 → p.rangeptr = none) ∧
    (p.ret ≠ -1 → p.ret = (tokens ',' str).length ∧
      ∃ r, p.rangeptr = some r ∧ r.length = str.count ',' + 1 ∧
        ∀ (i : ℕ) (tok : List Char), (tokens ',' str)[i]? = some tok →
          let f := splitFields tok
          let min := value parseFunc f.n1str defmin
          rangeMin r i = .ok min ∧
          rangeMax r i = .ok (f.n2str.elim min fun n2str => value parseFunc n2str defmax) ∧
          rangeMult r i = .ok (f.multstr.elim defmult fun multstr =>
            value parseFunc multstr defmult))

variable (fresh : ℕ → Range) (rangeptr : Bool) (errmsg : CArray Char sizeofErrmsg)
  (str : List Char) (defmin defmax defmult : ℤ)

/-- The loop of a call never leaves the array. -/
theorem parseRanges_tokens_eq :
    parseTokens parseFunc defaults ((List.range (str.count ',' + 1)).map fresh) 0 str =
      (firstRejected parseFunc (allFields (tokens ',' str))).elim
        (.ok (overwrite ((List.range (str.count ',' + 1)).map fresh) 0
          ((tokens ',' str).map (rangeOf parseFunc defaults)), (tokens ',' str).length))
        fun field => .error (.field field) := by
  have hlen : (tokens ',' str).length ≤ str.count ',' + 1 := length_tokens_le str
  rw [parseTokens_eq _ _ _ (by rw [List.length_map, List.length_range]; omega), Nat.zero_add]

/-- A call whose fields are all accepted. -/
theorem parseRanges_of_accepted
    (h : firstRejected parseFunc (allFields (tokens ',' str)) = none) :
    parseRanges parseFunc fresh rangeptr errmsg str defmin defmax defmult =
      .ok {
        ret := (tokens ',' str).length
        rangeptr :=
          if rangeptr then
            some (overwrite ((List.range (str.count ',' + 1)).map fresh) 0
              ((tokens ',' str).map (rangeOf parseFunc ⟨defmin, defmax, defmult⟩)))
          else none
        errmsg } := by
  rw [parseRanges, parseRanges_tokens_eq, h]
  rfl

/-- A call with a rejected field. -/
theorem parseRanges_of_rejected {field : List Char}
    (h : firstRejected parseFunc (allFields (tokens ',' str)) = some field) :
    parseRanges parseFunc fresh rangeptr errmsg str defmin defmax defmult =
      match sprintf errmsg (parseError field) with
      | .ok errmsg => .ok { ret := -1, rangeptr := none, errmsg }
      | .error fault => .error fault := by
  rw [parseRanges, parseRanges_tokens_eq, h]
  rfl

/-- Without a rejected field a call does what it is to do. -/
theorem parsesRanges_of_accepted
    (h : firstRejected parseFunc (allFields (tokens ',' str)) = none) :
    ParsesRanges parseFunc fresh errmsg str defmin defmax defmult := by
  refine ⟨_, parseRanges_of_accepted fresh true errmsg str defmin defmax defmult h, ?_, ?_, ?_⟩
  · refine iff_of_false (by dsimp only; omega) fun hex => ?_
    exact firstRejected_eq_none_iff.mp h (exists_allFields_iff.mpr hex)
  · intro hret
    dsimp only at hret
    omega
  · intro _
    have hlen : (tokens ',' str).length ≤ str.count ',' + 1 := length_tokens_le str
    have hfit : 0 + ((tokens ',' str).map (rangeOf parseFunc ⟨defmin, defmax, defmult⟩)).length ≤
        ((List.range (str.count ',' + 1)).map fresh).length := by
      simp only [List.length_map, List.length_range]
      omega
    refine ⟨rfl, _, rfl, by rw [length_overwrite hfit]; simp, fun i tok htok => ?_⟩
    have hi := (List.getElem?_eq_some_iff.mp htok).1
    have hcell : cell (overwrite ((List.range (str.count ',' + 1)).map fresh) 0
        ((tokens ',' str).map (rangeOf parseFunc ⟨defmin, defmax, defmult⟩))) i =
          .ok (rangeOf parseFunc ⟨defmin, defmax, defmult⟩ tok) := by
      refine cell_eq_ok ?_
      rw [getElem?_overwrite hfit, if_pos (by simpa using hi)]
      simp [htok]
    rw [rangeMin, rangeMax, rangeMult, hcell]
    exact ⟨rfl, rfl, rfl⟩

/-- With a rejected field a call does what it is to do if the text of the error fits. -/
theorem parsesRanges_iff_of_rejected {field : List Char}
    (h : firstRejected parseFunc (allFields (tokens ',' str)) = some field) :
    ParsesRanges parseFunc fresh errmsg str defmin defmax defmult ↔ field.length ≤ 218 := by
  have hrun := parseRanges_of_rejected fresh true errmsg str defmin defmax defmult h
  have hex : ∃ tok ∈ tokens ',' str, ∃ field ∈ fields tok, Rejected parseFunc field := by
    by_contra hno
    rw [firstRejected_eq_none_iff.mpr (exists_allFields_iff.not.mpr hno)] at h
    cases h
  have hlen := length_parseError field
  by_cases hfits : field.length ≤ 218
  · rw [sprintf, dif_pos (by rw [hlen, sizeofErrmsg]; omega)] at hrun
    exact iff_of_true ⟨_, hrun, iff_of_true rfl hex, fun _ => rfl, fun hret => absurd rfl hret⟩
      hfits
  · rw [sprintf, dif_neg (by rw [hlen, sizeofErrmsg]; omega)] at hrun
    refine iff_of_false ?_ hfits
    rintro ⟨p, hp, -⟩
    rw [hrun] at hp
    cases hp

/-- **Range lists.** A call reports an error just when a field is rejected, otherwise stores the
range of every token and never leaves the array, unless the first field that is rejected has more
than 218 characters: then the text about it overruns the static buffer. -/
theorem parsesRanges_iff :
    ParsesRanges parseFunc fresh errmsg str defmin defmax defmult ↔
      ∀ field, firstRejected parseFunc (allFields (tokens ',' str)) = some field →
        field.length ≤ 218 := by
  cases h : firstRejected parseFunc (allFields (tokens ',' str)) with
  | none =>
    exact iff_of_true (parsesRanges_of_accepted fresh errmsg str defmin defmax defmult h)
      fun _ hsome => nomatch hsome
  | some field =>
    rw [parsesRanges_iff_of_rejected fresh errmsg str defmin defmax defmult h]
    constructor
    · rintro hlen _ ⟨⟩
      exact hlen
    · intro hlen
      exact hlen field rfl

/-- One token without a colon that `parse_func` does not accept. -/
theorem firstRejected_of_plain {tok : List Char} (hcomma : ',' ∉ tok) (hcolon : ':' ∉ tok)
    (hrej : Rejected parseFunc tok) :
    firstRejected parseFunc (allFields (tokens ',' tok)) = some tok := by
  have htok : tokens ',' tok = [tok] := by
    rw [tokens, List.splitOn_eq_singleton hcomma, List.filter_cons_of_pos (by simpa using hrej.1),
      List.filter_nil]
  have hfields : fields tok = [tok] := by
    rw [fields, splitFields, cut_of_notMem hcolon]
    rfl
  rw [htok, allFields, List.flatMap_cons, List.flatMap_nil, List.append_nil, hfields,
    firstRejected_cons, if_pos hrej]

/-- A token of 219 characters that is no number. -/
theorem not_parsesRanges_long_field :
    ¬ParsesRanges (fun _ => none) (fun _ => ⟨0, 0, 0⟩) (CArray.fill sizeofErrmsg (Char.ofNat 0))
      (List.replicate 219 'x') 0 0 1 := by
  have hnot (c : Char) (hc : c ≠ 'x') : c ∉ List.replicate 219 'x' :=
    fun hmem => hc (List.eq_of_mem_replicate hmem)
  have hne : List.replicate 219 'x' ≠ [] := by
    rw [← List.length_pos_iff, List.length_replicate]
    omega
  have hfirst : firstRejected (fun _ => none) (allFields (tokens ',' (List.replicate 219 'x'))) =
      some (List.replicate 219 'x') :=
    firstRejected_of_plain (hnot ',' (by decide)) (hnot ':' (by decide)) ⟨hne, rfl⟩
  rw [parsesRanges_iff_of_rejected _ _ _ _ _ _ hfirst, List.length_replicate]
  omega

end ParseRanges

end SnowballLtp
