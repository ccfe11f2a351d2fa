import SnowballLtp.Machine.Loop
import SnowballLtp.Machine.StrtokAt

/-!
# Tokens of an argument string

`string_to_tokens` stores pointers to the tokens of a string in an array and a null pointer behind
them. Its loop stores a pointer in every element of the array while there are tokens, and the null
pointer goes into the element that the loop did not reach. When there are as many tokens as elements
that is the element behind the end.

## Main definitions

* `stringToTokens`.
* `TokensPlaced`: what should be in the array.

## Main results

* `stringToTokens_of_lt`, `stringToTokens_of_le`: what a call does.
* `stringToTokens_tokensPlaced_iff`.
-/

namespace SnowballLtp

namespace StringToTokens

/-- What a call leaves: the memory of the string, the array, and the value returned. -/
structure Tokens where
  mem : List Char
  array : List (Option ℕ)
  ret : ℤ
  deriving DecidableEq, Repr

/-- What the loop works with; `save` is the position that `strtok` keeps. -/
structure State where
  mem : List Char
  save : ℕ
  array : List (Option ℕ)
  numToks : ℕ
  deriving DecidableEq, Repr

/-- Store the next token in the array. -/
def storeToken (seps : List Char) (s : State) : Except Fault (Scanned × List (Option ℕ)) := do
  let scanned ← strtokAt seps s.mem s.save
  let array ← store s.array s.numToks [scanned.token]
  pure (scanned, array)

/-- Behind the loop. -/
def terminate (arraySize : ℤ) (mem : List Char) (array : List (Option ℕ)) (numToks : ℕ) :
    Except Fault Tokens :=
  if numToks = arraySize then
    (store array numToks [none]).map fun array => { mem, array, ret := numToks }
  else .ok { mem, array, ret := numToks }

/-- A pass of the loop. -/
def tokenPass (arraySize : ℤ) (seps : List Char) (s : State) : State ⊕ Except Fault Tokens :=
  if s.numToks < arraySize then
    match storeToken seps s with
    | .error fault => .inr (.error fault)
    | .ok (scanned, array) =>
      if scanned.token = none then .inr (terminate arraySize scanned.mem array s.numToks)
      else .inl { mem := scanned.mem, save := scanned.save, array, numToks := s.numToks + 1 }
  else .inr (terminate arraySize s.mem s.array s.numToks)

/-- `string_to_tokens`; the array and the separators may be null pointers. -/
def stringToTokens (fuel : ℕ) (mem : List Char) (argString : ℕ)
    (argArray : Option (List (Option ℕ))) (arraySize : ℤ) (separator : Option (List Char)) :
    Option (Except Fault Tokens) :=
  match argArray, separator with
  | some array, some seps =>
    if arraySize ≤ 1 then some (.ok { mem, array, ret := -1 })
    else
      match storeToken seps { mem, save := argString, array, numToks := 0 } with
      | .error fault => some (.error fault)
      | .ok (scanned, array) =>
        if scanned.token = none then some (.ok { mem := scanned.mem, array, ret := 0 })
        else
          iterate (tokenPass arraySize seps) fuel
            { mem := scanned.mem, save := scanned.save, array, numToks := 1 }
  | some array, none => some (.ok { mem, array, ret := -1 })
  | none, _ => some (.ok { mem, array := [], ret := -1 })

variable {seps gap tok s before rest : List Char} {c : Char} {array : List (Option ℕ)} {n size : ℕ}

/-! ### Passes -/

/-- The state in front of a string. -/
def atString (before s rest : List Char) (array : List (Option ℕ)) (n : ℕ) : State where
  mem := before ++ (s ++ nul :: rest)
  save := before.length
  array := array
  numToks := n

private theorem storeToken_eq {scanned : Scanned} (s : State)
    (h : strtokAt seps s.mem s.save = .ok scanned) (hn : s.numToks < s.array.length) :
    storeToken seps s = .ok (scanned, overwrite s.array s.numToks [scanned.token]) := by
  rw [storeToken, h]
  exact congrArg (Except.map _) (store_eq_ok s.array [scanned.token] s.numToks hn)

private theorem terminate_of_lt (hn : n < size) (mem : List Char) (array : List (Option ℕ)) :
    terminate size mem array n = .ok { mem, array, ret := n } := by
  have hne : (n : ℤ) ≠ size := by omega
  rw [terminate, if_neg hne]

variable (before rest) in
/-- Without a token the loop leaves with a null pointer in the array. -/
theorem tokenPass_none (hseps : nul ∉ seps) (hgap : IsGap seps gap) (harray : array.length = size)
    (hn : n < size) :
    tokenPass size seps (atString before gap rest array n) =
      .inr (.ok { mem := before ++ (gap ++ nul :: rest), array := overwrite array n [none],
                  ret := n }) := by
  have hstore := storeToken_eq (atString before gap rest array n) (strtokAt_none hseps hgap)
    (harray ▸ hn)
  have hlt : (n : ℤ) < size := by omega
  rw [tokenPass, hstore]
  simp only [atString, if_pos hlt, if_true, terminate_of_lt hn]

/-- A token at the end of the string. -/
theorem tokenPass_last (hgap : IsGap seps gap) (htok : IsTok seps tok)
    (harray : array.length = size) (hn : n < size) :
    tokenPass size seps (atString before (gap ++ tok) rest array n) =
      .inl (atString (before ++ (gap ++ tok)) [] rest
        (overwrite array n [some (before.length + gap.length)]) (n + 1)) := by
  have hcall := strtokAt_last before rest hgap htok
  rw [← List.append_assoc gap] at hcall
  have hstore := storeToken_eq (atString before (gap ++ tok) rest array n) hcall (harray ▸ hn)
  have hlt : (n : ℤ) < size := by omega
  rw [tokenPass, hstore]
  simp [atString, hlt, Nat.add_assoc]

/-- A token in front of a separator. -/
theorem tokenPass_next (hseps : nul ∉ seps) (hgap : IsGap seps gap) (htok : IsTok seps tok)
    (hc : c ∈ seps) (harray : array.length = size) (hn : n < size) (s : List Char) :
    tokenPass size seps (atString before (gap ++ (tok ++ c :: s)) rest array n) =
      .inl (atString (before ++ (gap ++ (tok ++ [nul]))) s rest
        (overwrite array n [some (before.length + gap.length)]) (n + 1)) := by
  have hcall := strtokAt_next before (s ++ nul :: rest) hseps hgap htok hc
  have hmem : before ++ (gap ++ (tok ++ c :: (s ++ nul :: rest))) =
      before ++ (gap ++ (tok ++ c :: s) ++ nul :: rest) := by simp
  rw [hmem] at hcall
  have hstore := storeToken_eq (atString before (gap ++ (tok ++ c :: s)) rest array n) hcall
    (harray ▸ hn)
  have hlt : (n : ℤ) < size := by omega
  rw [tokenPass, hstore]
  simp [atString, hlt, Nat.add_assoc]

/-- The loop leaves the array full, and the null pointer is stored behind its end. -/
theorem tokenPass_full (harray : array.length = size) :
    tokenPass size seps (atString before s rest array size) = .inr (.error .outOfBounds) := by
  have hstore : store array size [none] = .error .outOfBounds := by
    rw [store, if_pos (.inr (by rw [harray, List.length_singleton]; omega))]
  have hlt : ¬(size : ℤ) < size := by omega
  simp only [tokenPass, atString, if_neg hlt, terminate, if_true, hstore]
  rfl

/-! ### The loop -/

/-- The pointers to some tokens. -/
def pointers (toks : List (ℕ × List Char)) : List (Option ℕ) := toks.map fun p => some p.1

/-- An element and those behind it. -/
private theorem overwrite_cons (harray : array.length = size) (x : Option ℕ)
    (l : List (Option ℕ)) (hn : n + 1 + l.length ≤ size) :
    overwrite (overwrite array n [x]) (n + 1) l = overwrite array n (x :: l) :=
  overwrite_overwrite_append array [x] l n (by
    rw [harray, List.length_append, List.length_singleton]
    omega)

private theorem length_overwrite_one (harray : array.length = size) (hn : n < size)
    (x : Option ℕ) : (overwrite array n [x]).length = size := by
  rw [length_overwrite (by rw [harray, List.length_singleton]; omega), harray]

variable (rest) in
/-- The tokens of the rest of the string find room in front of the last element. -/
theorem iterate_tokenPass_of_lt {fuel : ℕ} (hseps : nul ∉ seps) (hnul : nul ∉ s)
    (harray : array.length = size) (hn : n + (tokensAt seps before.length s).length < size)
    (hfuel : size < n + fuel) :
    ∃ behind, iterate (tokenPass size seps) fuel (atString before s rest array n) =
        some (.ok { mem := before ++ behind,
                    array := overwrite array n
                      (pointers (tokensAt seps before.length s) ++ [none]),
                    ret := (n + (tokensAt seps before.length s).length : ℕ) }) ∧
      ∀ p ∈ tokensAt seps before.length s, cstr (before ++ behind) p.1 = p.2 := by
  induction fuel generalizing before s array n with
  | zero => omega
  | succ fuel ih =>
    obtain hgap | ⟨gap, tok, hgap, htok, rfl | ⟨c, s', hc, rfl⟩⟩ := exists_split seps hnul
    · have htoks := tokensAt_none hgap before.length
      rw [htoks, List.length_nil, Nat.add_zero] at hn
      refine ⟨s ++ nul :: rest, ?_, fun p hp => absurd (htoks ▸ hp) List.not_mem_nil⟩
      rw [iterate_succ_inr (tokenPass_none before rest hseps hgap harray hn), htoks]
      rfl
    · have htoks := tokensAt_last hgap htok before.length
      rw [htoks, List.length_singleton] at hn
      obtain ⟨fuel, rfl⟩ := Nat.exists_eq_add_of_le' (show 1 ≤ fuel by omega)
      have hlen := length_overwrite_one harray (show n < size by omega)
        (some (before.length + gap.length))
      have hnil : IsGap seps [] := fun c hc => absurd hc List.not_mem_nil
      have hlast := tokenPass_none (before ++ (gap ++ tok)) rest hseps hnil hlen
        (show n + 1 < size by omega)
      refine ⟨gap ++ (tok ++ nul :: rest), ?_, fun p hp => ?_⟩
      · rw [iterate_succ_inl (tokenPass_last hgap htok harray (by omega)),
          iterate_succ_inr hlast, htoks,
          overwrite_cons harray _ _ (by rw [List.length_singleton]; omega)]
        simp [pointers]
      · rw [htoks, List.mem_singleton] at hp
        subst hp
        have hnultok : nul ∉ tok := fun h => (htok.2 nul h).1 rfl
        have hcstr := cstr_append (before ++ gap) hnultok rest
        rwa [List.length_append, List.append_assoc] at hcstr
    · have htoks := tokensAt_next hgap htok hc before.length s'
      have hnext : (before ++ (gap ++ (tok ++ [nul]))).length =
          before.length + gap.length + tok.length + 1 := by simp [Nat.add_assoc]
      rw [htoks, List.length_cons] at hn
      have hlen := length_overwrite_one harray (show n < size by omega)
        (some (before.length + gap.length))
      have hnuls : nul ∉ s' := fun h => hnul (by simp [h])
      have hlt : n + 1 + (tokensAt seps (before ++ (gap ++ (tok ++ [nul]))).length s').length <
          size := by
        rw [hnext]
        omega
      obtain ⟨behind, hrun, hcstr⟩ := ih hnuls hlen hlt (by omega)
      rw [hnext] at hrun hcstr
      refine ⟨gap ++ (tok ++ nul :: behind), ?_, fun p hp => ?_⟩
      · rw [iterate_succ_inl (tokenPass_next hseps hgap htok hc harray (by omega) s'), hrun, htoks,
          overwrite_cons harray _ _ (by simp [pointers]; omega), List.length_cons,
          Nat.add_right_comm n 1]
        simp [pointers, Nat.add_assoc]
      · rw [htoks] at hp
        rcases List.mem_cons.mp hp with rfl | hp
        · have hnultok : nul ∉ tok := fun h => (htok.2 nul h).1 rfl
          have hcstr := cstr_append (before ++ gap) hnultok behind
          rwa [List.length_append, List.append_assoc] at hcstr
        · simpa using hcstr p hp

/-- As many tokens as elements are left. -/
theorem iterate_tokenPass_of_le {fuel : ℕ} (hseps : nul ∉ seps) (hnul : nul ∉ s)
    (harray : array.length = size) (hn : n ≤ size)
    (hle : size ≤ n + (tokensAt seps before.length s).length) (hfuel : size < n + fuel) :
    iterate (tokenPass size seps) fuel (atString before s rest array n) =
      some (.error .outOfBounds) := by
  induction fuel generalizing before s array n with
  | zero => omega
  | succ fuel ih =>
    by_cases hfull : n = size
    · subst hfull
      exact iterate_succ_inr (tokenPass_full harray)
    have hlen := length_overwrite_one harray (show n < size by omega)
    obtain hgap | ⟨gap, tok, hgap, htok, rfl | ⟨c, s', hc, rfl⟩⟩ := exists_split seps hnul
    · rw [tokensAt_none hgap, List.length_nil] at hle
      omega
    · rw [tokensAt_last hgap htok, List.length_singleton] at hle
      rw [iterate_succ_inl (tokenPass_last hgap htok harray (by omega))]
      exact ih List.not_mem_nil (hlen _) (by omega) (by omega) (by omega)
    · rw [tokensAt_next hgap htok hc, List.length_cons] at hle
      have hnext : (before ++ (gap ++ (tok ++ [nul]))).length =
          before.length + gap.length + tok.length + 1 := by simp [Nat.add_assoc]
      rw [iterate_succ_inl (tokenPass_next hseps hgap htok hc harray (by omega) s')]
      exact ih (fun h => hnul (by simp [h])) (hlen _) (by omega) (by rw [hnext]; omega) (by omega)

/-! ### A call -/

/-- What should be in the array: pointers to the first tokens, as many as there is room for in front
of the last element, and a null pointer behind them. -/
def TokensPlaced (seps before s : List Char) (size : ℕ) (run : Option (Except Fault Tokens)) :
    Prop :=
  ∃ r, run = some (.ok r) ∧ r.array.length = size ∧
    (∀ i p, i < min (tokensAt seps before.length s).length (size - 1) →
      (tokensAt seps before.length s)[i]? = some p →
        r.array[i]? = some (some p.1) ∧ cstr r.mem p.1 = p.2) ∧
    r.array[min (tokensAt seps before.length s).length (size - 1)]? = some none

/-- The first call of `strtok` is like the others. -/
theorem stringToTokens_eq_iterate (fuel : ℕ) (mem : List Char) (argString : ℕ)
    (array : List (Option ℕ)) (hsize : 2 ≤ size) (seps : List Char) :
    stringToTokens fuel mem argString (some array) size (some seps) =
      iterate (tokenPass size seps) (fuel + 1)
        { mem, save := argString, array, numToks := 0 } := by
  have hnot : ¬(size : ℤ) ≤ 1 := by omega
  have hpos : ((0 : ℕ) : ℤ) < size := by omega
  rw [stringToTokens, if_neg hnot, iterate, tokenPass, if_pos hpos]
  cases storeToken seps { mem, save := argString, array, numToks := 0 } with
  | error fault => rfl
  | ok p =>
    dsimp only
    split
    · rw [terminate_of_lt (by omega)]
      rfl
    · rfl

variable (rest) in
/-- With fewer tokens than elements all of them are placed. -/
theorem stringToTokens_of_lt {fuel : ℕ} (hseps : nul ∉ seps) (hnul : nul ∉ s)
    (harray : array.length = size) (hsize : 2 ≤ size) (hfuel : size ≤ fuel)
    (hlt : (tokensAt seps before.length s).length < size) :
    ∃ mem, stringToTokens fuel (before ++ (s ++ nul :: rest)) before.length (some array) size
        (some seps) =
          some (.ok { mem, array := overwrite array 0
                        (pointers (tokensAt seps before.length s) ++ [none]),
                      ret := (tokensAt seps before.length s).length }) ∧
      ∀ p ∈ tokensAt seps before.length s, cstr mem p.1 = p.2 := by
  obtain ⟨behind, hrun, hcstr⟩ := iterate_tokenPass_of_lt rest hseps hnul harray
    (show 0 + (tokensAt seps before.length s).length < size by omega)
    (show size < 0 + (fuel + 1) by omega)
  rw [Nat.zero_add] at hrun
  refine ⟨before ++ behind, ?_, hcstr⟩
  rw [stringToTokens_eq_iterate _ _ _ _ hsize]
  exact hrun

/-- With as many tokens as elements a null pointer is stored behind the array. -/
theorem stringToTokens_of_le {fuel : ℕ} (hseps : nul ∉ seps) (hnul : nul ∉ s)
    (harray : array.length = size) (hsize : 2 ≤ size) (hfuel : size ≤ fuel)
    (hle : size ≤ (tokensAt seps before.length s).length) :
    stringToTokens fuel (before ++ (s ++ nul :: rest)) before.length (some array) size
      (some seps) = some (.error .outOfBounds) := by
  rw [stringToTokens_eq_iterate _ _ _ _ hsize]
  exact iterate_tokenPass_of_le hseps hnul harray (Nat.zero_le size) (by omega) (by omega)

/-- **Tokens of an argument string.** They are placed as they should be just when there are fewer of
them than elements. -/
theorem stringToTokens_tokensPlaced_iff {fuel : ℕ} (before rest : List Char) (hseps : nul ∉ seps)
    (hnul : nul ∉ s) (harray : array.length = size) (hsize : 2 ≤ size) (hfuel : size ≤ fuel) :
    TokensPlaced seps before s size
        (stringToTokens fuel (before ++ (s ++ nul :: rest)) before.length (some array) size
          (some seps)) ↔
      (tokensAt seps before.length s).length < size := by
  constructor
  · rintro ⟨r, hrun, -⟩
    refine Nat.lt_of_not_le fun hle => ?_
    rw [stringToTokens_of_le hseps hnul harray hsize hfuel hle] at hrun
    cases hrun
  · intro hlt
    obtain ⟨mem, hrun, hcstr⟩ := stringToTokens_of_lt rest hseps hnul harray hsize hfuel hlt
    have hpointers : (pointers (tokensAt seps before.length s)).length =
        (tokensAt seps before.length s).length := List.length_map _
    have hdata :
        0 + (pointers (tokensAt seps before.length s) ++ [none]).length ≤ array.length := by
      rw [List.length_append, List.length_singleton, hpointers, harray]
      omega
    refine ⟨_, hrun, by rw [length_overwrite hdata, harray], ?_, ?_⟩
    · intro i p hi hp
      refine ⟨?_, hcstr p (List.mem_of_getElem? hp)⟩
      rw [getElem?_overwrite hdata, if_pos (by rw [List.length_append, hpointers]; omega),
        List.getElem?_append_left (by omega), pointers, List.getElem?_map, Nat.sub_zero, hp]
      rfl
    · rw [Nat.min_eq_left (by omega), getElem?_overwrite hdata,
        if_pos (by rw [List.length_append, hpointers, List.length_singleton]; omega),
        List.getElem?_append_right (by omega), hpointers, Nat.sub_zero, Nat.sub_self]
      rfl

theorem stringToTokens_tokensPlaced_iff_two :
    TokensPlaced [' '] [] "a b".toList 3
        (stringToTokens 3 ("a b".toList ++ [nul]) 0 (some [none, none, none]) 3 (some [' '])) ↔
      (tokensAt [' '] 0 "a b".toList).length < 3 :=
  stringToTokens_tokensPlaced_iff [] [] (by decide) (by decide) rfl (by decide) (by decide)

/-- Two tokens and two elements. -/
theorem twoOfTwo_not_tokensPlaced :
    ¬TokensPlaced [' '] [] "a b".toList 2
      (stringToTokens 2 ("a b".toList ++ [nul]) 0 (some [none, none]) 2 (some [' '])) := by
  rintro ⟨r, hrun, -⟩
  have hfault : stringToTokens 2 ("a b".toList ++ [nul]) 0 (some [none, none]) 2 (some [' ']) =
      some (.error .outOfBounds) := by decide +kernel
  rw [hfault] at hrun
  cases hrun

end StringToTokens

end SnowballLtp
