import SnowballLtp.Machine.Bytes
import SnowballLtp.Machine.CString
import Mathlib.Data.List.TakeWhile

/-!
# Tokens of a string in memory

`strtokAt` is a call of `strtok` with a set of separators: it skips separators, stores a NUL over
the separator behind the token, and keeps the position that the next call goes on from. The tokens
of a string are the non-empty pieces between its separators; here they have their positions.

A string consists of separators only, or it ends with a token behind separators, or it has a token
between separators (`exists_split`). The call is described for each of the three.

## Main definitions

* `strtokAt`.
* `tokensAt`: the tokens of a string and their positions.

## Main results

* `strtokAt_none`, `strtokAt_last`, `strtokAt_next`.
* `tokensAt_none`, `tokensAt_last`, `tokensAt_next`.
-/

namespace SnowballLtp

/-- What a call of `strtok` leaves: the memory, the position that the next call goes on from, and
the position of the token. -/
structure Scanned where
  mem : List Char
  save : ℕ
  token : Option ℕ
  deriving DecidableEq, Repr

/-- `strtok` from a position of the memory. -/
def strtokAt (seps mem : List Char) (start : ℕ) : Except Fault Scanned :=
  let first := scan (fun c => decide (c ∉ seps)) mem start
  match mem[first]? with
  | none => .error .outOfBounds
  | some c =>
    if c = nul then .ok { mem, save := first, token := none }
    else
      let last := scan (fun c => decide (c = nul ∨ c ∈ seps)) mem first
      match mem[last]? with
      | none => .error .outOfBounds
      | some c =>
        if c = nul then .ok { mem, save := last, token := some first }
        else .ok { mem := mem.set last nul, save := last + 1, token := some first }

/-- Some pieces with a separator behind each, and their positions. -/
def placed : ℕ → List (List Char) → List (ℕ × List Char)
  | _, [] => []
  | pos, t :: ts => (pos, t) :: placed (pos + t.length + 1) ts

/-- The tokens of a string that starts at `pos`: the non-empty pieces between the separators. -/
def tokensAt (seps : List Char) (pos : ℕ) (s : List Char) : List (ℕ × List Char) :=
  (placed pos (s.splitOnP fun c => decide (c ∈ seps))).filter fun p => decide (p.2 ≠ [])

variable {seps gap tok s before rest : List Char} {c : Char} {pos : ℕ}

/-! ### Three kinds of strings -/

/-- The characters are separators. -/
def IsGap (seps gap : List Char) : Prop := ∀ c ∈ gap, c ∈ seps

/-- The characters are no separators, and there is one. -/
def IsTok (seps tok : List Char) : Prop := tok ≠ [] ∧ ∀ c ∈ tok, c ≠ nul ∧ c ∉ seps

private theorem exists_span (p : Char → Bool) (s : List Char) :
    (∀ c ∈ s, p c = true) ∨
      ∃ t c u, s = t ++ c :: u ∧ (∀ d ∈ t, p d = true) ∧ p c = false := by
  induction s with
  | nil => exact .inl fun c hc => absurd hc List.not_mem_nil
  | cons d s ih =>
    cases hd : p d with
    | false => exact .inr ⟨[], d, s, rfl, fun c hc => absurd hc List.not_mem_nil, hd⟩
    | true =>
      obtain hall | ⟨t, c, u, rfl, ht, hc⟩ := ih
      · exact .inl (List.forall_mem_cons.mpr ⟨hd, hall⟩)
      · exact .inr ⟨d :: t, c, u, rfl, List.forall_mem_cons.mpr ⟨hd, ht⟩, hc⟩

/-- **Three kinds of strings.** -/
theorem exists_split (seps : List Char) (hnul : nul ∉ s) :
    IsGap seps s ∨ ∃ gap tok, IsGap seps gap ∧ IsTok seps tok ∧
      (s = gap ++ tok ∨ ∃ c s', c ∈ seps ∧ s = gap ++ (tok ++ c :: s')) := by
  obtain hall | ⟨gap, d, u, rfl, hgap, hd⟩ := exists_span (fun c => decide (c ∈ seps)) s
  · exact .inl fun c hc => of_decide_eq_true (hall c hc)
  · have hnulu : ∀ c ∈ d :: u, c ≠ nul := by
      rintro c hc rfl
      exact hnul (List.mem_append_right _ hc)
    have hd : d ∉ seps := of_decide_eq_false hd
    refine .inr ?_
    obtain hall | ⟨t, e, v, rfl, ht, he⟩ := exists_span (fun c => decide (c ∉ seps)) u
    · refine ⟨gap, d :: u, fun c hc => of_decide_eq_true (hgap c hc),
        ⟨List.cons_ne_nil _ _, fun c hc => ⟨hnulu c hc, ?_⟩⟩, .inl rfl⟩
      rcases List.mem_cons.mp hc with rfl | hc
      · exact hd
      · exact of_decide_eq_true (hall c hc)
    · have he : e ∈ seps := Decidable.not_not.mp (of_decide_eq_false he)
      refine ⟨gap, d :: t, fun c hc => of_decide_eq_true (hgap c hc),
        ⟨List.cons_ne_nil _ _, fun c hc => ⟨?_, ?_⟩⟩, .inr ⟨e, v, he, rfl⟩⟩
      · refine hnulu c ?_
        rw [← List.cons_append]
        exact List.mem_append_left _ hc
      · rcases List.mem_cons.mp hc with rfl | hc
        · exact hd
        · exact of_decide_eq_true (ht c hc)

/-! ### Calls -/

private theorem scan_gap (hgap : IsGap seps gap) (hc : c ∉ seps) :
    scan (fun c => decide (c ∉ seps)) (before ++ (gap ++ c :: rest)) before.length =
      before.length + gap.length :=
  scan_append before (fun d hd => by simpa using hgap d hd) (decide_eq_true hc) rest

variable (before rest) in
private theorem scan_tok (htok : IsTok seps tok) (hc : c = nul ∨ c ∈ seps) :
    scan (fun c => decide (c = nul ∨ c ∈ seps)) (before ++ (tok ++ c :: rest)) before.length =
      before.length + tok.length :=
  scan_append before (fun d hd => decide_eq_false (not_or.mpr (htok.2 d hd)))
    (decide_eq_true hc) rest

/-- There is no token. -/
theorem strtokAt_none (hseps : nul ∉ seps) (hgap : IsGap seps gap) :
    strtokAt seps (before ++ (gap ++ nul :: rest)) before.length =
      .ok { mem := before ++ (gap ++ nul :: rest), save := before.length + gap.length,
            token := none } := by
  simp only [strtokAt, scan_gap hgap hseps, getElem?_before, if_true]

/-- The first character of a token stands behind the separators. -/
private theorem exists_first (htok : IsTok seps tok) :
    ∃ d t, tok = d :: t ∧ d ∉ seps ∧ d ≠ nul := by
  obtain ⟨d, t, rfl⟩ := List.exists_cons_of_ne_nil htok.1
  obtain ⟨hnul, hseps⟩ := htok.2 d List.mem_cons_self
  exact ⟨d, t, rfl, hseps, hnul⟩

/-- A call that comes to a token, with the character behind the token. -/
private theorem strtokAt_tok (hgap : IsGap seps gap) (htok : IsTok seps tok)
    (hc : c = nul ∨ c ∈ seps) :
    strtokAt seps (before ++ (gap ++ (tok ++ c :: rest))) before.length =
      if c = nul then .ok { mem := before ++ (gap ++ (tok ++ c :: rest)),
                            save := before.length + gap.length + tok.length,
                            token := some (before.length + gap.length) }
      else .ok { mem := before ++ (gap ++ (tok ++ nul :: rest)),
                 save := before.length + gap.length + tok.length + 1,
                 token := some (before.length + gap.length) } := by
  obtain ⟨d, t, rfl, hseps, hnul⟩ := exists_first htok
  have hlast := scan_tok (before ++ gap) rest htok hc
  have hget := getElem?_before (before ++ gap) (d :: t) c rest
  have hset := set_before (before ++ gap) (d :: t) c nul rest
  rw [List.length_append, List.append_assoc] at hlast hget hset
  rw [List.append_assoc] at hset
  rw [strtokAt, List.cons_append, scan_gap hgap hseps, getElem?_before]
  rw [List.cons_append] at hlast hget hset
  simp only [if_neg hnul, hlast, hget, hset]

variable (before rest) in
/-- The string ends with the token. -/
theorem strtokAt_last (hgap : IsGap seps gap) (htok : IsTok seps tok) :
    strtokAt seps (before ++ (gap ++ (tok ++ nul :: rest))) before.length =
      .ok { mem := before ++ (gap ++ (tok ++ nul :: rest)),
            save := before.length + gap.length + tok.length,
            token := some (before.length + gap.length) } := by
  rw [strtokAt_tok hgap htok (.inl rfl), if_pos rfl]

variable (before rest) in
/-- There is a separator behind the token. -/
theorem strtokAt_next (hseps : nul ∉ seps) (hgap : IsGap seps gap) (htok : IsTok seps tok)
    (hc : c ∈ seps) :
    strtokAt seps (before ++ (gap ++ (tok ++ c :: rest))) before.length =
      .ok { mem := before ++ (gap ++ (tok ++ nul :: rest)),
            save := before.length + gap.length + tok.length + 1,
            token := some (before.length + gap.length) } := by
  have hne : c ≠ nul := fun h => hseps (h ▸ hc)
  rw [strtokAt_tok hgap htok (.inr hc), if_neg hne]

/-! ### Tokens -/

theorem tokensAt_gap (hgap : IsGap seps gap) (pos : ℕ) (s : List Char) :
    tokensAt seps pos (gap ++ s) = tokensAt seps (pos + gap.length) s := by
  induction gap generalizing pos with
  | nil => rfl
  | cons c gap ih =>
    have hc : c ∈ seps := hgap c List.mem_cons_self
    rw [List.cons_append, tokensAt, List.splitOnP_cons_eq_if_modifyHead, if_pos (decide_eq_true hc),
      placed, List.filter_cons_of_neg (by simp), List.length_nil, ← tokensAt,
      ih (fun d hd => hgap d (List.mem_cons_of_mem _ hd)), List.length_cons]
    congr 1
    omega

theorem tokensAt_none (hgap : IsGap seps gap) (pos : ℕ) : tokensAt seps pos gap = [] := by
  have h := tokensAt_gap hgap pos []
  rw [List.append_nil] at h
  rw [h]
  rfl

private theorem notMem_seps (htok : IsTok seps tok) : ∀ d ∈ tok, decide (d ∈ seps) = false :=
  fun d hd => decide_eq_false (htok.2 d hd).2

theorem tokensAt_last (hgap : IsGap seps gap) (htok : IsTok seps tok) (pos : ℕ) :
    tokensAt seps pos (gap ++ tok) = [(pos + gap.length, tok)] := by
  rw [tokensAt_gap hgap, tokensAt, List.splitOnP_eq_singleton (notMem_seps htok), placed, placed,
    List.filter_cons_of_pos (by simpa using htok.1), List.filter_nil]

theorem tokensAt_next (hgap : IsGap seps gap) (htok : IsTok seps tok) (hc : c ∈ seps) (pos : ℕ)
    (s : List Char) :
    tokensAt seps pos (gap ++ (tok ++ c :: s)) =
      (pos + gap.length, tok) :: tokensAt seps (pos + gap.length + tok.length + 1) s := by
  rw [tokensAt_gap hgap, tokensAt,
    List.splitOnP_append_cons_of_forall_mem (notMem_seps htok) c (decide_eq_true hc), placed,
    List.filter_cons_of_pos (by simpa using htok.1)]
  rfl

end SnowballLtp
