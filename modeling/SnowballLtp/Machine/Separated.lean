import Mathlib.Data.List.Basic

/-!
# Separated strings

A string is the list of its characters. `cut` splits it at the first separator, as a search for
the separator and a terminator stored over it do. `strtok` takes the next token: it skips the
separators in front and cuts at the next one, so that adjacent separators count as one and no
token is empty. The tokens that one call after another yields are the non-empty pieces between
the separators, in order.

## Main definitions

* `cut`, `strtok`, `tokens`.

## Main results

* `tokens_of_strtok`, `tokens_of_strtok_none`: a call takes the first token.
* `length_tokens_le`: a string has at most one token more than separators.
* `strtok_intercalate`: reading back the first of some joined pieces.
-/

namespace SnowballLtp

variable {α : Type*} [DecidableEq α] {sep : α}

/-- The part in front of the first separator, and the part behind it if there is one. -/
def cut (sep : α) : List α → List α × Option (List α)
  | [] => ([], none)
  | c :: s => if c = sep then ([], some s) else (c :: (cut sep s).1, (cut sep s).2)

/-- `strtok`: the next token and what the call after it goes on with. -/
def strtok (sep : α) (s : List α) : Option (List α × List α) :=
  match s.dropWhile (fun c => decide (c = sep)) with
  | [] => none
  | c :: s => some ((cut sep (c :: s)).1, (cut sep (c :: s)).2.getD [])

/-- The non-empty pieces between the separators. -/
def tokens (sep : α) (s : List α) : List (List α) :=
  (s.splitOn sep).filter fun piece => decide (piece ≠ [])

/-! ### Cutting at the first separator -/

theorem cut_cons_self (s : List α) : cut sep (sep :: s) = ([], some s) := if_pos rfl

theorem cut_cons_of_ne {c : α} (h : c ≠ sep) (s : List α) :
    cut sep (c :: s) = (c :: (cut sep s).1, (cut sep s).2) := if_neg h

/-- A string without a separator is passed over. -/
theorem cut_append {s : List α} (h : sep ∉ s) (rest : List α) :
    cut sep (s ++ rest) = (s ++ (cut sep rest).1, (cut sep rest).2) := by
  induction s with
  | nil => rfl
  | cons c s ih =>
    obtain ⟨hc, hs⟩ : c ≠ sep ∧ sep ∉ s := by simpa [eq_comm] using h
    rw [List.cons_append, cut_cons_of_ne hc, ih hs, List.cons_append]

theorem cut_of_notMem {s : List α} (h : sep ∉ s) : cut sep s = (s, none) := by
  simpa [cut] using cut_append h []

theorem cut_append_cons {s : List α} (h : sep ∉ s) (rest : List α) :
    cut sep (s ++ sep :: rest) = (s, some rest) := by
  rw [cut_append h, cut_cons_self, List.append_nil]

/-- The part in front has no separator. -/
theorem notMem_cut_fst (s : List α) : sep ∉ (cut sep s).1 := by
  induction s with
  | nil => simp [cut]
  | cons c s ih =>
    by_cases hc : c = sep
    · rw [hc, cut_cons_self]
      exact List.not_mem_nil
    · rw [cut_cons_of_ne hc]
      simpa [ih] using fun h => hc h.symm

/-- The parts make up the string. -/
theorem eq_of_cut (s : List α) :
    s = (cut sep s).1 ++ ((cut sep s).2.elim [] fun rest => sep :: rest) := by
  induction s with
  | nil => rfl
  | cons c s ih =>
    by_cases hc : c = sep
    · rw [hc, cut_cons_self]
      rfl
    · rw [cut_cons_of_ne hc, List.cons_append, ← ih]

theorem eq_of_cut_some {s rest : List α} (h : (cut sep s).2 = some rest) :
    s = (cut sep s).1 ++ sep :: rest := by
  have heq : s = (cut sep s).1 ++ ((cut sep s).2.elim [] fun rest => sep :: rest) := eq_of_cut s
  rwa [h, Option.elim_some] at heq

theorem eq_of_cut_none {s : List α} (h : (cut sep s).2 = none) : s = (cut sep s).1 := by
  have heq : s = (cut sep s).1 ++ ((cut sep s).2.elim [] fun rest => sep :: rest) := eq_of_cut s
  rwa [h, Option.elim_none, List.append_nil] at heq

/-- The part behind the separator is shorter. -/
theorem length_lt_of_cut_some {s rest : List α} (h : (cut sep s).2 = some rest) :
    rest.length < s.length := by
  have hlen := congrArg List.length (eq_of_cut_some h)
  rw [List.length_append, List.length_cons] at hlen
  omega

/-- The part behind the separator has no other characters than the string. -/
theorem notMem_of_cut_some {s rest : List α} {c : α} (h : (cut sep s).2 = some rest) (hc : c ∉ s) :
    c ∉ rest := by
  rw [eq_of_cut_some h, List.mem_append, not_or] at hc
  exact fun hmem => hc.2 (List.mem_cons_of_mem _ hmem)

/-- The pieces of a string, one cut after the other. -/
theorem splitOn_eq_cut (s : List α) :
    s.splitOn sep = (cut sep s).1 :: ((cut sep s).2.elim [] fun rest => rest.splitOn sep) := by
  have hnot : sep ∉ (cut sep s).1 := notMem_cut_fst s
  cases hrest : (cut sep s).2 with
  | none =>
    have heq : s = (cut sep s).1 := eq_of_cut_none hrest
    rw [Option.elim_none, ← heq]
    exact List.splitOn_eq_singleton (heq ▸ hnot)
  | some rest =>
    have heq : s = (cut sep s).1 ++ sep :: rest := eq_of_cut_some hrest
    rw [Option.elim_some]
    conv_lhs => rw [heq]
    exact List.splitOn_append_cons_self_of_not_mem hnot rest

/-! ### Tokens -/

theorem ne_nil_of_mem_tokens {s tok : List α} (h : tok ∈ tokens sep s) : tok ≠ [] := by
  simpa using (List.mem_filter.mp h).2

@[simp] theorem tokens_nil : tokens sep ([] : List α) = [] := by
  simp [tokens]

/-- Separators in front do not count. -/
theorem tokens_cons_self (s : List α) : tokens sep (sep :: s) = tokens sep s := by
  simp [tokens, List.splitOn_cons_eq_if_modifyHead]

theorem tokens_dropWhile (s : List α) :
    tokens sep (s.dropWhile fun c => decide (c = sep)) = tokens sep s := by
  induction s with
  | nil => rfl
  | cons c s ih =>
    by_cases hc : c = sep
    · rw [List.dropWhile_cons_of_pos (by simpa using hc), ih, hc, tokens_cons_self]
    · rw [List.dropWhile_cons_of_neg (by simpa using hc)]

/-- When no token is left there is none. -/
theorem tokens_of_strtok_none {s : List α} (h : strtok sep s = none) : tokens sep s = [] := by
  rw [← tokens_dropWhile]
  unfold strtok at h
  split at h
  · next hnil => rw [hnil, tokens_nil]
  · cases h

/-- A call takes the first token and leaves the others. -/
theorem tokens_of_strtok {s tok rest : List α} (h : strtok sep s = some (tok, rest)) :
    tokens sep s = tok :: tokens sep rest := by
  rw [← tokens_dropWhile]
  unfold strtok at h
  split at h
  · cases h
  · next c s' hcons =>
    obtain ⟨rfl, rfl⟩ := Prod.mk.inj (Option.some.inj h)
    have hc : c ≠ sep := by
      have hhead := List.head?_dropWhile_not (fun c => decide (c = sep)) s
      rw [hcons] at hhead
      simpa using hhead
    rw [hcons, tokens, splitOn_eq_cut, List.filter_cons_of_pos (by rw [cut_cons_of_ne hc]; simp)]
    cases (cut sep (c :: s')).2 with
    | none => simp
    | some rest => rfl

/-- A token is not empty and has no separator. -/
theorem strtok_spec {s tok rest : List α} (h : strtok sep s = some (tok, rest)) :
    tok ≠ [] ∧ sep ∉ tok := by
  constructor
  · have hmem : tok ∈ tokens sep s := by
      rw [tokens_of_strtok h]
      exact List.mem_cons_self
    exact ne_nil_of_mem_tokens hmem
  · unfold strtok at h
    split at h
    · cases h
    · obtain ⟨rfl, -⟩ := Prod.mk.inj (Option.some.inj h)
      exact notMem_cut_fst _

/-- Every call shortens the string. -/
theorem length_lt_of_strtok {s tok rest : List α} (h : strtok sep s = some (tok, rest)) :
    rest.length < s.length := by
  have hdrop := (List.dropWhile_sublist (l := s) fun c => decide (c = sep)).length_le
  obtain ⟨hne, -⟩ := strtok_spec h
  unfold strtok at h
  split at h
  · cases h
  · next c s' hcons =>
    obtain ⟨rfl, rfl⟩ := Prod.mk.inj (Option.some.inj h)
    have heq : c :: s' = (cut sep (c :: s')).1 ++
        ((cut sep (c :: s')).2.elim [] fun rest => sep :: rest) := eq_of_cut (c :: s')
    have hlen := congrArg List.length heq
    have hpos := List.length_pos_iff.mpr hne
    rw [hcons] at hdrop
    cases hrest : (cut sep (c :: s')).2 <;>
      simp only [hrest, Option.elim_none, Option.elim_some, Option.getD_none, Option.getD_some,
        List.length_append, List.length_cons, List.length_nil] at hlen hdrop hpos ⊢ <;>
      omega

/-- **Number of tokens.** A string has at most one token more than separators. -/
theorem length_tokens_le (s : List α) : (tokens sep s).length ≤ s.count sep + 1 := by
  refine Nat.le_trans (List.length_filter_le _ _) ?_
  induction s with
  | nil => simp
  | cons c s ih =>
    rw [List.splitOn_cons_eq_if_modifyHead, List.count_cons]
    split <;> simp_all

/-! ### Reading a piece back -/

/-- A piece in front of a separator is the next token if it is not empty and has no separator. -/
theorem strtok_append_cons {s : List α} (hne : s ≠ []) (hsep : sep ∉ s) (rest : List α) :
    strtok sep (s ++ sep :: rest) = some (s, rest) := by
  obtain ⟨c, s, rfl⟩ := List.exists_cons_of_ne_nil hne
  have hc : c ≠ sep := fun h => hsep (h ▸ List.mem_cons_self)
  rw [strtok, List.cons_append, List.dropWhile_cons_of_neg (by simpa using hc)]
  dsimp only
  rw [← List.cons_append, cut_append_cons hsep]
  rfl

theorem strtok_self {s : List α} (hne : s ≠ []) (hsep : sep ∉ s) :
    strtok sep s = some (s, []) := by
  obtain ⟨c, s, rfl⟩ := List.exists_cons_of_ne_nil hne
  have hc : c ≠ sep := fun h => hsep (h ▸ List.mem_cons_self)
  rw [strtok, List.dropWhile_cons_of_neg (by simpa using hc)]
  dsimp only
  rw [cut_of_notMem hsep]
  rfl

omit [DecidableEq α] in
/-- Pieces joined by a separator: the first one, and the others with the separator in front. -/
theorem intercalate_cons (glue s : List α) (l : List (List α)) :
    glue.intercalate (s :: l) = s ++ l.flatMap (glue ++ ·) := by
  induction l generalizing s with
  | nil => simp
  | cons s' l ih => simp [List.intercalate_cons_cons, ih]

/-- **Reading back.** The first of some joined pieces is the next token if it is not empty and has
no separator. -/
theorem strtok_intercalate {s : List α} (hne : s ≠ []) (hsep : sep ∉ s) (l : List (List α)) :
    strtok sep ([sep].intercalate (s :: l)) = some (s, [sep].intercalate l) := by
  cases l with
  | nil => simpa using strtok_self hne hsep
  | cons s' l =>
    rw [List.intercalate_cons_cons, List.append_assoc, List.singleton_append]
    exact strtok_append_cons hne hsep _

end SnowballLtp
