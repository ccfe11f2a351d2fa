import SnowballLtp.Machine.Bytes
import SnowballLtp.Machine.Cover
import SnowballLtp.Machine.CString
import SnowballLtp.Machine.Loop
import SnowballLtp.Machine.Separated

/-!
# Lists of flags

A list of flags is a string of tokens with a separator between them. A loop goes through the list in
place: it stores a NUL over the character behind a token, looks the token up, restores the
character, and adds the bits that were found to a mask. It leaves at the first token that is not
found, or behind the last one.

The loop does to the tokens what `judge` does to the list of them, and the memory is the same
afterwards.

## Main definitions

* `flagPass`: the body of the loop.
* `judge`: the result of a list of tokens.
* `Recognises`, `FirstBad`: what the tokens are looked up for, and the first one that is not found.

## Main results

* `iterate_flagPass`: the loop, for every string.
* `judge_eq_ok`, `judge_eq_error`: the bits of all tokens, or the position of the first bad one.
* `exists_parsed`: what a call leaves.
-/

namespace SnowballLtp

namespace FlagList

/-- What the loop works with: the memory, the positions of the token and of the search, and the
bits that were found. -/
structure Walk where
  mem : List Char
  token : ℕ
  cc : ℕ
  mask : BitVec 32
  deriving DecidableEq, Repr

/-- What a call leaves: the memory, the value returned, and the position of the bad token if the
caller has room for it. -/
structure Parsed where
  mem : List Char
  ret : BitVec 32
  bad : Option ℕ
  deriving DecidableEq, Repr

variable (sep : Char) (lookup : List Char → Option (BitVec 32))

/-- The search for the end of a token stops at a separator and at the end of the string. -/
def endsToken (c : Char) : Bool := decide (c = sep ∨ c = nul)

/-- A pass of the loop. -/
def flagPass (bad : Option ℕ) (w : Walk) : Walk ⊕ Except Fault Parsed :=
  let cc := scan (endsToken sep) w.mem w.cc
  match w.mem[cc]? with
  | none => .inr (.error .outOfBounds)
  | some savecc =>
    let mem := w.mem.set cc nul
    let found := lookup (cstr mem w.token)
    let mem := mem.set cc savecc
    match found with
    | none => .inr (.ok { mem, ret := -1, bad := bad.map fun _ => w.token })
    | some bits =>
      if savecc = nul then .inr (.ok { mem, ret := w.mask ||| bits, bad })
      else .inl { mem, token := cc + 1, cc := cc + 1, mask := w.mask ||| bits }

/-- The result of some tokens of which the first one is at `pos`: their bits beside those of `mask`,
or the position of the first bad token. -/
def judge : ℕ → BitVec 32 → List (List Char) → Except ℕ (BitVec 32)
  | _, mask, [] => .ok mask
  | pos, mask, t :: ts =>
    match lookup t with
    | none => .error pos
    | some bits => judge (pos + t.length + 1) (mask ||| bits) ts

/-- What a call leaves, by the result. -/
def leave (mem : List Char) (bad : Option ℕ) : Except ℕ (BitVec 32) → Parsed
  | .ok mask => { mem, ret := mask, bad }
  | .error pos => { mem, ret := -1, bad := bad.map fun _ => pos }

variable {sep lookup} {bad : Option ℕ} {t before rest s : List Char} {c : Char} {mask b : BitVec 32}
  {pos : ℕ} {ts : List (List Char)}

/-! ### A pass -/

/-- The state in front of a token. -/
def atToken (before t rest : List Char) (mask : BitVec 32) : Walk where
  mem := before ++ (t ++ rest)
  token := before.length
  cc := before.length
  mask := mask

private theorem scan_token (hsep : sep ∉ t) (hnul : nul ∉ t) (hc : c = sep ∨ c = nul) :
    scan (endsToken sep) (before ++ (t ++ c :: rest)) before.length =
      before.length + t.length := by
  have hstop : endsToken sep c = true := decide_eq_true hc
  refine scan_append before (fun d hd => ?_) hstop rest
  refine decide_eq_false ?_
  rintro (rfl | rfl)
  · exact hsep hd
  · exact hnul hd

/-- The loop leaves at a bad token. -/
theorem flagPass_of_none (hsep : sep ∉ t) (hnul : nul ∉ t) (hc : c = sep ∨ c = nul)
    (h : lookup t = none) :
    flagPass sep lookup bad (atToken before t (c :: rest) mask) =
      .inr (.ok { mem := before ++ (t ++ c :: rest), ret := -1,
                  bad := bad.map fun _ => before.length }) := by
  simp only [flagPass, atToken, scan_token hsep hnul hc, getElem?_before, set_before,
    cstr_append before hnul, h]

/-- The loop leaves behind the last token. -/
theorem flagPass_last (hsep : sep ∉ t) (hnul : nul ∉ t) (h : lookup t = some b) :
    flagPass sep lookup bad (atToken before t (nul :: rest) mask) =
      .inr (.ok { mem := before ++ (t ++ nul :: rest), ret := mask ||| b, bad }) := by
  simp only [flagPass, atToken, scan_token hsep hnul (.inr rfl), getElem?_before, set_before,
    cstr_append before hnul, h, if_true]

/-- The loop goes on with the token behind a separator. -/
theorem flagPass_next (hne : sep ≠ nul) (hsep : sep ∉ t) (hnul : nul ∉ t) (h : lookup t = some b)
    (s : List Char) :
    flagPass sep lookup bad (atToken before t (sep :: (s ++ rest)) mask) =
      .inl (atToken (before ++ (t ++ [sep])) s rest (mask ||| b)) := by
  simp only [flagPass, atToken, scan_token hsep hnul (.inl rfl), getElem?_before, set_before,
    cstr_append before hnul, h, if_neg hne]
  simp [Nat.add_assoc]

/-! ### The loop -/

/-- **The loop.** It leaves the memory as it was, with the result of the tokens of the string. -/
theorem iterate_flagPass (hne : sep ≠ nul) {fuel : ℕ} (hnul : nul ∉ s) (hfuel : s.length < fuel) :
    iterate (flagPass sep lookup bad) fuel (atToken before s (nul :: rest) mask) =
      some (.ok (leave (before ++ (s ++ nul :: rest)) bad
        (judge lookup before.length mask (s.splitOn sep)))) := by
  induction fuel generalizing s before mask with
  | zero => omega
  | succ fuel ih =>
    have hsep : sep ∉ (cut sep s).1 := notMem_cut_fst s
    have heq : s = (cut sep s).1 ++ ((cut sep s).2.elim [] fun rest => sep :: rest) := eq_of_cut s
    have hsplit : s.splitOn sep =
        (cut sep s).1 :: ((cut sep s).2.elim [] fun rest => rest.splitOn sep) := splitOn_eq_cut s
    generalize (cut sep s).1 = t at hsep heq hsplit
    cases hcut : (cut sep s).2 with
    | none =>
      rw [hcut, Option.elim_none] at hsplit
      rw [hcut, Option.elim_none, List.append_nil] at heq
      subst heq
      rw [hsplit]
      cases h : lookup s with
      | none =>
        rw [iterate_succ_inr (flagPass_of_none hsep hnul (.inr rfl) h)]
        simp [judge, h, leave]
      | some b =>
        rw [iterate_succ_inr (flagPass_last hsep hnul h)]
        simp [judge, h, leave]
    | some s' =>
      rw [hcut, Option.elim_some] at hsplit heq
      subst heq
      rw [hsplit]
      obtain ⟨hnult, -, hnuls⟩ : nul ∉ t ∧ nul ≠ sep ∧ nul ∉ s' := by simpa using hnul
      have hmem : before ++ (t ++ (sep :: s') ++ nul :: rest) =
          before ++ (t ++ sep :: (s' ++ nul :: rest)) := by simp
      have hat : atToken before (t ++ sep :: s') (nul :: rest) mask =
          atToken before t (sep :: (s' ++ nul :: rest)) mask := by simp [atToken]
      rw [hat]
      cases h : lookup t with
      | none =>
        rw [iterate_succ_inr (flagPass_of_none hsep hnult (.inl rfl) h)]
        simp [judge, h, leave]
      | some b =>
        have hlen : s'.length < fuel := by
          simp only [List.length_append, List.length_cons] at hfuel
          omega
        rw [iterate_succ_inl (flagPass_next hne hsep hnult h s'), ih hnuls hlen, judge]
        simp [h, Nat.add_assoc]

/-! ### The result of the tokens -/

/-- The length of some tokens with a separator each. -/
def lengthWithSeps : List (List Char) → ℕ
  | [] => 0
  | t :: ts => t.length + 1 + lengthWithSeps ts

/-- The bits of a token that is found. -/
def bitsOf (lookup : List Char → Option (BitVec 32)) (t : List Char) : BitVec 32 :=
  (lookup t).getD 0

theorem judge_eq_ok (h : ∀ t ∈ ts, lookup t ≠ none) :
    judge lookup pos mask ts = .ok (mask ||| unionOf (bitsOf lookup) ts) := by
  induction ts generalizing pos mask with
  | nil => simp [judge, unionOf]
  | cons t ts ih =>
    obtain ⟨b, hb⟩ := Option.ne_none_iff_exists'.mp (h t List.mem_cons_self)
    rw [judge, hb]
    dsimp only
    rw [ih fun u hu => h u (List.mem_cons_of_mem _ hu), unionOf, bitsOf, hb, Option.getD_some,
      BitVec.or_assoc]

theorem judge_eq_error (h : ∀ u ∈ ts, lookup u ≠ none) (ht : lookup t = none)
    (back : List (List Char)) :
    judge lookup pos mask (ts ++ t :: back) = .error (pos + lengthWithSeps ts) := by
  induction ts generalizing pos mask with
  | nil => simp [judge, ht, lengthWithSeps]
  | cons u ts ih =>
    obtain ⟨b, hb⟩ := Option.ne_none_iff_exists'.mp (h u List.mem_cons_self)
    rw [List.cons_append, judge, hb]
    dsimp only
    rw [ih fun v hv => h v (List.mem_cons_of_mem _ hv), lengthWithSeps]
    congr 1
    omega

/-! ### What a call leaves -/

/-- The tokens that are found are the valid ones. -/
def Recognises (lookup : List Char → Option (BitVec 32)) (valid : List Char → Prop) : Prop :=
  ∀ t, lookup t ≠ none ↔ valid t

/-- The first token that is not valid starts `n` characters behind the start of the string. -/
def FirstBad (valid : List Char → Prop) (ts : List (List Char)) (n : ℕ) : Prop :=
  ∃ front t back, ts = front ++ t :: back ∧ (∀ u ∈ front, valid u) ∧ ¬valid t ∧
    n = lengthWithSeps front

variable {valid : List Char → Prop}

/-- There is a first one among tokens that are not all valid. -/
theorem exists_firstBad (ts : List (List Char)) (h : ¬∀ t ∈ ts, valid t) :
    ∃ n, FirstBad valid ts n := by
  induction ts with
  | nil => exact absurd (fun t ht => absurd ht List.not_mem_nil) h
  | cons t ts ih =>
    by_cases ht : valid t
    · obtain ⟨n, front, u, back, rfl, hfront, hu, -⟩ := ih fun hts => h fun u hu => by
        rcases List.mem_cons.mp hu with rfl | hu
        · exact ht
        · exact hts u hu
      refine ⟨_, t :: front, u, back, rfl, fun v hv => ?_, hu, rfl⟩
      rcases List.mem_cons.mp hv with rfl | hv
      · exact ht
      · exact hfront v hv
    · exact ⟨_, [], t, ts, rfl, fun u hu => absurd hu List.not_mem_nil, ht, rfl⟩

/-- **What a call leaves.** The memory is unchanged; the bits of all tokens are returned when all
are valid, and otherwise `-1`, with the position of the first one that is not. -/
theorem exists_parsed (hne : sep ≠ nul) (hvalid : Recognises lookup valid) {fuel : ℕ}
    (hnul : nul ∉ s) (hfuel : s.length < fuel) (before rest : List Char) (bad : Option ℕ) :
    ∃ r, iterate (flagPass sep lookup bad) fuel (atToken before s (nul :: rest) 0) = some (.ok r) ∧
      r.mem = before ++ (s ++ nul :: rest) ∧
      ((∀ t ∈ s.splitOn sep, valid t) →
        r.ret = unionOf (bitsOf lookup) (s.splitOn sep) ∧ r.bad = bad) ∧
      ((¬∀ t ∈ s.splitOn sep, valid t) → r.ret = -1 ∧
        ∃ n, FirstBad valid (s.splitOn sep) n ∧ r.bad = bad.map fun _ => before.length + n) := by
  refine ⟨_, iterate_flagPass hne hnul hfuel, ?_, fun h => ?_, fun h => ?_⟩
  · cases judge lookup before.length 0 (s.splitOn sep) <;> rfl
  · rw [judge_eq_ok fun t ht => (hvalid t).mpr (h t ht), leave]
    simp
  · obtain ⟨n, front, t, back, hsplit, hfront, ht, rfl⟩ := exists_firstBad _ h
    have hnone : lookup t = none := Classical.byContradiction fun hsome => ht ((hvalid t).mp hsome)
    rw [hsplit, judge_eq_error (fun u hu => (hvalid u).mpr (hfront u hu)) hnone, leave]
    exact ⟨rfl, _, ⟨front, t, back, rfl, hfront, ht, rfl⟩, rfl⟩

end FlagList

end SnowballLtp
