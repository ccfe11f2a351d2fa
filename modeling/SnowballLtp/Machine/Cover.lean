import Mathlib.Data.List.Basic

/-!
# Covering a bit vector by masks

`greedy` goes through a list of entries with a mask each. It takes an entry when all bits of its
mask are left and removes them. What it takes covers exactly the bits that it removes. When any
two masks are disjoint or the later one is contained in the earlier one, it covers whatever can
be covered: a vector that is the union of some of the masks is removed completely. A mask that
repeats an earlier one may stand anywhere, since nothing of it is left when its turn comes.

## Main definitions

* `Covers`, `unionOf`, `greedy`.
* `Nested`, `NestedAfter`.

## Main results

* `unionOf_greedy`: what is taken and what is left.
* `greedy_snd_eq_zero_iff`: when nothing is left.
-/

namespace SnowballLtp

variable {ε : Type*} {w : ℕ} {mask : ε → BitVec w}

/-- All bits of `flag` are set in `bits`. -/
def Covers (bits flag : BitVec w) : Prop := bits &&& flag = flag

instance (bits flag : BitVec w) : Decidable (Covers bits flag) :=
  inferInstanceAs (Decidable (_ = _))

/-- The union of the masks of some entries. -/
def unionOf (mask : ε → BitVec w) : List ε → BitVec w
  | [] => 0
  | e :: es => mask e ||| unionOf mask es

/-- The entries that are taken one after the other, and the bits that are left. -/
def greedy (mask : ε → BitVec w) : List ε → BitVec w → List ε × BitVec w
  | [], bits => ([], bits)
  | e :: es, bits =>
    if Covers bits (mask e) then
      (e :: (greedy mask es (bits &&& ~~~mask e)).1, (greedy mask es (bits &&& ~~~mask e)).2)
    else greedy mask es bits

/-! ### Bits -/

theorem covers_iff {bits flag : BitVec w} :
    Covers bits flag ↔ ∀ i, flag.getLsbD i = true → bits.getLsbD i = true := by
  constructor
  · intro h i hi
    have hbit := congrArg (BitVec.getLsbD · i) h
    simp only [BitVec.getLsbD_and, hi, Bool.and_true] at hbit
    exact hbit
  · intro h
    refine BitVec.eq_of_getLsbD_eq fun i _ => ?_
    rw [BitVec.getLsbD_and]
    cases hi : flag.getLsbD i with
    | false => exact Bool.and_false _
    | true => rw [h i hi]; rfl

theorem getLsbD_and_not {bits flag : BitVec w} {i : ℕ} :
    (bits &&& ~~~flag).getLsbD i = true ↔ bits.getLsbD i = true ∧ flag.getLsbD i = false := by
  rw [BitVec.getLsbD_and, BitVec.getLsbD_not]
  constructor
  · intro h
    simpa using And.imp_right And.right (by simpa using h)
  · rintro ⟨hbit, hflag⟩
    rw [hbit, hflag]
    simpa using BitVec.lt_of_getLsbD hbit

theorem getLsbD_unionOf {es : List ε} {i : ℕ} :
    (unionOf mask es).getLsbD i = true ↔ ∃ e ∈ es, (mask e).getLsbD i = true := by
  induction es with
  | nil => simp [unionOf]
  | cons e es ih => simp [unionOf, BitVec.getLsbD_or, ih]

theorem unionOf_append (l l' : List ε) :
    unionOf mask (l ++ l') = unionOf mask l ||| unionOf mask l' := by
  induction l with
  | nil => simp [unionOf]
  | cons e l ih => simp [unionOf, ih, BitVec.or_assoc]

theorem covers_unionOf {es : List ε} {e : ε} (h : e ∈ es) : Covers (unionOf mask es) (mask e) :=
  covers_iff.mpr fun _ hi => getLsbD_unionOf.mpr ⟨e, h, hi⟩

/-! ### What is taken -/

theorem greedy_cons_of_covers {e : ε} {bits : BitVec w} (h : Covers bits (mask e))
    (es : List ε) :
    greedy mask (e :: es) bits =
      (e :: (greedy mask es (bits &&& ~~~mask e)).1, (greedy mask es (bits &&& ~~~mask e)).2) :=
  if_pos h

theorem greedy_cons_of_not_covers {e : ε} {bits : BitVec w} (h : ¬Covers bits (mask e))
    (es : List ε) : greedy mask (e :: es) bits = greedy mask es bits :=
  if_neg h

theorem greedy_fst_sublist (es : List ε) (bits : BitVec w) :
    (greedy mask es bits).1.Sublist es := by
  induction es generalizing bits with
  | nil => exact List.Sublist.slnil
  | cons e es ih =>
    by_cases h : Covers bits (mask e)
    · rw [greedy_cons_of_covers h]
      exact (ih _).cons_cons e
    · rw [greedy_cons_of_not_covers h]
      exact (ih _).cons e

/-- Nothing is taken just when no mask is contained in the vector. -/
theorem greedy_fst_eq_nil_iff {es : List ε} {bits : BitVec w} :
    (greedy mask es bits).1 = [] ↔ ∀ e ∈ es, ¬Covers bits (mask e) := by
  induction es generalizing bits with
  | nil => simp [greedy]
  | cons e es ih =>
    by_cases h : Covers bits (mask e)
    · simp [greedy_cons_of_covers h, h]
    · simp [greedy_cons_of_not_covers h, h, ih]

/-- **What is taken and what is left.** The entries that are taken cover the bits that are not
left over. -/
theorem unionOf_greedy (es : List ε) (bits : BitVec w) :
    unionOf mask (greedy mask es bits).1 = bits &&& ~~~(greedy mask es bits).2 ∧
      Covers bits (greedy mask es bits).2 := by
  induction es generalizing bits with
  | nil => simp [greedy, unionOf, Covers]
  | cons e es ih =>
    by_cases h : Covers bits (mask e)
    · rw [greedy_cons_of_covers h]
      obtain ⟨hunion, hleft⟩ := ih (bits &&& ~~~mask e)
      have hin (i : ℕ) (hi : (greedy mask es (bits &&& ~~~mask e)).2.getLsbD i = true) :=
        getLsbD_and_not.mp (covers_iff.mp hleft i hi)
      refine ⟨?_, covers_iff.mpr fun i hi => (hin i hi).1⟩
      refine BitVec.eq_of_getLsbD_eq fun i _ => ?_
      rw [unionOf, hunion, Bool.eq_iff_iff, BitVec.getLsbD_or, Bool.or_eq_true, getLsbD_and_not,
        getLsbD_and_not, getLsbD_and_not]
      have hmask := covers_iff.mp h i
      cases hleft : (greedy mask es (bits &&& ~~~mask e)).2.getLsbD i with
      | true => simpa using (hin i hleft).2
      | false =>
        cases hbit : (mask e).getLsbD i with
        | true => simp [hmask hbit]
        | false => simp
    · rw [greedy_cons_of_not_covers h]
      exact ih bits

/-! ### What is left -/

/-- Any two masks are disjoint, or the later one is contained in the earlier one. -/
def Nested (mask : ε → BitVec w) (es : List ε) : Prop :=
  es.Pairwise fun a b => mask a &&& mask b = 0 ∨ Covers (mask a) (mask b)

instance (mask : ε → BitVec w) (es : List ε) : Decidable (Nested mask es) :=
  inferInstanceAs (Decidable (List.Pairwise _ _))

/-- The same but for masks that have been seen before. -/
def NestedAfter (mask : ε → BitVec w) : List (BitVec w) → List ε → Prop
  | _, [] => True
  | seen, a :: es =>
    (∀ b ∈ es, mask b ∈ seen ∨ mask a &&& mask b = 0 ∨ Covers (mask a) (mask b)) ∧
      NestedAfter mask (mask a :: seen) es

instance decidableNestedAfter (mask : ε → BitVec w) :
    (seen : List (BitVec w)) → (es : List ε) → Decidable (NestedAfter mask seen es)
  | _, [] => inferInstanceAs (Decidable True)
  | seen, a :: es =>
    have := decidableNestedAfter mask (mask a :: seen) es
    inferInstanceAs (Decidable (_ ∧ _))

theorem Covers.of_and_not {bits flag other : BitVec w} (h : Covers (bits &&& ~~~other) flag) :
    Covers bits flag :=
  covers_iff.mpr fun j hj => (getLsbD_and_not.mp (covers_iff.mp h j hj)).1

/-- A mask that meets the one just removed is contained in it, and so are all its bits. -/
theorem Covers.and_not {bits flag other : BitVec w} (h : Covers bits flag)
    (hnested : other &&& flag = 0 ∨ Covers other flag) {i : ℕ} (hi : flag.getLsbD i = true)
    (hnot : other.getLsbD i = false) : Covers (bits &&& ~~~other) flag := by
  refine covers_iff.mpr fun j hj => getLsbD_and_not.mpr ⟨covers_iff.mp h j hj, ?_⟩
  rcases hnested with hdisj | hin
  · have hzero := congrArg (BitVec.getLsbD · j) hdisj
    simpa [BitVec.getLsbD_and, hj] using hzero
  · rw [covers_iff.mp hin i hi] at hnot
    cases hnot

/-- A mask that is left after it has been removed is zero. -/
theorem eq_zero_of_covers_and_not {bits flag : BitVec w} (h : Covers (bits &&& ~~~flag) flag) :
    flag = 0 := by
  refine BitVec.eq_of_getLsbD_eq fun i _ => ?_
  cases hi : flag.getLsbD i with
  | false => simp
  | true =>
    have hnot := (getLsbD_and_not.mp (covers_iff.mp h i hi)).2
    rw [hi] at hnot
    cases hnot

/-- With nested masks nothing is left of a vector all of whose bits are in masks contained in it.
Of the masks that have been seen, none but zero is contained in it. -/
private theorem greedy_snd_eq_zero {es : List ε} {seen : List (BitVec w)}
    (hnested : NestedAfter mask seen es) {bits : BitVec w}
    (hseen : ∀ s ∈ seen, Covers bits s → s = 0)
    (h : ∀ i, bits.getLsbD i = true →
      ∃ e ∈ es, Covers bits (mask e) ∧ (mask e).getLsbD i = true) :
    (greedy mask es bits).2 = 0 := by
  induction es generalizing bits seen with
  | nil =>
    refine BitVec.eq_of_getLsbD_eq fun i _ => ?_
    cases hi : (greedy mask [] bits).2.getLsbD i with
    | false => simp
    | true =>
      obtain ⟨_, hmem, -⟩ := h i hi
      cases hmem
  | cons e es ih =>
    obtain ⟨hfirst, hrest⟩ := hnested
    by_cases hcov : Covers bits (mask e)
    · rw [greedy_cons_of_covers hcov]
      refine ih hrest (fun s hs hs' => ?_) fun i hi => ?_
      · rcases List.mem_cons.mp hs with rfl | hs
        · exact eq_zero_of_covers_and_not hs'
        · exact hseen s hs hs'.of_and_not
      obtain ⟨hbit, hnot⟩ := getLsbD_and_not.mp hi
      obtain ⟨e', hmem, hcov', hi'⟩ := h i hbit
      rcases List.mem_cons.mp hmem with rfl | hmem
      · rw [hi'] at hnot
        cases hnot
      · rcases hfirst e' hmem with hold | hrel
        · rw [hseen _ hold hcov'] at hi'
          simp at hi'
        · exact ⟨e', hmem, hcov'.and_not hrel hi' hnot, hi'⟩
    · rw [greedy_cons_of_not_covers hcov]
      refine ih hrest (fun s hs hs' => ?_) fun i hi => ?_
      · rcases List.mem_cons.mp hs with rfl | hs
        · exact absurd hs' hcov
        · exact hseen s hs hs'
      obtain ⟨e', hmem, hcov', hi'⟩ := h i hi
      rcases List.mem_cons.mp hmem with rfl | hmem
      · exact absurd hcov' hcov
      · exact ⟨e', hmem, hcov', hi'⟩

theorem and_not_zero (bits : BitVec w) : bits &&& ~~~0 = bits := by
  simp

/-- **What can be covered is covered.** With nested masks nothing is left just when the vector is
the union of some of the masks. -/
theorem greedy_snd_eq_zero_iff {es : List ε} {seen : List (BitVec w)}
    (hnested : NestedAfter mask seen es) {bits : BitVec w}
    (hseen : ∀ s ∈ seen, Covers bits s → s = 0) :
    (greedy mask es bits).2 = 0 ↔ ∃ l, l ⊆ es ∧ bits = unionOf mask l := by
  constructor
  · intro hzero
    refine ⟨(greedy mask es bits).1, (greedy_fst_sublist es bits).subset, ?_⟩
    rw [(unionOf_greedy es bits).1, hzero, and_not_zero]
  · rintro ⟨l, hsub, rfl⟩
    refine greedy_snd_eq_zero hnested hseen fun i hi => ?_
    obtain ⟨e, hmem, hi'⟩ := getLsbD_unionOf.mp hi
    exact ⟨e, hsub hmem, covers_unionOf hmem, hi'⟩

end SnowballLtp
