import Mathlib.Data.Nat.Init
import Mathlib.Logic.Relation

/-!
# Loops

A loop is given by its body: from a state of the loop a pass either goes on with a new state or
leaves with a result. `iterate` runs a number of passes and has no result when none of them left;
the loop terminates from a state when some number of passes has a result.

The rule for total correctness is `iterate_of_measure`: an invariant that every pass keeps, a
measure that every pass lowers, and what holds of the result whenever a pass leaves. The opposite
is `iterate_eq_none`: a loop whose every pass goes on has no result. `Passes` relates the states of
a loop; two loops whose bodies follow each other have the same states, up to the relation, and the
same results (`iterate_eq_of_simulates`).

## Main definitions

* `iterate`, `Passes`.
* `Simulates`: the passes of one loop follow those of another.

## Main results

* `iterate_of_le`, `iterate_unique`: more passes do not change a result.
* `exists_inr_of_iterate`: where a result comes from.
* `iterate_of_measure`: the rule for total correctness.
* `iterate_eq_none`, `exists_iterate_iff`: loops without a result.
* `Passes.total`, `Passes.invariant`, `Simulates.exists_right`, `Simulates.exists_left`,
  `iterate_eq_of_simulates`.
-/

namespace SnowballLtp

variable {σ ρ : Type*} {body : σ → σ ⊕ ρ}

/-- At most `fuel` passes of a loop. -/
def iterate (body : σ → σ ⊕ ρ) : ℕ → σ → Option ρ
  | 0, _ => none
  | fuel + 1, s =>
    match body s with
    | .inl s' => iterate body fuel s'
    | .inr r => some r

theorem iterate_succ_inl {fuel : ℕ} {s s' : σ} (h : body s = .inl s') :
    iterate body (fuel + 1) s = iterate body fuel s' := by
  simp [iterate, h]

theorem iterate_succ_inr {fuel : ℕ} {s : σ} {r : ρ} (h : body s = .inr r) :
    iterate body (fuel + 1) s = some r := by
  simp [iterate, h]

/-- More passes do not change a result. -/
theorem iterate_of_le {fuel fuel' : ℕ} {s : σ} {r : ρ} (h : iterate body fuel s = some r)
    (hle : fuel ≤ fuel') : iterate body fuel' s = some r := by
  induction fuel generalizing s fuel' with
  | zero => simp [iterate] at h
  | succ fuel ih =>
    obtain ⟨n, rfl⟩ := Nat.exists_eq_add_of_le' (Nat.le_trans (Nat.le_add_left 1 fuel) hle)
    cases hb : body s with
    | inl s' =>
      rw [iterate_succ_inl hb] at h ⊢
      exact ih h (by omega)
    | inr r' =>
      rw [iterate_succ_inr hb] at h ⊢
      exact h

/-- The result does not depend on the number of passes. -/
theorem iterate_unique {fuel fuel' : ℕ} {s : σ} {r r' : ρ} (h : iterate body fuel s = some r)
    (h' : iterate body fuel' s = some r') : r = r' := by
  have hmore := iterate_of_le h (Nat.le_add_right fuel fuel')
  have hmore' := iterate_of_le h' (Nat.le_add_left fuel' fuel)
  exact Option.some.inj (hmore.symm.trans hmore')

/-- A result is the result of some pass. -/
theorem exists_inr_of_iterate {fuel : ℕ} {s : σ} {r : ρ} (h : iterate body fuel s = some r) :
    ∃ s', body s' = .inr r := by
  induction fuel generalizing s with
  | zero => simp [iterate] at h
  | succ fuel ih =>
    cases hb : body s with
    | inl s' => exact ih (by rwa [iterate_succ_inl hb] at h)
    | inr r' =>
      rw [iterate_succ_inr hb, Option.some.injEq] at h
      exact ⟨s, h ▸ hb⟩

/-- **Total correctness.** If every pass either keeps the invariant and lowers the measure or
leaves with a result as wanted, then the loop ends with such a result. -/
theorem iterate_of_measure (inv : σ → Prop) (measure : σ → ℕ) (post : ρ → Prop)
    (hpass : ∀ s, inv s → (∃ s', body s = .inl s' ∧ inv s' ∧ measure s' < measure s) ∨
      ∃ r, body s = .inr r ∧ post r) :
    ∀ {fuel : ℕ} {s : σ}, inv s → measure s < fuel →
      ∃ r, iterate body fuel s = some r ∧ post r := by
  intro fuel
  induction fuel with
  | zero => intro s _ h; omega
  | succ fuel ih =>
    intro s hs hfuel
    rcases hpass s hs with ⟨s', hb, hs', hlt⟩ | ⟨r, hb, hr⟩
    · rw [iterate_succ_inl hb]
      exact ih hs' (by omega)
    · exact ⟨r, iterate_succ_inr hb, hr⟩

/-! ### The states of a loop -/

/-- Some passes of the loop go from `s` to `s'`. -/
def Passes (body : σ → σ ⊕ ρ) : σ → σ → Prop := Relation.ReflTransGen fun s s' => body s = .inl s'

theorem Passes.refl (s : σ) : Passes body s s := Relation.ReflTransGen.refl

theorem Passes.step {s t u : σ} (h : Passes body s t) (hb : body t = .inl u) : Passes body s u :=
  Relation.ReflTransGen.tail h hb

/-- Of two states of a loop one comes behind the other. -/
theorem Passes.total {s t u : σ} (ht : Passes body s t) (hu : Passes body s u) :
    Passes body t u ∨ Passes body u t :=
  Relation.ReflTransGen.total_of_right_unique
    (fun _ _ _ h h' => Sum.inl.inj (h.symm.trans h')) ht hu

/-- What holds at first and is kept by every pass. -/
theorem Passes.invariant {s t : σ} (h : Passes body s t) (inv : σ → Prop) (hs : inv s)
    (hpass : ∀ t u, inv t → body t = .inl u → inv u) : inv t := by
  induction h with
  | refl => exact hs
  | tail _ hb ih => exact hpass _ _ ih hb

/-- A loop whose every pass goes on has no result. -/
theorem iterate_eq_none (inv : σ → Prop)
    (hpass : ∀ s, inv s → ∃ s', body s = .inl s' ∧ inv s') (fuel : ℕ) {s : σ} (hs : inv s) :
    iterate body fuel s = none := by
  induction fuel generalizing s with
  | zero => rfl
  | succ fuel ih =>
    obtain ⟨s', hb, hs'⟩ := hpass s hs
    rw [iterate_succ_inl hb]
    exact ih hs'

/-- The passes before do not matter for the result. -/
theorem exists_iterate_iff {s t : σ} (h : Passes body s t) (r : ρ) :
    (∃ fuel, iterate body fuel s = some r) ↔ ∃ fuel, iterate body fuel t = some r := by
  induction h with
  | refl => rfl
  | @tail t u _ hb ih =>
    refine ih.trans ⟨?_, ?_⟩
    · rintro ⟨fuel, hfuel⟩
      cases fuel with
      | zero => simp [iterate] at hfuel
      | succ fuel => exact ⟨fuel, by rwa [iterate_succ_inl hb] at hfuel⟩
    · rintro ⟨fuel, hfuel⟩
      exact ⟨fuel + 1, by rwa [iterate_succ_inl hb]⟩

/-- The result of a loop is the result of the pass from one of its states. -/
theorem exists_passes_of_iterate {fuel : ℕ} {s : σ} {r : ρ} (h : iterate body fuel s = some r) :
    ∃ t, Passes body s t ∧ body t = .inr r := by
  induction fuel generalizing s with
  | zero => simp [iterate] at h
  | succ fuel ih =>
    cases hb : body s with
    | inl s' =>
      rw [iterate_succ_inl hb] at h
      obtain ⟨t, ht, hr⟩ := ih h
      exact ⟨t, Relation.ReflTransGen.head hb ht, hr⟩
    | inr r' =>
      rw [iterate_succ_inr hb, Option.some.injEq] at h
      exact ⟨s, .refl s, by rw [hb, h]⟩

/-! ### Two loops -/

section Simulation

variable {τ : Type*} {body' : τ → τ ⊕ ρ} {R : σ → τ → Prop}

/-- From related states both loops go on to related states, or both leave with the same result. -/
def Simulates (body : σ → σ ⊕ ρ) (body' : τ → τ ⊕ ρ) (R : σ → τ → Prop) : Prop :=
  ∀ s t, R s t → (∃ s' t', body s = .inl s' ∧ body' t = .inl t' ∧ R s' t') ∨
    ∃ r, body s = .inr r ∧ body' t = .inr r

theorem iterate_eq_of_simulates (h : Simulates body body' R) (fuel : ℕ) {s : σ} {t : τ}
    (hR : R s t) : iterate body fuel s = iterate body' fuel t := by
  induction fuel generalizing s t with
  | zero => rfl
  | succ fuel ih =>
    obtain ⟨s', t', hb, hb', hR'⟩ | ⟨r, hb, hb'⟩ := h s t hR
    · rw [iterate_succ_inl hb, iterate_succ_inl hb']
      exact ih hR'
    · rw [iterate_succ_inr hb, iterate_succ_inr hb']

/-- Every state of the first loop is related to one of the second. -/
theorem Simulates.exists_right (h : Simulates body body' R) {s s' : σ} {t : τ} (hR : R s t)
    (hs : Passes body s s') : ∃ t', Passes body' t t' ∧ R s' t' := by
  refine hs.invariant (fun s' => ∃ t', Passes body' t t' ∧ R s' t') ⟨t, .refl t, hR⟩ ?_
  rintro u u' ⟨t', ht', hR'⟩ hu
  obtain ⟨v, w, hv, hw, hvw⟩ | ⟨r, hr, -⟩ := h u t' hR'
  · obtain rfl := Sum.inl.inj (hv.symm.trans hu)
    exact ⟨w, ht'.step hw, hvw⟩
  · cases hr.symm.trans hu

/-- Every state of the second loop is related to one of the first. -/
theorem Simulates.exists_left (h : Simulates body body' R) {s : σ} {t t' : τ} (hR : R s t)
    (ht : Passes body' t t') : ∃ s', Passes body s s' ∧ R s' t' := by
  refine ht.invariant (fun t' => ∃ s', Passes body s s' ∧ R s' t') ⟨s, .refl s, hR⟩ ?_
  rintro u u' ⟨s', hs', hR'⟩ hu
  obtain ⟨v, w, hv, hw, hvw⟩ | ⟨r, -, hr⟩ := h s' u hR'
  · obtain rfl := Sum.inl.inj (hw.symm.trans hu)
    exact ⟨v, hs'.step hv, hvw⟩
  · cases hr.symm.trans hu

end Simulation

end SnowballLtp
