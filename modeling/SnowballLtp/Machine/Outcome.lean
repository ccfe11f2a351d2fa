/-!
# Computations that return or stop

The outcome of a computation over a state that either returns a value or stops for good, as a
process does that exits or aborts. A statement about the outcome says what holds when the
computation returns and what holds when it stops; the rules below follow the computation's own
structure.

## Main definitions

* `Outcome`: what holds of the end of a computation from a given state.
* `onlyIf`: a computation that is run under a condition.
* `onPart`: a computation on a part of a larger state.
* `Keeps`: a computation that keeps an invariant.

## Main results

* `Outcome.bind`: the rule of composition.
* `Outcome.exists_error`: a computation that cannot return stops.
* `Outcome.onPart`: a computation on a part of a larger state.
-/

namespace SnowballLtp

variable {ε σ α β : Type}

/-- The computation `m` from `s` ends in `returns` when it returns and in `stops` when it stops. -/
def Outcome (m : EStateM ε σ α) (s : σ) (returns : α → σ → Prop) (stops : ε → σ → Prop) : Prop :=
  match m.run s with
  | .ok a s' => returns a s'
  | .error e s' => stops e s'

namespace Outcome

variable {m : EStateM ε σ α} {f : α → EStateM ε σ β} {s s' : σ} {a : α} {e : ε}
  {returns returns' : α → σ → Prop} {stops stops' : ε → σ → Prop} {after : β → σ → Prop}

theorem of_ok (h : m.run s = .ok a s') (hr : returns a s') : Outcome m s returns stops := by
  rw [Outcome, h]
  exact hr

theorem of_error (h : m.run s = .error e s') (hs : stops e s') : Outcome m s returns stops := by
  rw [Outcome, h]
  exact hs

theorem mono (h : Outcome m s returns stops) (hr : ∀ a s', returns a s' → returns' a s')
    (hs : ∀ e s', stops e s' → stops' e s') : Outcome m s returns' stops' := by
  rw [Outcome] at h ⊢
  cases hm : m.run s with
  | ok a s' => exact hr a s' (by simpa only [hm] using h)
  | error e s' => exact hs e s' (by simpa only [hm] using h)

theorem imp (h : Outcome m s returns stops) (hr : ∀ a s', returns a s' → returns' a s') :
    Outcome m s returns' stops := h.mono hr fun _ _ hs => hs

/-- Two statements about one end. -/
theorem and (h : Outcome m s returns stops) (h' : Outcome m s returns' stops') :
    Outcome m s (fun a s' => returns a s' ∧ returns' a s')
      fun e s' => stops e s' ∧ stops' e s' := by
  rw [Outcome] at h h' ⊢
  cases hm : m.run s with
  | ok a s' => exact ⟨by simpa only [hm] using h, by simpa only [hm] using h'⟩
  | error e s' => exact ⟨by simpa only [hm] using h, by simpa only [hm] using h'⟩

theorem of_run_eq {m' : EStateM ε σ α} (h : m.run s = m'.run s) (h' : Outcome m' s returns stops) :
    Outcome m s returns stops := by
  rw [Outcome, h]
  exact h'

/-- **Composition.** What the first computation ensures is what the second one starts from. -/
theorem bind (h : Outcome m s returns stops)
    (hf : ∀ a s', returns a s' → Outcome (f a) s' after stops) :
    Outcome (m >>= f) s after stops := by
  rw [Outcome, EStateM.run_bind]
  rw [Outcome] at h
  cases hm : m.run s with
  | ok a s' => exact hf a s' (by simpa only [hm] using h)
  | error e s' => simpa only [hm] using h

/-- A first computation whose end is known. -/
theorem bind_of_ok (h : m.run s = .ok a s') (hf : Outcome (f a) s' after stops) :
    Outcome (m >>= f) s after stops := by
  rw [Outcome, EStateM.run_bind, h]
  exact hf

/-- A computation that cannot return stops. -/
theorem exists_error (h : Outcome m s (fun _ _ => False) stops) :
    ∃ e s', m.run s = .error e s' ∧ stops e s' := by
  rw [Outcome] at h
  cases hm : m.run s with
  | ok a s' => exact absurd h (by simp only [hm, not_false_eq_true])
  | error e s' => exact ⟨e, s', rfl, by simpa only [hm] using h⟩

/-- A computation that cannot stop returns. -/
theorem exists_ok (h : Outcome m s returns fun _ _ => False) :
    ∃ a s', m.run s = .ok a s' ∧ returns a s' := by
  rw [Outcome] at h
  cases hm : m.run s with
  | ok a s' => exact ⟨a, s', rfl, by simpa only [hm] using h⟩
  | error e s' => exact absurd h (by simp only [hm, not_false_eq_true])

/-- The end of a computation that is known. -/
theorem iff_of_ok (h : m.run s = .ok a s') : Outcome m s returns stops ↔ returns a s' := by
  rw [Outcome, h]

end Outcome

/-! ### Running a sequence -/

section Bind

variable {m : EStateM ε σ α} {f : α → EStateM ε σ β} {s s' : σ} {a : α} {e : ε}

theorem run_bind_of_ok (h : m.run s = .ok a s') : (m >>= f).run s = (f a).run s' := by
  rw [EStateM.run_bind, h]

theorem run_bind_of_error (h : m.run s = .error e s') : (m >>= f).run s = .error e s' := by
  rw [EStateM.run_bind, h]

end Bind

/-! ### A part of the state -/

section OnPart

variable {ε' τ : Type} {part : τ → σ} {put : τ → σ → τ} {wrap : ε → ε'} {m : EStateM ε σ α} {t : τ}
  {returns : α → σ → Prop} {stops : ε → σ → Prop}

/-- The computation on the `part` of a larger state, which is `put` back. -/
def onPart (part : τ → σ) (put : τ → σ → τ) (wrap : ε → ε') (m : EStateM ε σ α) :
    EStateM ε' τ α := fun t =>
  match m.run (part t) with
  | .ok a s => .ok a (put t s)
  | .error e s => .error (wrap e) (put t s)

theorem run_onPart_of_ok {a : α} {s : σ} (h : m.run (part t) = .ok a s) :
    (onPart part put wrap m).run t = .ok a (put t s) := by
  rw [EStateM.run, onPart, h]

theorem run_onPart_of_error {e : ε} {s : σ} (h : m.run (part t) = .error e s) :
    (onPart part put wrap m).run t = .error (wrap e) (put t s) := by
  rw [EStateM.run, onPart, h]

/-- **A computation on a part of the state** ends as it does there. -/
theorem Outcome.onPart (h : Outcome m (part t) returns stops) :
    Outcome (SnowballLtp.onPart part put wrap m) t (fun a t' => ∃ s, t' = put t s ∧ returns a s)
      fun stop t' => ∃ e s, stop = wrap e ∧ t' = put t s ∧ stops e s := by
  rw [Outcome] at h
  cases hm : m.run (part t) with
  | ok a s => exact .of_ok (run_onPart_of_ok hm) ⟨s, rfl, by simpa only [hm] using h⟩
  | error e s =>
    exact .of_error (run_onPart_of_error hm) ⟨e, s, rfl, rfl, by simpa only [hm] using h⟩

end OnPart

/-! ### Conditional computations -/

section OnlyIf

variable {c : Prop} [Decidable c] {m : EStateM ε σ Unit} {s : σ}
  {returns : Unit → σ → Prop} {stops : ε → σ → Prop}

/-- The computation `m` when the condition holds, and nothing otherwise. -/
def onlyIf (c : Prop) [Decidable c] (m : EStateM ε σ Unit) : EStateM ε σ Unit :=
  if c then m else pure ()

@[simp] theorem onlyIf_of_pos (h : c) : onlyIf c m = m := if_pos h

@[simp] theorem onlyIf_of_neg (h : ¬c) : onlyIf c m = pure () := if_neg h

theorem Outcome.onlyIf (hpos : c → Outcome m s returns stops) (hneg : ¬c → returns () s) :
    Outcome (SnowballLtp.onlyIf c m) s returns stops := by
  by_cases h : c
  · rw [onlyIf_of_pos h]
    exact hpos h
  · rw [onlyIf_of_neg h]
    exact Outcome.of_ok (EStateM.run_pure () s) (hneg h)

end OnlyIf

/-! ### Invariants -/

/-- From a state with the invariant the computation ends in one with it, and it stops only in ways
that are safe. -/
def Keeps (inv : σ → Prop) (safe : ε → Prop) (m : EStateM ε σ α) : Prop :=
  ∀ s, inv s → Outcome m s (fun _ s' => inv s') fun e s' => safe e ∧ inv s'

section Keeps

variable {inv : σ → Prop} {safe : ε → Prop} {m : EStateM ε σ α} {f : α → EStateM ε σ β}

theorem keeps_pure (a : α) : Keeps inv safe (pure a : EStateM ε σ α) :=
  fun s hs => Outcome.of_ok (EStateM.run_pure a s) hs

theorem keeps_throw {e : ε} (he : safe e) : Keeps inv safe (throw e : EStateM ε σ α) :=
  fun _ hs => Outcome.of_error rfl ⟨he, hs⟩

theorem keeps_modify {f : σ → σ} (hf : ∀ s, inv s → inv (f s)) :
    Keeps inv safe (modify f : EStateM ε σ PUnit) :=
  fun s hs => Outcome.of_ok (EStateM.run_modify f s) (hf s hs)

theorem keeps_set {s : σ} (hs : inv s) : Keeps inv safe (set s : EStateM ε σ PUnit) :=
  fun _ _ => Outcome.of_ok (EStateM.run_set _ _) hs

theorem Keeps.bind (hm : Keeps inv safe m) (hf : ∀ a, Keeps inv safe (f a)) :
    Keeps inv safe (m >>= f) :=
  fun s hs => Outcome.bind (hm s hs) fun a s' hs' => hf a s' hs'

/-- What is read has the invariant. -/
theorem keeps_get_bind {f : σ → EStateM ε σ β} (hf : ∀ s, inv s → Keeps inv safe (f s)) :
    Keeps inv safe (get >>= f) :=
  fun s hs => Outcome.bind_of_ok (EStateM.run_get s) (hf s hs s hs)

theorem keeps_ite {c : Prop} [Decidable c] {m m' : EStateM ε σ α} (hpos : c → Keeps inv safe m)
    (hneg : ¬c → Keeps inv safe m') : Keeps inv safe (if c then m else m') := by
  by_cases h : c
  · rw [if_pos h]
    exact hpos h
  · rw [if_neg h]
    exact hneg h

theorem keeps_onlyIf {c : Prop} [Decidable c] {m : EStateM ε σ Unit}
    (hm : c → Keeps inv safe m) : Keeps inv safe (onlyIf c m) :=
  fun s hs => Outcome.onlyIf (fun h => hm h s hs) fun _ => hs

end Keeps

end SnowballLtp
