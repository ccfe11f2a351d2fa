import Mathlib.Data.List.Basic

/-!
# Calls that are repeated

A loop that repeats a call while its outcome asks for that, over the outcomes that the call has one
after the other. It ends with the first outcome that does not ask; where every outcome asks, it is
still waiting for another one.

## Main definitions

* `Tries`, `retry`.

## Main results

* `retry_of_stop`: the run up to the outcome that ends the loop.
* `retry_map_eq_iff`: when two loops over the same outcomes do the same.
-/

namespace SnowballLtp

variable {α β : Type}

/-- The calls that were made, and the outcome that ended the loop. -/
structure Tries (α : Type) where
  calls : ℕ
  last : Option α
deriving DecidableEq

/-- The outcome as it is seen from outside. -/
def Tries.map (f : α → β) (tries : Tries α) : Tries β :=
  { calls := tries.calls, last := tries.last.map f }

/-- The loop that repeats its call `again`. -/
def retry (again : α → Prop) [DecidablePred again] : List α → Tries α
  | [] => { calls := 0, last := none }
  | o :: os =>
    if again o then
      let tries := retry again os
      { tries with calls := tries.calls + 1 }
    else { calls := 1, last := some o }

section Retry

variable {p q : α → Prop} [DecidablePred p] [DecidablePred q]

theorem retry_cons_of_pos {o : α} (h : p o) (os : List α) :
    retry p (o :: os) = { calls := (retry p os).calls + 1, last := (retry p os).last } := by
  rw [retry, if_pos h]

theorem retry_cons_of_neg {o : α} (h : ¬p o) (os : List α) :
    retry p (o :: os) = { calls := 1, last := some o } := by
  rw [retry, if_neg h]

/-- Outcomes that ask for another call are passed over. -/
theorem retry_append {before : List α} (h : ∀ o ∈ before, p o) (os : List α) :
    retry p (before ++ os) =
      { calls := before.length + (retry p os).calls, last := (retry p os).last } := by
  induction before with
  | nil => simp
  | cons o before ih =>
    obtain ⟨ho, hbefore⟩ := List.forall_mem_cons.mp h
    rw [List.cons_append, retry_cons_of_pos ho, ih hbefore, List.length_cons, Nat.add_right_comm]

/-- **A loop that ends.** It has made a call for each outcome up to the one that ended it. -/
theorem retry_of_stop {before : List α} (h : ∀ o ∈ before, p o) {o : α} (ho : ¬p o)
    (os : List α) :
    retry p (before ++ o :: os) = { calls := before.length + 1, last := some o } := by
  rw [retry_append h, retry_cons_of_neg ho]

/-- A loop whose outcomes all ask for another call goes on. -/
theorem retry_of_forall {os : List α} (h : ∀ o ∈ os, p o) :
    retry p os = { calls := os.length, last := none } := by
  have happend : retry p (os ++ []) = _ := retry_append h []
  rwa [List.append_nil] at happend

/-- No call is made only where there is no outcome. -/
theorem calls_pos {os : List α} {o : α} (h : (retry p os).last = some o) :
    0 < (retry p os).calls := by
  cases os with
  | nil => cases h
  | cons a os =>
    by_cases ha : p a
    · rw [retry_cons_of_pos ha]
      exact Nat.succ_pos _
    · rw [retry_cons_of_neg ha]
      exact Nat.one_pos

/-- The outcomes end the loop, or they all ask for another call. -/
theorem forall_or_exists_stop (p : α → Prop) (os : List α) :
    (∀ o ∈ os, p o) ∨ ∃ before o after, os = before ++ o :: after ∧ (∀ b ∈ before, p b) ∧ ¬p o := by
  induction os with
  | nil => simp
  | cons a os ih =>
    by_cases ha : p a
    · obtain hall | ⟨before, o, after, rfl, hbefore, ho⟩ := ih
      · exact .inl (List.forall_mem_cons.mpr ⟨ha, hall⟩)
      · exact .inr ⟨a :: before, o, after, rfl, List.forall_mem_cons.mpr ⟨ha, hbefore⟩, ho⟩
    · exact .inr ⟨[], a, os, rfl, List.forall_mem_nil _, ha⟩

/-- An outcome that ends one loop and not the other tells them apart. -/
theorem map_ne_of_stop (f : α → β) {o : α} (hp : p o) (hq : ¬q o) (os : List α) :
    (retry p (o :: os)).map f ≠ (retry q (o :: os)).map f := by
  intro h
  rw [retry_cons_of_pos hp, retry_cons_of_neg hq, Tries.map, Tries.map, Tries.mk.injEq] at h
  obtain ⟨hcalls, hlast⟩ := h
  obtain ⟨o', ho', -⟩ : ∃ o', (retry p os).last = some o' ∧ f o' = f o := by simpa using hlast
  have hpos : 0 < (retry p os).calls := calls_pos ho'
  have hzero : (retry p os).calls + 1 = 1 := hcalls
  omega

/-- **Two loops.** Where no outcome asks both for another call, they do the same just when the first
outcome asks neither. -/
theorem retry_map_eq_iff (hne : ∀ o, ¬(p o ∧ q o)) (f : α → β) (os : List α) :
    (retry p os).map f = (retry q os).map f ↔ ∀ o ∈ os.head?, ¬p o ∧ ¬q o := by
  cases os with
  | nil => simp [retry]
  | cons o os =>
    simp only [List.head?_cons, Option.mem_some_iff, forall_eq']
    constructor
    · intro h
      by_cases hp : p o
      · exact absurd h (map_ne_of_stop f hp (fun hq => hne o ⟨hp, hq⟩) os)
      · exact ⟨hp, fun hq => map_ne_of_stop f hq hp os h.symm⟩
    · rintro ⟨hp, hq⟩
      rw [retry_cons_of_neg hp, retry_cons_of_neg hq]

end Retry

end SnowballLtp
