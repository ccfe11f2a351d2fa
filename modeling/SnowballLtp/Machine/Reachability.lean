import Mathlib.Logic.Basic
import Mathlib.Algebra.GroupWithZero.Nat
import Mathlib.Data.List.Basic

/-!
# Machines and their reachable states

A *machine* is a predicate of initial states and a partial next-state function: `next s l` is
the state after the step `l` from `s`, and `none` when `l` is not enabled in `s`. Interleavings
are all in the choice of the labels, so one machine describes any number of parties running in
any order.

`Machine.ReachableVia ok` is the set of states that runs reach whose every step `l` from `s`
satisfies `ok s l`; `Machine.Reachable` puts no condition on the steps. A property of all runs is
proved from an inductive invariant (`Machine.ReachableVia.invariant`), and a run given by its
labels is replayed by `Machine.exec` (`Machine.ReachableVia.exec`).

## Main definitions

* `Machine`, `Machine.exec`, `Machine.execVia`.
* `Machine.ReachableVia`, `Machine.Reachable`.

## Main results

* `Machine.ReachableVia.invariant`: the invariant rule.
* `Machine.exec_invariant`: the invariant rule for runs with their histories.
* `Machine.exec_rank`: the length of a run whose steps lower a rank.
* `Machine.ReachableVia.mono`: a weaker condition on the steps reaches more states.
* `Machine.ReachableVia.exec`, `Machine.ReachableVia.execVia`, `Machine.Reachable.exec`: replaying
  labels from a reachable state.
-/

namespace SnowballLtp

universe u v

/-- A transition system with a partial next-state function. -/
structure Machine (σ : Type u) (ℓ : Type v) where
  /-- The initial states. -/
  init : σ → Prop
  /-- The state after a step, when the step is enabled. -/
  next : σ → ℓ → Option σ

namespace Machine

variable {σ : Type u} {ℓ : Type v} (M : Machine σ ℓ)

/-- The state after the steps of a list, when each of them is enabled in its turn. -/
def exec : σ → List ℓ → Option σ
  | s, [] => some s
  | s, l :: ls => (M.next s l).bind fun s' => exec s' ls

theorem exec_cons (s : σ) (l : ℓ) (ls : List ℓ) :
    M.exec s (l :: ls) = (M.next s l).bind fun s' => M.exec s' ls := rfl

/-- The states of the runs whose every step `l`, taken in `s`, satisfies `ok s l`. -/
inductive ReachableVia (ok : σ → ℓ → Prop) : σ → Prop
  | init {s : σ} (hs : M.init s) : ReachableVia ok s
  | step {s s' : σ} (l : ℓ) (hs : ReachableVia ok s) (hok : ok s l) (hl : M.next s l = some s') :
      ReachableVia ok s'

/-- The states of all runs. -/
abbrev Reachable : σ → Prop := M.ReachableVia fun _ _ => True

variable {M} {ok ok' : σ → ℓ → Prop}

/-- **The invariant rule.** What holds initially and is kept by every permitted step holds in
every state of every permitted run. -/
theorem ReachableVia.invariant {I : σ → Prop} {s : σ} (h : M.ReachableVia ok s)
    (hinit : ∀ s, M.init s → I s)
    (hstep : ∀ s l s', I s → ok s l → M.next s l = some s' → I s') : I s := by
  induction h with
  | init hs => exact hinit _ hs
  | step l _ hok hl ih => exact hstep _ l _ ih hok hl

theorem ReachableVia.mono {s : σ} (h : M.ReachableVia ok s) (hok : ∀ s l, ok s l → ok' s l) :
    M.ReachableVia ok' s :=
  h.invariant (fun _ hs => .init hs) fun _ l _ ih hl hs => .step l ih (hok _ l hl) hs

theorem Reachable.step {s s' : σ} {l : ℓ} (h : M.Reachable s) (hl : M.next s l = some s') :
    M.Reachable s' :=
  ReachableVia.step l h trivial hl

/-- Replaying permitted labels from a state that permitted steps reach. -/
theorem ReachableVia.exec {ok : ℓ → Prop} {s s' : σ}
    (h : M.ReachableVia (fun _ l => ok l) s) (ls : List ℓ) (hls : M.exec s ls = some s')
    (hok : ∀ l ∈ ls, ok l) : M.ReachableVia (fun _ l => ok l) s' := by
  induction ls generalizing s with
  | nil => exact Option.some.inj hls ▸ h
  | cons l ls ih =>
    obtain ⟨t, ht, hls⟩ := Option.bind_eq_some_iff.mp hls
    exact ih (.step l h (hok l List.mem_cons_self) ht) hls
      fun l' hl' => hok l' (List.mem_cons_of_mem _ hl')

/-- The state after the steps of a list, when each of them is permitted and enabled in its
turn. -/
def execVia (M : Machine σ ℓ) (ok : σ → ℓ → Prop) [∀ s l, Decidable (ok s l)] :
    σ → List ℓ → Option σ
  | s, [] => some s
  | s, l :: ls => if ok s l then (M.next s l).bind fun s' => execVia M ok s' ls else none

/-- Replaying labels that are permitted where they are taken. -/
theorem ReachableVia.execVia [∀ s l, Decidable (ok s l)] {s s' : σ} (h : M.ReachableVia ok s)
    (ls : List ℓ) (hls : M.execVia ok s ls = some s') : M.ReachableVia ok s' := by
  induction ls generalizing s with
  | nil => exact Option.some.inj hls ▸ h
  | cons l ls ih =>
    obtain ⟨hok, hls⟩ := Option.ite_none_right_eq_some.mp hls
    obtain ⟨t, ht, hls⟩ := Option.bind_eq_some_iff.mp hls
    exact ih (.step l h hok ht) hls

/-- **The invariant rule for histories.** What holds before the first step, and with every step of
what has happened before and the step, holds of a run and the state that it ends in. -/
theorem exec_invariant {I : List ℓ → σ → Prop} {s s' : σ} {ls : List ℓ} (h : M.exec s ls = some s')
    (hinit : I [] s)
    (hstep : ∀ before s l s', I before s → M.next s l = some s' → I (before ++ [l]) s') :
    I ls s' := by
  suffices hrun : ∀ before s, I before s → M.exec s ls = some s' → I (before ++ ls) s' from
    hrun [] s hinit h
  clear h hinit
  induction ls with
  | nil =>
    intro before s hs h
    rw [List.append_nil]
    exact Option.some.inj h ▸ hs
  | cons l ls ih =>
    intro before s hs h
    obtain ⟨t, ht, hls⟩ := Option.bind_eq_some_iff.mp h
    have hrest := ih (before ++ [l]) t (hstep before s l t hs ht) hls
    rwa [List.append_assoc] at hrest

/-- **The rank rule.** Where every step keeps an invariant and lowers a rank, a run has no more
steps than the rank of the state that it starts in. -/
theorem exec_rank (rank : σ → ℕ) {I : σ → Prop} {s s' : σ} {ls : List ℓ}
    (h : M.exec s ls = some s') (hinit : I s)
    (hstep : ∀ s l s', I s → M.next s l = some s' → I s' ∧ rank s' < rank s) :
    I s' ∧ ls.length + rank s' ≤ rank s := by
  refine exec_invariant (I := fun before t => I t ∧ before.length + rank t ≤ rank s) h
    ⟨hinit, by simp⟩ fun before t l t' ⟨ht, hle⟩ hl => ?_
  obtain ⟨ht', hlt⟩ := hstep t l t' ht hl
  rw [List.length_append, List.length_singleton]
  exact ⟨ht', by omega⟩

/-- Replaying labels from a reachable state. -/
theorem Reachable.exec {s s' : σ} (h : M.Reachable s) (ls : List ℓ)
    (hls : M.exec s ls = some s') : M.Reachable s' :=
  ReachableVia.exec h ls hls fun _ _ => trivial

end Machine

/-! ### Components kept in a list -/

/-- The components after one of them has been replaced. -/
theorem getElem?_set_cases {α : Type*} {l : List α} {i j : ℕ} {a b : α}
    (h : (l.set i a)[j]? = some b) : (j = i ∧ b = a) ∨ (j ≠ i ∧ l[j]? = some b) := by
  by_cases hij : j = i
  · subst hij
    obtain ⟨hj, -⟩ := List.getElem?_eq_some_iff.mp h
    rw [List.getElem?_set_self (by simpa using hj)] at h
    exact Or.inl ⟨rfl, (Option.some.inj h).symm⟩
  · rw [List.getElem?_set_ne (Ne.symm hij)] at h
    exact Or.inr ⟨hij, h⟩

/-- A sum over the components after one of them has been replaced. -/
theorem sum_map_set {α : Type*} {l : List α} {i : ℕ} {a b : α} (f : α → ℕ) (h : l[i]? = some a) :
    ((l.set i b).map f).sum + f a = (l.map f).sum + f b := by
  induction l generalizing i with
  | nil => cases h
  | cons c l ih =>
    cases i with
    | zero =>
      obtain rfl := Option.some.inj h
      simp only [List.set_cons_zero, List.map_cons, List.sum_cons]
      omega
    | succ i =>
      have hrest := ih h
      simp only [List.set_cons_succ, List.map_cons, List.sum_cons]
      omega

/-- Modifying one component keeps what holds of all of them. -/
theorem forall_mem_modify {α : Type*} {P : α → Prop} {f : α → α} {l : List α}
    (hl : ∀ x ∈ l, P x) (hf : ∀ x, P x → P (f x)) (i : ℕ) : ∀ x ∈ l.modify i f, P x := by
  intro x hx
  obtain ⟨j, hj⟩ := List.getElem?_of_mem hx
  rw [List.getElem?_modify] at hj
  obtain ⟨y, hy, rfl⟩ := Option.map_eq_some_iff.mp hj
  have hPy := hl y (List.mem_of_getElem? hy)
  split_ifs
  · exact hf y hPy
  · exact hPy

/-- Modifying the component that has been added. -/
theorem modify_length_concat {α : Type*} (f : α → α) (l : List α) (a : α) :
    (l ++ [a]).modify l.length f = l ++ [f a] := by
  induction l with
  | nil => rfl
  | cons x l ih =>
    rw [List.cons_append, List.length_cons, List.modify_succ_cons, ih, List.cons_append]

end SnowballLtp
