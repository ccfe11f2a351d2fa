import Mathlib.Data.Finset.Basic
import Mathlib.Data.Finset.Union
import Mathlib.Data.List.Basic

/-!
# Ledgers of owned resources

A trace of operations on keyed resources: a key is *acquired*, *used* and *released*. The ledger
replays the trace and keeps the set of the keys held; it fails at the first acquisition of a key
already held, and at the first use or release of a key that is not held.

That a trace is accepted is the same as two statements about the trace itself
(`Ledger.isSome_run_iff`): the acquisitions and releases of each key strictly alternate, and each
use of a key comes while the last operation on that key was its acquisition.

## Main definitions

* `LedgerOp`, `Ledger.step`, `Ledger.run`.
* `Ledger.Alternates`, `Ledger.opsOn`, `Ledger.heldAfter`, `Ledger.UsesHeld`.

## Main results

* `Ledger.run_append`, `Ledger.run_map_acquire`, `Ledger.run_map_release`, `Ledger.run_map_use`.
* `Ledger.count_acquire_of_run`, `Ledger.notMem_of_run`: an accepted trace, seen from one key.
* `Ledger.isSome_run_iff`.
-/

namespace SnowballLtp

/-- An operation on the resource of a key. -/
inductive LedgerOp (κ : Type*) where
  | acquire (k : κ)
  | release (k : κ)
  | use (k : κ)
  deriving DecidableEq, Repr

namespace Ledger

variable {κ : Type*} [DecidableEq κ]

/-- One operation on the set of held keys; `none` when the operation is not permitted. -/
def step (h : Finset κ) : LedgerOp κ → Option (Finset κ)
  | .acquire k => if k ∈ h then none else some (insert k h)
  | .release k => if k ∈ h then some (h.erase k) else none
  | .use k => if k ∈ h then some h else none

/-- The keys held after a trace; `none` when some operation of it is not permitted. -/
def run (h : Finset κ) : List (LedgerOp κ) → Option (Finset κ)
  | [] => some h
  | op :: ops => (step h op).bind fun h' => run h' ops

theorem step_acquire_of_notMem {h : Finset κ} {k : κ} (hk : k ∉ h) :
    step h (.acquire k) = some (insert k h) := if_neg hk

theorem step_acquire_of_mem {h : Finset κ} {k : κ} (hk : k ∈ h) :
    step h (.acquire k) = none := if_pos hk

theorem step_release_of_mem {h : Finset κ} {k : κ} (hk : k ∈ h) :
    step h (.release k) = some (h.erase k) := if_pos hk

theorem step_release_of_notMem {h : Finset κ} {k : κ} (hk : k ∉ h) :
    step h (.release k) = none := if_neg hk

theorem step_use_of_mem {h : Finset κ} {k : κ} (hk : k ∈ h) : step h (.use k) = some h :=
  if_pos hk

theorem step_use_of_notMem {h : Finset κ} {k : κ} (hk : k ∉ h) : step h (.use k) = none :=
  if_neg hk

@[simp] theorem run_nil (h : Finset κ) : run h [] = some h := rfl

theorem run_cons (h : Finset κ) (op : LedgerOp κ) (ops : List (LedgerOp κ)) :
    run h (op :: ops) = (step h op).bind fun h' => run h' ops := rfl

theorem run_append (h : Finset κ) (a b : List (LedgerOp κ)) :
    run h (a ++ b) = (run h a).bind fun h' => run h' b := by
  induction a generalizing h with
  | nil => rfl
  | cons op a ih =>
    rw [List.cons_append, run_cons, run_cons]
    cases step h op with
    | none => rfl
    | some h' => exact ih h'

theorem run_append_of_eq {h h' : Finset κ} {a : List (LedgerOp κ)} (ha : run h a = some h')
    (b : List (LedgerOp κ)) : run h (a ++ b) = run h' b := by
  rw [run_append, ha, Option.bind_some]

/-- Acquiring distinct keys, none of them held. -/
theorem run_map_acquire {h : Finset κ} {l : List κ} (hl : l.Nodup) (hd : ∀ k ∈ l, k ∉ h) :
    run h (l.map .acquire) = some (h ∪ l.toFinset) := by
  induction l generalizing h with
  | nil => simp
  | cons k l ih =>
    obtain ⟨hk, hl⟩ := List.nodup_cons.mp hl
    have hd' : ∀ k' ∈ l, k' ∉ insert k h := by
      intro k' hk' hmem
      rcases Finset.mem_insert.mp hmem with rfl | hmem
      · exact hk hk'
      · exact hd k' (List.mem_cons_of_mem _ hk') hmem
    rw [List.map_cons, run_cons, step_acquire_of_notMem (hd k List.mem_cons_self), Option.bind_some,
      ih hl hd']
    simp [Finset.insert_union, Finset.union_insert]

/-- Releasing distinct keys, all of them held. -/
theorem run_map_release {h : Finset κ} {l : List κ} (hl : l.Nodup) (hd : ∀ k ∈ l, k ∈ h) :
    run h (l.map .release) = some (h \ l.toFinset) := by
  induction l generalizing h with
  | nil => simp
  | cons k l ih =>
    obtain ⟨hk, hl⟩ := List.nodup_cons.mp hl
    have hd' : ∀ k' ∈ l, k' ∈ h.erase k := fun k' hk' =>
      Finset.mem_erase.mpr ⟨fun he => hk (he ▸ hk'), hd k' (List.mem_cons_of_mem _ hk')⟩
    rw [List.map_cons, run_cons, step_release_of_mem (hd k List.mem_cons_self), Option.bind_some,
      ih hl hd']
    congr 1
    ext x
    simp only [Finset.mem_sdiff, Finset.mem_erase, List.mem_toFinset, List.mem_cons]
    tauto

/-- Using held keys. -/
theorem run_map_use {h : Finset κ} {l : List κ} (hd : ∀ k ∈ l, k ∈ h) :
    run h (l.map .use) = some h := by
  induction l with
  | nil => rfl
  | cons k l ih =>
    rw [List.map_cons, run_cons, step_use_of_mem (hd k List.mem_cons_self), Option.bind_some]
    exact ih fun k' hk' => hd k' (List.mem_cons_of_mem _ hk')

/-- What has been acquired is released or still held, each as often. -/
theorem count_acquire_of_run {h h' : Finset κ} {ops : List (LedgerOp κ)} (k : κ)
    (hrun : run h ops = some h') :
    ops.count (.acquire k) + (if k ∈ h then 1 else 0) =
      ops.count (.release k) + (if k ∈ h' then 1 else 0) := by
  induction ops generalizing h with
  | nil =>
    obtain rfl := Option.some.inj hrun
    simp
  | cons op ops ih =>
    obtain ⟨h₁, hstep, hrest⟩ := Option.bind_eq_some_iff.mp hrun
    have hih := ih hrest
    cases op with
    | acquire k₀ =>
      rw [step, Option.ite_none_left_eq_some] at hstep
      obtain ⟨hk₀, hstep⟩ := hstep
      obtain rfl := Option.some.inj hstep
      by_cases hk : k₀ = k
      · subst hk
        rw [if_pos (Finset.mem_insert_self _ _)] at hih
        rw [if_neg hk₀, List.count_cons_self, List.count_cons_of_ne (by simp)]
        exact hih
      · simpa [List.count_cons, hk, Ne.symm hk] using hih
    | release k₀ =>
      rw [step, Option.ite_none_right_eq_some] at hstep
      obtain ⟨hk₀, hstep⟩ := hstep
      obtain rfl := Option.some.inj hstep
      by_cases hk : k₀ = k
      · subst hk
        rw [if_neg (Finset.notMem_erase _ _), Nat.add_zero] at hih
        rw [if_pos hk₀, List.count_cons_self, List.count_cons_of_ne (by simp), hih,
          Nat.add_right_comm]
      · simpa [List.count_cons, hk, Ne.symm hk] using hih
    | use k₀ =>
      rw [step, Option.ite_none_right_eq_some] at hstep
      obtain rfl := Option.some.inj hstep.2
      simpa [List.count_cons] using hih

/-- A key that is not held is not released or used before it is acquired. -/
theorem notMem_of_run {h h' : Finset κ} {ops : List (LedgerOp κ)} {k : κ} (hk : k ∉ h)
    (hacquire : .acquire k ∉ ops) (hrun : run h ops = some h') :
    .release k ∉ ops ∧ .use k ∉ ops := by
  induction ops generalizing h with
  | nil => simp
  | cons op ops ih =>
    obtain ⟨h₁, hstep, hrest⟩ := Option.bind_eq_some_iff.mp hrun
    obtain ⟨hne, hnew⟩ := not_or.mp (mt List.mem_cons.mpr hacquire)
    cases op with
    | acquire k₀ =>
      obtain rfl := Option.some.inj (Option.ite_none_left_eq_some.mp hstep).2
      have hk₁ : k ∉ insert k₀ h := by
        simp only [Finset.mem_insert, not_or]
        exact ⟨fun he => hne (by rw [he]), hk⟩
      simpa using ih hk₁ hnew hrest
    | release k₀ =>
      obtain ⟨hk₀, hstep⟩ := Option.ite_none_right_eq_some.mp hstep
      obtain rfl := Option.some.inj hstep
      have hne₀ : k ≠ k₀ := fun he => hk (he ▸ hk₀)
      simpa [hne₀] using ih (fun hmem => hk (Finset.mem_of_mem_erase hmem)) hnew hrest
    | use k₀ =>
      obtain ⟨hk₀, hstep⟩ := Option.ite_none_right_eq_some.mp hstep
      obtain rfl := Option.some.inj hstep
      have hne₀ : k ≠ k₀ := fun he => hk (he ▸ hk₀)
      simpa [hne₀] using ih hk hnew hrest

/-! ### Accepted traces, key by key -/

/-- A list of acquisitions (`true`) and releases (`false`) that strictly alternates, its first
element being `b`. -/
def Alternates : Bool → List Bool → Prop
  | _, [] => True
  | b, x :: xs => x = b ∧ Alternates (!b) xs

/-- The acquisitions (`true`) and releases (`false`) of one key, in order. -/
def opsOn (k : κ) : List (LedgerOp κ) → List Bool
  | [] => []
  | .acquire k' :: ops => if k' = k then true :: opsOn k ops else opsOn k ops
  | .release k' :: ops => if k' = k then false :: opsOn k ops else opsOn k ops
  | .use _ :: ops => opsOn k ops

/-- Whether `k` is held after a trace, by the last acquisition or release of `k` in it. -/
def heldAfter (held : Bool) (k : κ) : List (LedgerOp κ) → Bool
  | [] => held
  | .acquire k' :: ops => heldAfter (if k' = k then true else held) k ops
  | .release k' :: ops => heldAfter (if k' = k then false else held) k ops
  | .use _ :: ops => heldAfter held k ops

/-- Every use of a key in a trace comes while the key is held, the keys of `h` being held at
first. -/
def UsesHeld (h : Finset κ) (ops : List (LedgerOp κ)) : Prop :=
  ∀ pre k post, ops = pre ++ .use k :: post → heldAfter (decide (k ∈ h)) k pre = true

omit [DecidableEq κ] in
private theorem forall_split_cons {op : LedgerOp κ} {ops : List (LedgerOp κ)}
    {Q : List (LedgerOp κ) → κ → Prop} :
    (∀ pre k post, op :: ops = pre ++ .use k :: post → Q pre k) ↔
      (∀ k, op = .use k → Q [] k) ∧
        ∀ pre k post, ops = pre ++ .use k :: post → Q (op :: pre) k := by
  constructor
  · intro h
    refine ⟨fun k hk => h [] k ops (by rw [hk, List.nil_append]), fun pre k post hp => ?_⟩
    exact h (op :: pre) k post (by rw [hp, List.cons_append])
  · rintro ⟨hnil, hcons⟩ pre k post hp
    rcases List.cons_eq_append_iff.mp hp with ⟨rfl, hhead⟩ | ⟨pre', rfl, htail⟩
    · exact hnil k (List.cons.inj hhead).1.symm
    · exact hcons pre' k post htail

theorem usesHeld_acquire {h : Finset κ} {k₀ : κ} {ops : List (LedgerOp κ)} :
    UsesHeld h (.acquire k₀ :: ops) ↔ UsesHeld (insert k₀ h) ops := by
  simp only [UsesHeld, forall_split_cons, reduceCtorEq, false_implies, implies_true, true_and]
  refine forall₄_congr fun pre k post _ => ?_
  by_cases hk : k₀ = k
  · simp [heldAfter, hk]
  · simp [heldAfter, hk, Ne.symm hk]

theorem usesHeld_release {h : Finset κ} {k₀ : κ} {ops : List (LedgerOp κ)} :
    UsesHeld h (.release k₀ :: ops) ↔ UsesHeld (h.erase k₀) ops := by
  simp only [UsesHeld, forall_split_cons, reduceCtorEq, false_implies, implies_true, true_and]
  refine forall₄_congr fun pre k post _ => ?_
  by_cases hk : k₀ = k
  · simp [heldAfter, hk]
  · simp [heldAfter, hk, Ne.symm hk]

theorem usesHeld_use {h : Finset κ} {k₀ : κ} {ops : List (LedgerOp κ)} :
    UsesHeld h (.use k₀ :: ops) ↔ k₀ ∈ h ∧ UsesHeld h ops := by
  simp only [UsesHeld, forall_split_cons, LedgerOp.use.injEq, forall_eq', heldAfter,
    decide_eq_true_eq]

private theorem alternates_acquire {h : Finset κ} {k₀ : κ} (hk₀ : k₀ ∉ h) (k : κ)
    (ops : List (LedgerOp κ)) :
    Alternates (decide (k ∉ h)) (opsOn k (.acquire k₀ :: ops)) ↔
      Alternates (decide (k ∉ insert k₀ h)) (opsOn k ops) := by
  by_cases hk : k₀ = k
  · subst hk
    simp [opsOn, Alternates, hk₀]
  · simp [opsOn, hk, Ne.symm hk]

private theorem alternates_release {h : Finset κ} {k₀ : κ} (hk₀ : k₀ ∈ h) (k : κ)
    (ops : List (LedgerOp κ)) :
    Alternates (decide (k ∉ h)) (opsOn k (.release k₀ :: ops)) ↔
      Alternates (decide (k ∉ h.erase k₀)) (opsOn k ops) := by
  by_cases hk : k₀ = k
  · subst hk
    simp [opsOn, Alternates, hk₀]
  · simp [opsOn, hk, Ne.symm hk]

/-- **Accepted traces.** A trace is accepted exactly when the acquisitions and releases of every
key strictly alternate, a held key being released first and a key not held acquired first, and
every use of a key comes while the key is held. -/
theorem isSome_run_iff (h : Finset κ) (ops : List (LedgerOp κ)) :
    (run h ops).isSome ↔
      (∀ k, Alternates (decide (k ∉ h)) (opsOn k ops)) ∧ UsesHeld h ops := by
  induction ops generalizing h with
  | nil => simp [opsOn, Alternates, UsesHeld]
  | cons op ops ih =>
    rw [run_cons]
    cases op with
    | acquire k₀ =>
      by_cases hk : k₀ ∈ h
      · rw [step_acquire_of_mem hk]
        refine iff_of_false (by simp) fun ⟨halt, _⟩ => ?_
        simpa [opsOn, Alternates, hk] using halt k₀
      · rw [step_acquire_of_notMem hk, Option.bind_some, ih, usesHeld_acquire]
        simp only [alternates_acquire hk]
    | release k₀ =>
      by_cases hk : k₀ ∈ h
      · rw [step_release_of_mem hk, Option.bind_some, ih, usesHeld_release]
        simp only [alternates_release hk]
      · rw [step_release_of_notMem hk]
        refine iff_of_false (by simp) fun ⟨halt, _⟩ => ?_
        simpa [opsOn, Alternates, hk] using halt k₀
    | use k₀ =>
      by_cases hk : k₀ ∈ h
      · rw [step_use_of_mem hk, Option.bind_some, ih, usesHeld_use]
        simp only [opsOn, hk, true_and]
      · rw [step_use_of_notMem hk, usesHeld_use]
        simp [hk]

end Ledger

end SnowballLtp
