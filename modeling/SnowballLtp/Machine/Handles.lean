import Mathlib.Algebra.Order.Group.Nat
import Mathlib.Data.List.Count
import Mathlib.Data.List.Nodup

/-!
# Handles that are acquired and released

A program acquires handles of several kinds and releases them again. A `Holding` records what has
been acquired and what has been released; a new handle is numbered with the length of the record,
so it differs from every handle before it. A program has its handles from acquisitions only, but
nothing keeps it from releasing one twice: what is released `n` times is in the record `n` times.

What a piece of a program does to the handles is stated relative to the holding in front of it:
`s.GrownBy own t` says that of the handles acquired between `s` and `t` exactly those in `own` are
still to be released, that every other one has been released once, and that the handles of `s`
have been left alone. The rules `GrownBy.acquire` and `GrownBy.release` follow the program, and
`GrownBy.settledSince_iff` reads off the result at its end.

A program is a computation in `StateT σ Option`; a successful run of a sequence of steps is taken
apart by `StateT.bind_inv`.

## Main definitions

* `Handle`, `Holding`, `Holding.acquire`, `Holding.release`.
* `Holding.SettledSince`: everything acquired since then has been released exactly once.
* `Holding.GrownBy`.

## Main results

* `Holding.GrownBy.acquire`, `Holding.GrownBy.release`.
* `Holding.GrownBy.settledSince_iff`.
* `StateT.bind_inv`.
-/

namespace SnowballLtp

variable {κ : Type*}

/-- A handle of some kind. -/
structure Handle (κ : Type*) where
  kind : κ
  num : ℕ
  deriving DecidableEq, Repr

variable [DecidableEq κ]

/-- What has been acquired and what has been released, the most recent first. -/
structure Holding (κ : Type*) [DecidableEq κ] where
  acquired : List (Handle κ)
  released : List (Handle κ)
  num_lt_length : ∀ h ∈ acquired, h.num < acquired.length
  mem_acquired : ∀ h ∈ released, h ∈ acquired

namespace Holding

/-- Nothing has been acquired. -/
def empty : Holding κ where
  acquired := []
  released := []
  num_lt_length _ h := absurd h List.not_mem_nil
  mem_acquired _ h := absurd h List.not_mem_nil

/-- A handle is held between its acquisition and its first release. -/
def Holds (s : Holding κ) (h : Handle κ) : Prop := h ∈ s.acquired ∧ h ∉ s.released

/-- The next new handle. -/
def fresh (s : Holding κ) (kind : κ) : Handle κ := ⟨kind, s.acquired.length⟩

/-- Acquire a new handle. -/
def acquire (s : Holding κ) (kind : κ) : Holding κ where
  acquired := s.fresh kind :: s.acquired
  released := s.released
  num_lt_length := by
    refine List.forall_mem_cons.mpr ⟨Nat.lt_succ_self _, fun h hh => ?_⟩
    exact (s.num_lt_length h hh).trans (Nat.lt_succ_self _)
  mem_acquired h hh := List.mem_cons_of_mem _ (s.mem_acquired h hh)

/-- Release a handle that has been acquired. -/
def release (s : Holding κ) (h : Handle κ) : Option (Holding κ) :=
  if hmem : h ∈ s.acquired then
    some { s with
      released := h :: s.released
      mem_acquired := List.forall_mem_cons.mpr ⟨hmem, s.mem_acquired⟩ }
  else none

theorem fresh_notMem (s : Holding κ) (kind : κ) : s.fresh kind ∉ s.acquired := fun hmem =>
  lt_irrefl _ (s.num_lt_length _ hmem)

/-- The same handles are held in `s` and in `t`, and what has been acquired in between has been
released exactly once. -/
structure SettledSince (s t : Holding κ) : Prop where
  holds_iff : ∀ h, t.Holds h ↔ s.Holds h
  released_once : ∀ h ∈ t.acquired, h ∉ s.acquired → t.released.count h = 1

/-- Of the handles acquired between `s` and `t` exactly those in `own` are still to be released,
and every other one has been released once. -/
structure GrownBy (s : Holding κ) (own : List (Handle κ)) (t : Holding κ) : Prop where
  subset : s.acquired ⊆ t.acquired
  nodup : own.Nodup
  own_new : ∀ h ∈ own, h ∈ t.acquired ∧ h ∉ s.acquired
  count_old : ∀ h ∈ s.acquired, t.released.count h = s.released.count h
  count_own : ∀ h ∈ own, t.released.count h = 0
  count_done : ∀ h ∈ t.acquired, h ∉ s.acquired → h ∉ own → t.released.count h = 1

namespace GrownBy

variable {s t u : Holding κ} {own own' : List (Handle κ)} {h : Handle κ} {kind : κ}

theorem refl (s : Holding κ) : s.GrownBy [] s where
  subset := List.Subset.refl _
  nodup := List.nodup_nil
  own_new _ hh := absurd hh List.not_mem_nil
  count_old _ _ := rfl
  count_own _ hh := absurd hh List.not_mem_nil
  count_done _ hh hs := absurd hh hs

/-- The order of the handles does not matter. -/
theorem perm (hst : s.GrownBy own t) (hp : own.Perm own') : s.GrownBy own' t where
  subset := hst.subset
  nodup := hp.nodup_iff.mp hst.nodup
  own_new h hh := hst.own_new h (hp.mem_iff.mpr hh)
  count_old := hst.count_old
  count_own h hh := hst.count_own h (hp.mem_iff.mpr hh)
  count_done h hh hs hown := hst.count_done h hh hs fun hmem => hown (hp.mem_iff.mp hmem)

/-- A new handle is one more to be released. -/
theorem acquire (hst : s.GrownBy own t) (kind : κ) :
    s.GrownBy (t.fresh kind :: own) (t.acquire kind) where
  subset := List.Subset.trans hst.subset (List.subset_cons_self _ _)
  nodup := List.nodup_cons.mpr
    ⟨fun hmem => t.fresh_notMem kind (hst.own_new _ hmem).1, hst.nodup⟩
  own_new := List.forall_mem_cons.mpr
    ⟨⟨List.mem_cons_self, fun hmem => t.fresh_notMem kind (hst.subset hmem)⟩,
      fun h hh => ⟨List.mem_cons_of_mem _ (hst.own_new h hh).1, (hst.own_new h hh).2⟩⟩
  count_old := hst.count_old
  count_own := List.forall_mem_cons.mpr
    ⟨List.count_eq_zero.mpr fun hmem => t.fresh_notMem kind (t.mem_acquired _ hmem),
      hst.count_own⟩
  count_done h hh hs hown := by
    obtain ⟨hne, hown⟩ := not_or.mp (mt List.mem_cons.mpr hown)
    exact hst.count_done h ((List.mem_cons.mp hh).resolve_left hne) hs hown

/-- One of the handles to be released is released. -/
theorem release (hst : s.GrownBy (h :: own) t) (hu : t.release h = some u) :
    s.GrownBy own u := by
  obtain ⟨hmem, hu⟩ := Option.dite_none_right_eq_some.mp hu
  obtain rfl := Option.some.inj hu
  obtain ⟨hnotMem, hnodup⟩ := List.nodup_cons.mp hst.nodup
  have hnew : h ∉ s.acquired := (hst.own_new h List.mem_cons_self).2
  refine ⟨hst.subset, hnodup, fun k hk => hst.own_new k (List.mem_cons_of_mem _ hk), ?_, ?_, ?_⟩
  · intro k hk
    rw [List.count_cons_of_ne fun he : h = k => hnew (he ▸ hk)]
    exact hst.count_old k hk
  · intro k hk
    rw [List.count_cons_of_ne fun he : h = k => hnotMem (he ▸ hk)]
    exact hst.count_own k (List.mem_cons_of_mem _ hk)
  · intro k hk hs hown
    by_cases he : h = k
    · subst he
      rw [List.count_cons_self, hst.count_own h List.mem_cons_self]
    · rw [List.count_cons_of_ne he]
      exact hst.count_done k hk hs fun hmem => hown (List.mem_of_ne_of_mem (Ne.symm he) hmem)

/-- **Settled accounts.** Everything is settled exactly when nothing is left to be released. -/
theorem settledSince_iff (hst : s.GrownBy own t) : s.SettledSince t ↔ own = [] := by
  constructor
  · intro hset
    refine List.eq_nil_iff_forall_not_mem.mpr fun h hh => ?_
    obtain ⟨hmem, hnew⟩ := hst.own_new h hh
    have honce := hset.released_once h hmem hnew
    rw [hst.count_own h hh] at honce
    exact absurd honce zero_ne_one
  · rintro rfl
    have hdone := fun h hh hs => hst.count_done h hh hs List.not_mem_nil
    refine ⟨fun h => ?_, hdone⟩
    by_cases hs : h ∈ s.acquired
    · have hcount : h ∈ t.released ↔ h ∈ s.released := by
        rw [← List.count_pos_iff, ← List.count_pos_iff, hst.count_old h hs]
      simp only [Holds, hcount, hs, hst.subset hs]
    · refine iff_of_false (fun ⟨ht, hrel⟩ => ?_) fun hold => hs hold.1
      have honce := hdone h ht hs
      rw [List.count_eq_zero.mpr hrel] at honce
      exact zero_ne_one honce

end GrownBy

end Holding

/-! ### Successful runs -/

section Inversion

variable {σ α β : Type}

/-- A successful run of two steps is a successful run of each. -/
theorem StateT.bind_inv {m : StateT σ Option α} {f : α → StateT σ Option β} {s u : σ} {b : β}
    (h : (m >>= f) s = some (b, u)) : ∃ a t, m s = some (a, t) ∧ f a t = some (b, u) := by
  obtain ⟨⟨a, t⟩, hm, hf⟩ := Option.bind_eq_some_iff.mp h
  exact ⟨a, t, hm, hf⟩

theorem StateT.pure_inv {a b : α} {s t : σ}
    (h : (pure a : StateT σ Option α) s = some (b, t)) : b = a ∧ t = s := by
  obtain ⟨rfl, rfl⟩ := Prod.mk.inj (Option.some.inj h)
  exact ⟨rfl, rfl⟩

theorem StateT.get_inv {r s t : σ} (h : (get : StateT σ Option σ) s = some (r, t)) :
    r = s ∧ t = s := by
  obtain ⟨rfl, rfl⟩ := Prod.mk.inj (Option.some.inj h)
  exact ⟨rfl, rfl⟩

theorem StateT.modify_inv {f : σ → σ} {s t : σ} {x : PUnit}
    (h : (modify f : StateT σ Option PUnit) s = some (x, t)) : t = f s :=
  (Prod.mk.inj (Option.some.inj h)).2.symm

end Inversion

end SnowballLtp
