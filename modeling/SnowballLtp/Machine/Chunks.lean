import SnowballLtp.Machine.Bytes
import Mathlib.Data.List.Induction

/-!
# Data moved in chunks

A buffer that is moved by several requests. Each request is for the rest of the buffer and moves
some of it, from its start on. The requests are in order when each begins where the data before it
ends.

## Main definitions

* `Chunk`, `joined`.
* `InOrder`.

## Main results

* `InOrder.snoc`: one more request.
* `InOrder.joined_eq`: chunks taken from a buffer are the start of it.
* `length_joined_le`.
-/

namespace SnowballLtp

variable {α : Type*}

/-- A request for the `size` cells from `pos` on, and the data that it moved. -/
structure Chunk (α : Type*) where
  pos : ℕ
  size : ℤ
  data : List α
  deriving DecidableEq, Repr

/-- The data that was moved. -/
def joined (chunks : List (Chunk α)) : List α := chunks.flatMap Chunk.data

@[simp] theorem joined_nil : joined ([] : List (Chunk α)) = [] := rfl

@[simp] theorem joined_append (chunks more : List (Chunk α)) :
    joined (chunks ++ more) = joined chunks ++ joined more := List.flatMap_append

@[simp] theorem joined_singleton (c : Chunk α) : joined [c] = c.data := List.append_nil _

/-- Each request begins where the data before it ends, stays in the first `total` cells, and moves
no more than it is for. -/
def InOrder (total : ℤ) (chunks : List (Chunk α)) : Prop :=
  ∀ before c after, chunks = before ++ c :: after →
    c.pos = (joined before).length ∧ c.pos + c.size ≤ total ∧ (c.data.length : ℤ) ≤ c.size

namespace InOrder

variable {total : ℤ} {chunks : List (Chunk α)} {c : Chunk α} {buffer : List α}

theorem nil (total : ℤ) : InOrder total ([] : List (Chunk α)) := fun before c after h => by
  cases before with
  | nil => cases h
  | cons _ _ => cases h

/-- **One more request.** -/
theorem snoc (h : InOrder total chunks) (hpos : c.pos = (joined chunks).length)
    (hsize : c.pos + c.size ≤ total) (hdata : (c.data.length : ℤ) ≤ c.size) :
    InOrder total (chunks ++ [c]) := by
  intro before d after heq
  rcases List.eq_nil_or_concat after with rfl | ⟨after, e, rfl⟩
  · obtain ⟨rfl, hlast⟩ := List.append_inj' heq rfl
    obtain rfl : c = d := List.head_eq_of_cons_eq hlast
    exact ⟨hpos, hsize, hdata⟩
  · rw [List.concat_eq_append, ← List.cons_append, ← List.append_assoc] at heq
    exact h before d after (List.append_inj' heq rfl).1

theorem left {more : List (Chunk α)} (h : InOrder total (chunks ++ more)) :
    InOrder total chunks := fun before d after heq =>
  h before d (after ++ more) (by rw [heq, List.append_assoc, List.cons_append])

theorem last (h : InOrder total (chunks ++ [c])) :
    c.pos = (joined chunks).length ∧ c.pos + c.size ≤ total ∧ (c.data.length : ℤ) ≤ c.size :=
  h chunks c [] rfl

theorem length_joined_le (h : InOrder total chunks) (htotal : 0 ≤ total) :
    ((joined chunks).length : ℤ) ≤ total := by
  rcases List.eq_nil_or_concat chunks with rfl | ⟨before, c, rfl⟩
  · exact htotal
  · rw [List.concat_eq_append] at h ⊢
    obtain ⟨hpos, hsize, hdata⟩ := h.last
    rw [joined_append, joined_singleton, List.length_append]
    omega

/-- **Chunks taken from a buffer** where their requests begin are the start of the buffer. -/
theorem joined_eq (h : InOrder total chunks)
    (hdata : ∀ c ∈ chunks, c.data = slice buffer c.pos c.data.length) :
    joined chunks = slice buffer 0 (joined chunks).length := by
  induction chunks using List.reverseRecOn with
  | nil => rfl
  | append_singleton chunks c ih =>
    have hc := hdata c (List.mem_append_right _ (List.mem_singleton_self c))
    have hchunks := ih h.left fun d hd => hdata d (List.mem_append_left _ hd)
    rw [h.last.1] at hc
    rw [joined_append, joined_singleton, List.length_append, ← slice_append, Nat.zero_add, ← hc,
      ← hchunks]

end InOrder

end SnowballLtp
