import SnowballLtp.Machine.Bytes
import SnowballLtp.Machine.CString

/-!
# Bounded output

`snprintf` stores as much of a text as fits a size, with a NUL behind it, and returns the length of
the whole text; with the size zero it stores nothing. A text that is stored at the end of a string
in memory continues the string.

## Main definitions

* `snprintf`.
* `Holds`: the string at the start of the memory.

## Main results

* `snprintf_append`: a text at the end of a string.
-/

namespace SnowballLtp

/-- `snprintf` of a text at a position of the memory: the memory and the value returned. -/
def snprintf (mem : List Char) (pos size : ℕ) (text : List Char) : Except Fault (List Char × ℕ) :=
  if size = 0 then .ok (mem, text.length)
  else
    let out := text.take (size - 1)
    if pos + out.length < mem.length then
      .ok (mem.take pos ++ (out ++ nul :: mem.drop (pos + out.length + 1)), text.length)
    else .error .outOfBounds

/-- The string at the start of the memory. -/
def Holds (mem s : List Char) : Prop := nul ∉ s ∧ ∃ rest, mem = s ++ nul :: rest

variable {mem s text : List Char} {size : ℕ}

theorem Holds.cstr_eq (h : Holds mem s) : cstr mem 0 = s := by
  obtain ⟨hnul, rest, rfl⟩ := h
  exact cstr_append [] hnul rest

theorem Holds.take_eq (h : Holds mem s) : mem.take s.length = s := by
  obtain ⟨-, rest, rfl⟩ := h
  exact List.take_left

variable (mem s size) in
/-- **A text at the end of a string** continues it, and leaves what stands behind the size. -/
theorem snprintf_append (hs : mem.take s.length = s) (hnul : nul ∉ s) (htext : nul ∉ text)
    (hsize : 0 < size) (hfit : s.length + size ≤ mem.length) :
    ∃ mem', snprintf mem s.length size text = .ok (mem', text.length) ∧
      Holds mem' (s ++ text.take (size - 1)) ∧ mem'.length = mem.length ∧
      ∀ n, s.length + size ≤ n → mem'.drop n = mem.drop n := by
  have hlen : (text.take (size - 1)).length ≤ size - 1 := List.length_take_le _ _
  have hlt : s.length + (text.take (size - 1)).length < mem.length := by omega
  refine ⟨_, by rw [snprintf, if_neg (Nat.ne_of_gt hsize)]; exact if_pos hlt, ⟨?_, ?_⟩, ?_, ?_⟩
  · rw [List.mem_append, not_or]
    exact ⟨hnul, fun h => htext (List.mem_of_mem_take h)⟩
  · rw [hs, ← List.append_assoc]
    exact ⟨_, rfl⟩
  · rw [hs]
    simp only [List.length_append, List.length_cons, List.length_drop]
    omega
  · intro n hn
    have hwritten : (s ++ (text.take (size - 1) ++ [nul])).length =
        s.length + (text.take (size - 1)).length + 1 := by
      simp only [List.length_append, List.length_singleton, Nat.add_assoc]
    rw [hs, List.append_cons, ← List.append_assoc, List.drop_append,
      List.drop_eq_nil_of_le (by omega), List.nil_append, List.drop_drop, hwritten]
    congr 1
    omega

end SnowballLtp
