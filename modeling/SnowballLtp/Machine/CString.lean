import Mathlib.Data.List.Basic

/-!
# Strings in memory

A string of a C program lies in a memory object and ends in front of the first NUL. `cstr` is the
string at a position; `scan` goes on from a position up to the first character that a loop stops
at. A memory object that is looked at is written as what stands before the string, the string, its
NUL and the rest.

## Main definitions

* `nul`, `cstr`, `scan`.

## Main results

* `cstr_append`, `scan_append`: the string, and the end of a scan.
* `getElem?_before`, `set_before`: the character behind the string.
-/

namespace SnowballLtp

/-- The character at the end of a string. -/
def nul : Char := Char.ofNat 0

/-- The string at a position. -/
def cstr (mem : List Char) (pos : ℕ) : List Char :=
  (mem.drop pos).takeWhile fun c => decide (c ≠ nul)

/-- The position of the first character from `pos` on that a loop stops at. -/
def scan (stop : Char → Bool) (mem : List Char) (pos : ℕ) : ℕ :=
  pos + ((mem.drop pos).takeWhile fun c => !stop c).length

variable {before s rest : List Char} {c : Char}

theorem cstr_append (before : List Char) (hs : nul ∉ s) (rest : List Char) :
    cstr (before ++ (s ++ nul :: rest)) before.length = s := by
  rw [cstr, List.drop_left, List.takeWhile_append_of_pos, List.takeWhile_cons_of_neg (by simp),
    List.append_nil]
  intro c hc
  exact decide_eq_true fun h => hs (h ▸ hc)

theorem scan_append {stop : Char → Bool} (before : List Char) (hs : ∀ c ∈ s, stop c = false)
    (hc : stop c = true) (rest : List Char) :
    scan stop (before ++ (s ++ c :: rest)) before.length = before.length + s.length := by
  rw [scan, List.drop_left, List.takeWhile_append_of_pos, List.takeWhile_cons_of_neg (by simp [hc]),
    List.append_nil]
  intro c hc
  simp [hs c hc]

theorem getElem?_before (before s : List Char) (c : Char) (rest : List Char) :
    (before ++ (s ++ c :: rest))[before.length + s.length]? = some c := by
  rw [← List.append_assoc, ← List.length_append, List.getElem?_append_right (Nat.le_refl _),
    Nat.sub_self, List.getElem?_cons_zero]

theorem set_before (before s : List Char) (c d : Char) (rest : List Char) :
    (before ++ (s ++ c :: rest)).set (before.length + s.length) d = before ++ (s ++ d :: rest) := by
  rw [← List.append_assoc, ← List.length_append, List.set_append_right _ _ (Nat.le_refl _),
    Nat.sub_self, List.set_cons_zero, List.append_assoc]

end SnowballLtp
