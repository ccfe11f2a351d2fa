import Mathlib.Data.List.DropRight
import SnowballLtp.Machine.PathWalk

/-!
# The directory of a path

`dirname` cuts the last component off a path string, with the slashes on both sides of it. It works
on the string alone, so that what it makes of a path is the directory above only when the last
component is a name.

## Main definitions

* `dirname`.

## Main results

* `walk_dirname`: the lookup of what `dirname` makes of a path that ends in a name.
-/

namespace SnowballLtp

/-- `dirname`. A string of slashes alone is the root, which two slashes stand for as well as
one. -/
def dirname (path : List Char) : List Char :=
  let trimmed := path.rdropWhile (· = '/')
  let head := if trimmed = [] then path else trimmed.rdropWhile (· ≠ '/')
  let dir := head.rdropWhile (· = '/')
  if head = [] then ['.']
  else if dir ≠ [] then dir
  else if head = ['/', '/'] then head
  else ['/']

variable {dir name : List Char} {cwd : List String}

/-- What stands in front of a name, with its slash. -/
theorem rdropWhile_ne_slash (dir : List Char) {name : List Char} (h : '/' ∉ name) :
    (dir ++ '/' :: name).rdropWhile (· ≠ '/') = dir ++ ['/'] := by
  induction name using List.reverseRecOn with
  | nil => exact List.rdropWhile_concat_neg _ _ _ (by simp)
  | append_singleton name c ih =>
    rw [List.mem_append, not_or, List.mem_singleton] at h
    rw [← List.cons_append, ← List.append_assoc,
      List.rdropWhile_concat_pos _ _ _ (by simp [Ne.symm h.2]), ih h.1]

theorem rdropWhile_slash_of_name (dir : List Char) {name : List Char} (h : '/' ∉ name)
    (hne : name ≠ []) : (dir ++ '/' :: name).rdropWhile (· = '/') = dir ++ '/' :: name := by
  obtain ⟨name, c, rfl⟩ := (name.eq_nil_or_concat).resolve_left hne
  rw [List.concat_eq_append] at h ⊢
  rw [List.mem_append, not_or, List.mem_singleton] at h
  rw [← List.cons_append, ← List.append_assoc,
    List.rdropWhile_concat_neg _ _ _ (by simp [Ne.symm h.2])]

/-- The slashes at the end of a string, and what is in front of them. -/
theorem exists_replicate_slash (str : List Char) :
    ∃ k, str = str.rdropWhile (· = '/') ++ List.replicate k '/' := by
  induction str using List.reverseRecOn with
  | nil => exact ⟨0, rfl⟩
  | append_singleton str c ih =>
    by_cases hc : c = '/'
    · obtain ⟨k, hk⟩ := ih
      subst hc
      refine ⟨k + 1, ?_⟩
      rw [List.rdropWhile_concat_pos _ _ _ (by simp), List.replicate_succ', ← List.append_assoc,
        ← hk]
    · exact ⟨0, by rw [List.rdropWhile_concat_neg _ _ _ (by simpa using hc)]; simp⟩

theorem components_append_replicate (str : List Char) (k : ℕ) :
    components (str ++ List.replicate k '/') = components str ++ List.replicate k [] := by
  induction k with
  | zero => simp
  | succ k ih =>
    rw [List.replicate_succ', ← List.append_assoc, components_append_slash _ (by simp), ih,
      List.replicate_succ', List.append_assoc]

/-- The string that `dirname` makes of one that ends in a name. -/
theorem dirname_append_slash (dir : List Char) {name : List Char} (h : '/' ∉ name)
    (hne : name ≠ []) :
    dirname (dir ++ '/' :: name) =
      if dir.rdropWhile (· = '/') ≠ [] then dir.rdropWhile (· = '/')
      else if dir = ['/'] then ['/', '/'] else ['/'] := by
  have hdir : (dir ++ ['/']).rdropWhile (· = '/') = dir.rdropWhile (· = '/') :=
    List.rdropWhile_concat_pos _ _ _ (by simp)
  have hslashes : dir ++ ['/'] = ['/', '/'] ↔ dir = ['/'] := by
    constructor
    · intro heq
      exact List.append_cancel_right (heq : dir ++ ['/'] = ['/'] ++ ['/'])
    · rintro rfl
      rfl
  dsimp only [dirname]
  rw [rdropWhile_slash_of_name dir h hne, if_neg (by simp : dir ++ '/' :: name ≠ []),
    rdropWhile_ne_slash dir h, hdir, if_neg (by simp : dir ++ ['/'] ≠ [])]
  simp only [hslashes]
  split_ifs with hnil hslash
  · rfl
  · rw [hslash]
    rfl
  · rfl

/-- A string without slashes. -/
theorem dirname_of_not_mem (h : '/' ∉ name) : dirname name = ['.'] := by
  have hslash : name.rdropWhile (· = '/') = name := by
    refine List.rdropWhile_eq_self_iff.mpr fun hne heq => h ?_
    rw [decide_eq_true_iff] at heq
    exact heq ▸ List.getLast_mem hne
  have hall : name.rdropWhile (· ≠ '/') = [] := by
    refine List.rdropWhile_eq_nil_iff.mpr fun c hc => decide_eq_true ?_
    rintro rfl
    exact h hc
  have hhead : (if name = [] then name else []) = [] := by
    split_ifs with hnil
    · exact hnil
    · rfl
  dsimp only [dirname]
  rw [hslash, hall, hhead, if_pos rfl]

theorem dirname_ne_nil (dir : List Char) (h : '/' ∉ name) (hne : name ≠ []) :
    dirname (dir ++ '/' :: name) ≠ [] := by
  rw [dirname_append_slash dir h hne]
  split_ifs with hnil
  · exact hnil
  · simp
  · simp

theorem length_dirname_lt (dir : List Char) (h : '/' ∉ name) (hne : name ≠ []) :
    (dirname (dir ++ '/' :: name)).length < (dir ++ '/' :: name).length := by
  have hlen := (List.rdropWhile_prefix (· = '/') dir).length_le
  have hpos := List.length_pos_iff.mpr hne
  rw [dirname_append_slash dir h hne, List.length_append, List.length_cons]
  split_ifs with hnil hslash
  · omega
  · rw [hslash, List.length_singleton, List.length_cons, List.length_singleton]
    omega
  · rw [List.length_singleton]
    omega

/-- **The lookup of the directory.** What `dirname` makes of a path that ends in a name is looked up
like what stands in front of the name. -/
theorem walk_dirname (entry : List String → Option PathEntry) (links : ℕ) (cwd : List String)
    (h : '/' ∉ name) (hne : name ≠ []) :
    walk entry links (components (dirname (dir ++ '/' :: name)) ++ [[]])
        (startOf (dirname (dir ++ '/' :: name)) cwd) =
      walk entry links (components dir ++ [[]]) (startOf (dir ++ '/' :: name) cwd) := by
  obtain ⟨k, hk⟩ := exists_replicate_slash dir
  rw [dirname_append_slash dir h hne]
  generalize dir.rdropWhile (· = '/') = trimmed at hk ⊢
  have hcomponents : components dir = components trimmed ++ List.replicate k [] := by
    rw [hk, components_append_replicate]
  rw [hcomponents, List.append_assoc, walk_append_replicate k (by simp)]
  by_cases hnil : trimmed = []
  · -- the name stands in the root
    have hroot : startOf (dir ++ '/' :: name) cwd = [] := by
      rw [hk, hnil]
      cases k <;> rfl
    have hslash : components ['/'] = components [] ++ List.replicate 1 [] := rfl
    have hslashes : components ['/', '/'] = components [] ++ List.replicate 2 [] := rfl
    rw [if_neg (not_not.mpr hnil), hroot, hnil]
    split_ifs
    · rw [hslashes, List.append_assoc, walk_append_replicate 2 (by simp)]
      rfl
    · rw [hslash, List.append_assoc, walk_append_replicate 1 (by simp)]
      rfl
  · obtain ⟨c, cs, rfl⟩ := List.exists_cons_of_ne_nil hnil
    rw [if_pos hnil, hk]
    rfl

end SnowballLtp
