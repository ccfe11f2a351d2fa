import Mathlib.Data.Int.Order.Basic
import Mathlib.Data.List.Basic
import Mathlib.Data.List.Induction

/-!
# Looking up a path

How a path string is looked up in a file system, one component after the other. Empty components
and `.` stay where they are and `..` goes up. A symbolic link is followed when another component
comes after it, be it an empty one, and only so many links are followed. What stands at the names
from the root down is a parameter.

## Main definitions

* `PathEntry`, `walk`.
* `Looks`: the lookups that succeed, by their steps.

## Main results

* `walk_eq_ok_iff`: the lookups that succeed.
* `walk_concat`: the lookup of one more name.
* `walk_append_nil_cons`: empty components.
* `Looks.mono`: where more names are there, a lookup that succeeds comes to the same.
-/

namespace SnowballLtp

/-- What stands at a path. -/
inductive PathEntry
  | other
  | link (target : List Char)
  | directory
  deriving DecidableEq, Repr

/-- The errors of a lookup. -/
def lookupEnoent : ℤ := 2
def lookupEnotdir : ℤ := 20
def lookupEloop : ℤ := 40

/-- The components of a path string. -/
def components (str : List Char) : List (List Char) := str.splitOn '/'

/-- Where the lookup of a string begins. -/
def startOf (str : List Char) (cwd : List String) : List String :=
  if str.head? = some '/' then [] else cwd

/-- A component that names an entry of a directory. -/
def IsComponent (c : List Char) : Prop := '/' ∉ c ∧ c ≠ [] ∧ c ≠ ['.'] ∧ c ≠ ['.', '.']

instance (c : List Char) : Decidable (IsComponent c) :=
  inferInstanceAs (Decidable (_ ∧ _ ∧ _ ∧ _))

variable (entry : List String → Option PathEntry)

/-- The lookup of some components from a directory on, where `follow` looks up what a link leads
to. -/
def walkFrom (follow : List (List Char) → List String → Except ℤ (List String)) :
    List (List Char) → List String → Except ℤ (List String)
  | [], p => .ok p
  | c :: cs, p =>
    if entry p = some .directory then
      if c = [] ∨ c = ['.'] then walkFrom follow cs p
      else if c = ['.', '.'] then walkFrom follow cs p.dropLast
      else
        match entry (p ++ [String.ofList c]) with
        | none => .error lookupEnoent
        | some (.link target) =>
          if cs = [] then .ok (p ++ [String.ofList c])
          else follow (components target ++ cs) (startOf target p)
        | some _ => walkFrom follow cs (p ++ [String.ofList c])
    else .error lookupEnotdir

/-- The lookup that follows so many links. -/
def walk : ℕ → List (List Char) → List String → Except ℤ (List String)
  | 0 => walkFrom entry fun _ _ => .error lookupEloop
  | links + 1 => walkFrom entry (walk links)

/-- A lookup that ends at `q`. -/
inductive Looks : ℕ → List (List Char) → List String → List String → Prop
  | done {links p} : Looks links [] p p
  | stay {links c cs p q} (hdir : entry p = some .directory) (hc : c = [] ∨ c = ['.'])
      (h : Looks links cs p q) : Looks links (c :: cs) p q
  | up {links cs p q} (hdir : entry p = some .directory) (h : Looks links cs p.dropLast q) :
      Looks links (['.', '.'] :: cs) p q
  | down {links c cs p q e} (hdir : entry p = some .directory)
      (hc : c ≠ [] ∧ c ≠ ['.'] ∧ c ≠ ['.', '.']) (he : entry (p ++ [String.ofList c]) = some e)
      (hlast : cs = [] ∨ ∀ target, e ≠ .link target)
      (h : Looks links cs (p ++ [String.ofList c]) q) : Looks links (c :: cs) p q
  | follow {links c cs p q target} (hdir : entry p = some .directory)
      (hc : c ≠ [] ∧ c ≠ ['.'] ∧ c ≠ ['.', '.'])
      (he : entry (p ++ [String.ofList c]) = some (.link target)) (hcs : cs ≠ [])
      (h : Looks links (components target ++ cs) (startOf target p) q) :
      Looks (links + 1) (c :: cs) p q

variable {entry} {follow : List (List Char) → List String → Except ℤ (List String)}
  {links : ℕ} {cs : List (List Char)} {p q : List String}

/-! ### One component -/

theorem components_ne_nil (str : List Char) : components str ≠ [] := List.splitOn_ne_nil _ _

/-- The components of a string with a slash and a name behind it. -/
theorem components_append_slash (str : List Char) {name : List Char} (h : '/' ∉ name) :
    components (str ++ '/' :: name) = components str ++ [name] := by
  rw [components, List.splitOn_append_cons_self, List.splitOn_eq_singleton h, components]

/-- The components of two strings with a slash between them. -/
theorem components_append (str str' : List Char) :
    components (str ++ '/' :: str') = components str ++ components str' :=
  List.splitOn_append_cons_self _ _

/-- The last slash of a string. -/
theorem exists_last_slash {str : List Char} (h : '/' ∈ str) :
    ∃ dir name, str = dir ++ '/' :: name ∧ '/' ∉ name := by
  induction str using List.reverseRecOn with
  | nil => cases h
  | append_singleton str c ih =>
    by_cases hc : c = '/'
    · exact ⟨str, [], by rw [hc], by simp⟩
    · have hmem : '/' ∈ str := (List.mem_append.mp h).resolve_right (by simpa using Ne.symm hc)
      obtain ⟨dir, name, rfl, hname⟩ := ih hmem
      exact ⟨dir, name ++ [c], by simp, by simp [hname, Ne.symm hc]⟩

/-- A string with a slash in it, by its components. -/
theorem exists_eq_append_slash {str name : List Char} {init : List (List Char)}
    (h : components str = init ++ [name]) (hslash : '/' ∈ str) :
    ∃ dir, str = dir ++ '/' :: name ∧ components dir = init ∧ '/' ∉ name := by
  obtain ⟨dir, last, rfl, hlast⟩ := exists_last_slash hslash
  rw [components_append_slash dir hlast] at h
  obtain ⟨hinit, hname⟩ := List.append_inj' h rfl
  obtain rfl := List.singleton_inj.mp hname
  exact ⟨dir, rfl, hinit, hlast⟩

/-- The last component of a string that ends in characters other than slashes. -/
theorem exists_components_append (str : List Char) {letters : List Char} (h : '/' ∉ letters) :
    ∃ init name, components (str ++ letters) = init ++ [name ++ letters] ∧ '/' ∉ name := by
  by_cases hslash : '/' ∈ str
  · obtain ⟨dir, name, rfl, hname⟩ := exists_last_slash hslash
    refine ⟨components dir, name, ?_, hname⟩
    rw [List.append_assoc, List.cons_append, components_append_slash dir (by simp [hname, h])]
  · refine ⟨[], str, ?_, hslash⟩
    rw [components, List.splitOn_eq_singleton (by simp [hslash, h])]
    rfl

/-! ### Lookups that succeed -/

theorem Looks.eq_of_nil (h : Looks entry links [] p q) : q = p := by
  cases h
  rfl

/-- One component of a lookup that succeeds. -/
theorem looks_of_walkFrom
    (hfollow : ∀ c cs p target, entry p = some .directory →
      c ≠ [] ∧ c ≠ ['.'] ∧ c ≠ ['.', '.'] → entry (p ++ [String.ofList c]) = some (.link target) →
      cs ≠ [] → follow (components target ++ cs) (startOf target p) = .ok q →
      Looks entry links (c :: cs) p q)
    (h : walkFrom entry follow cs p = .ok q) : Looks entry links cs p q := by
  induction cs generalizing p with
  | nil =>
    obtain rfl := Except.ok.inj h
    exact .done
  | cons c cs ih =>
    rw [walkFrom] at h
    split at h
    · next hdir =>
      split at h
      · next hc => exact .stay hdir hc (ih h)
      · next hc =>
        rw [not_or] at hc
        split at h
        · next hup =>
          subst hup
          exact .up hdir (ih h)
        · next hup =>
          split at h
          · cases h
          · next target hentry =>
            split at h
            · next hcs =>
              subst hcs
              exact .down hdir ⟨hc.1, hc.2, hup⟩ hentry (.inl rfl) (ih h)
            · next hcs => exact hfollow c cs p target hdir ⟨hc.1, hc.2, hup⟩ hentry hcs h
          · next e hlink hentry =>
            exact .down hdir ⟨hc.1, hc.2, hup⟩ hentry (.inr hlink) (ih h)
    · cases h

theorem looks_of_walk (h : walk entry links cs p = .ok q) : Looks entry links cs p q := by
  induction links generalizing cs p with
  | zero => exact looks_of_walkFrom (fun c cs p target _ _ _ _ hfollow => by cases hfollow) h
  | succ links ih =>
    exact looks_of_walkFrom
      (fun c cs p target hdir hc hentry hcs hfollow => .follow hdir hc hentry hcs (ih hfollow)) h

/-- The lookup goes on from where it has come to, with the links that are left. -/
theorem walk_append_of_looks (h : Looks entry links cs p q) {rest : List (List Char)}
    (hq : rest = [] ∨ entry q = some .directory) :
    ∃ left, walk entry links (cs ++ rest) p = walk entry left rest q := by
  -- one component is looked up in the same way however many links are left
  have hwalk (links : ℕ) : ∃ follow, walk entry links = walkFrom entry follow := by
    cases links <;> exact ⟨_, rfl⟩
  induction h with
  | @done links p => exact ⟨links, rfl⟩
  | @stay links c cs p q hdir hc h ih =>
    obtain ⟨left, hleft⟩ := ih hq
    obtain ⟨follow, hfollow⟩ := hwalk links
    refine ⟨left, ?_⟩
    rw [← hleft, hfollow, List.cons_append, walkFrom, if_pos hdir, if_pos hc]
  | @up links cs p q hdir h ih =>
    obtain ⟨left, hleft⟩ := ih hq
    obtain ⟨follow, hfollow⟩ := hwalk links
    refine ⟨left, ?_⟩
    rw [← hleft, hfollow, List.cons_append, walkFrom, if_pos hdir, if_neg (by decide),
      if_pos rfl]
  | @down links c cs p q e hdir hc he hlast h ih =>
    obtain ⟨left, hleft⟩ := ih hq
    obtain ⟨follow, hfollow⟩ := hwalk links
    refine ⟨left, ?_⟩
    rw [← hleft, hfollow, List.cons_append, walkFrom, if_pos hdir,
      if_neg (by simp [hc.1, hc.2.1]), if_neg hc.2.2, he]
    cases e with
    | other => rfl
    | directory => rfl
    | link target =>
      -- a link that is not followed is the last component, and nothing comes after it
      obtain rfl := hlast.resolve_right fun hnot => hnot target rfl
      obtain rfl := h.eq_of_nil
      obtain rfl := hq.resolve_right (by simp [he])
      rfl
  | @follow links c cs p q target hdir hc he hcs h ih =>
    obtain ⟨left, hleft⟩ := ih hq
    refine ⟨left, ?_⟩
    rw [← hleft, walk, List.cons_append, walkFrom, if_pos hdir,
      if_neg (by simp [hc.1, hc.2.1]), if_neg hc.2.2, he, List.append_assoc]
    exact if_neg (by simp [hcs])

/-- **Lookups that succeed.** -/
theorem walk_eq_ok_iff : walk entry links cs p = .ok q ↔ Looks entry links cs p q := by
  refine ⟨looks_of_walk, fun h => ?_⟩
  obtain ⟨left, hleft⟩ := walk_append_of_looks h (.inl rfl)
  rw [List.append_nil] at hleft
  rw [hleft]
  cases left <;> rfl

/-! ### What a lookup comes to -/

/-- The lookup of a name in a directory. -/
theorem walk_singleton (hp : entry p = some .directory) {name : String}
    (hname : IsComponent name.toList) :
    walk entry links [name.toList] p =
      if entry (p ++ [name]) = none then .error lookupEnoent else .ok (p ++ [name]) := by
  have hwalk : ∃ follow, walk entry links = walkFrom entry follow := by
    cases links <;> exact ⟨_, rfl⟩
  obtain ⟨follow, hfollow⟩ := hwalk
  rw [hfollow, walkFrom, if_pos hp, if_neg (by simp [hname.2.1, hname.2.2.1]),
    if_neg hname.2.2.2, String.ofList_toList]
  cases hentry : entry (p ++ [name]) with
  | none => rfl
  | some e => cases e <;> rfl

/-- **One more name.** The lookup of a name in a directory that has been looked up. -/
theorem walk_concat (h : walk entry links cs p = .ok q) (hq : entry q = some .directory)
    {name : String} (hname : IsComponent name.toList) :
    walk entry links (cs ++ [name.toList]) p =
      if entry (q ++ [name]) = none then .error lookupEnoent else .ok (q ++ [name]) := by
  obtain ⟨left, hleft⟩ := walk_append_of_looks (looks_of_walk h) (.inr hq)
  rw [hleft, walk_singleton hq hname]

/-- **More names.** A lookup that succeeds comes to the same place when more names are there. -/
theorem Looks.mono {entry' : List String → Option PathEntry}
    (hentry : ∀ p e, entry p = some e → entry' p = some e) (h : Looks entry links cs p q) :
    Looks entry' links cs p q := by
  induction h with
  | done => exact .done
  | stay hdir hc h ih => exact .stay (hentry _ _ hdir) hc ih
  | up hdir h ih => exact .up (hentry _ _ hdir) ih
  | down hdir hc he hlast h ih => exact .down (hentry _ _ hdir) hc (hentry _ _ he) hlast ih
  | follow hdir hc he hcs h ih => exact .follow (hentry _ _ hdir) hc (hentry _ _ he) hcs ih

/-! ### Empty components -/

theorem walkFrom_append_nil_cons {rest : List (List Char)} (hrest : rest ≠ [])
    (hfollow : ∀ cs p, follow (cs ++ [] :: rest) p = follow (cs ++ rest) p) :
    walkFrom entry follow (cs ++ [] :: rest) p = walkFrom entry follow (cs ++ rest) p := by
  induction cs generalizing p with
  | nil =>
    obtain ⟨c, rest, rfl⟩ := List.exists_cons_of_ne_nil hrest
    by_cases hdir : entry p = some .directory
    · rw [List.nil_append, walkFrom, if_pos hdir, if_pos (.inl rfl), List.nil_append]
    · rw [List.nil_append, walkFrom, if_neg hdir, List.nil_append, walkFrom, if_neg hdir]
  | cons c cs ih =>
    have hnil : cs ++ [] :: rest ≠ [] := by simp
    have hnil' : cs ++ rest ≠ [] := by simp [hrest]
    have hlink (target : List Char) : follow (components target ++ (cs ++ [] :: rest))
        (startOf target p) = follow (components target ++ (cs ++ rest)) (startOf target p) := by
      rw [← List.append_assoc, hfollow, List.append_assoc]
    simp only [List.cons_append, walkFrom, ih, if_neg hnil, if_neg hnil', hlink]

/-- An empty component changes nothing unless it is the last one. -/
theorem walk_append_nil_cons {rest : List (List Char)} (hrest : rest ≠ []) :
    walk entry links (cs ++ [] :: rest) p = walk entry links (cs ++ rest) p := by
  induction links generalizing cs p with
  | zero => exact walkFrom_append_nil_cons hrest fun _ _ => rfl
  | succ links ih => exact walkFrom_append_nil_cons hrest fun _ _ => ih

theorem walk_append_replicate (k : ℕ) {rest : List (List Char)} (hrest : rest ≠ []) :
    walk entry links (cs ++ (List.replicate k [] ++ rest)) p = walk entry links (cs ++ rest) p := by
  induction k with
  | zero => rfl
  | succ k ih =>
    rw [List.replicate_succ, List.cons_append, walk_append_nil_cons (by simp [hrest]), ih]

/-- A lookup with a slash behind it comes to a directory. -/
theorem Looks.directory_of_concat_nil (h : Looks entry links (cs ++ [[]]) p q) :
    entry q = some .directory := by
  generalize hcs : cs ++ [[]] = cs' at h
  induction h generalizing cs with
  | done => exact absurd hcs (by simp)
  | stay hdir hc h ih =>
    cases cs with
    | nil =>
      obtain ⟨-, rfl⟩ := List.cons.inj hcs
      rwa [h.eq_of_nil]
    | cons c' cs => exact ih (List.cons.inj hcs).2
  | up hdir h ih =>
    cases cs with
    | nil => cases (List.cons.inj hcs).1
    | cons c' cs => exact ih (List.cons.inj hcs).2
  | down hdir hc he hlast h ih =>
    cases cs with
    | nil =>
      obtain ⟨rfl, -⟩ := List.cons.inj hcs
      exact absurd rfl hc.1
    | cons c' cs => exact ih (List.cons.inj hcs).2
  | @follow links c cs' p q target hdir hc he hne h ih =>
    cases cs with
    | nil => exact absurd (List.cons.inj hcs).2.symm hne
    | cons c'' cs =>
      obtain ⟨-, rfl⟩ := List.cons.inj hcs
      exact ih (List.append_assoc _ _ _)

/-- The lookup of a name behind that of a directory. -/
theorem Looks.concat (h : Looks entry links (cs ++ [[]]) p q) {name : String}
    (hname : IsComponent name.toList) (hmem : entry (q ++ [name]) ≠ none) :
    Looks entry links (cs ++ [name.toList]) p (q ++ [name]) := by
  have hdir := h.directory_of_concat_nil
  rw [← walk_eq_ok_iff] at h ⊢
  rw [← walk_append_nil_cons (by simp), List.append_cons, walk_concat h hdir hname, if_neg hmem]

/-- A lookup of a directory goes on with a slash behind it. -/
theorem Looks.concat_nil (h : Looks entry links cs p q) (hdir : entry q = some .directory) :
    Looks entry links (cs ++ [[]]) p q := by
  rw [← walk_eq_ok_iff]
  obtain ⟨left, hleft⟩ := walk_append_of_looks h (.inr hdir)
  rw [hleft, walk_eq_ok_iff]
  exact .stay hdir (.inl rfl) .done

/-- A lookup with a slash behind it succeeds only where it does without. -/
theorem Looks.of_concat_nil (h : Looks entry links (cs ++ [[]]) p q) :
    ∃ obj, Looks entry links cs p obj := by
  generalize hcs : cs ++ [[]] = cs' at h
  induction h generalizing cs with
  | done => exact absurd hcs (by simp)
  | stay hdir hc h ih =>
    cases cs with
    | nil => exact ⟨_, .done⟩
    | cons c' cs =>
      obtain ⟨rfl, rfl⟩ := List.cons.inj hcs
      obtain ⟨obj, hobj⟩ := ih rfl
      exact ⟨obj, .stay hdir hc hobj⟩
  | up hdir h ih =>
    cases cs with
    | nil => exact ⟨_, .done⟩
    | cons c' cs =>
      obtain ⟨rfl, rfl⟩ := List.cons.inj hcs
      obtain ⟨obj, hobj⟩ := ih rfl
      exact ⟨obj, .up hdir hobj⟩
  | down hdir hc he hlast h ih =>
    cases cs with
    | nil => exact ⟨_, .done⟩
    | cons c' cs =>
      obtain ⟨rfl, rfl⟩ := List.cons.inj hcs
      obtain ⟨obj, hobj⟩ := ih rfl
      exact ⟨obj, .down hdir hc he (.inr (hlast.resolve_left (by simp))) hobj⟩
  | @follow links c cs' p q target hdir hc he hne h ih =>
    cases cs with
    | nil => exact ⟨_, .done⟩
    | cons c' cs =>
      obtain ⟨rfl, rfl⟩ := List.cons.inj hcs
      obtain ⟨obj, hobj⟩ := ih (List.append_assoc _ _ _)
      by_cases hnil : cs = []
      · -- the link is the last component, and is not followed
        subst hnil
        exact ⟨_, .down hdir hc he (.inl rfl) .done⟩
      · exact ⟨obj, .follow hdir hc he hnil hobj⟩

/-- A lookup whose last component is a name does not come to the root. -/
theorem Looks.ne_nil_of_concat {c : List Char} (hc : IsComponent c)
    (h : Looks entry links (cs ++ [c]) p q) : q ≠ [] := by
  generalize hcs : cs ++ [c] = cs' at h
  induction h generalizing cs with
  | done => exact absurd hcs (by simp)
  | stay hdir hstay h ih =>
    cases cs with
    | nil =>
      obtain ⟨rfl, -⟩ := List.cons.inj hcs
      exact absurd hstay (not_or.mpr ⟨hc.2.1, hc.2.2.1⟩)
    | cons c' cs => exact ih (List.cons.inj hcs).2
  | up hdir h ih =>
    cases cs with
    | nil =>
      obtain ⟨rfl, -⟩ := List.cons.inj hcs
      exact absurd rfl hc.2.2.2
    | cons c' cs => exact ih (List.cons.inj hcs).2
  | down hdir hname he hlast h ih =>
    cases cs with
    | nil =>
      obtain ⟨-, rfl⟩ := List.cons.inj hcs
      rw [h.eq_of_nil]
      simp
    | cons c' cs => exact ih (List.cons.inj hcs).2
  | @follow links c' cs' p q target hdir hname he hne h ih =>
    cases cs with
    | nil => exact absurd (List.cons.inj hcs).2.symm hne
    | cons c'' cs =>
      obtain ⟨-, rfl⟩ := List.cons.inj hcs
      exact ih (List.append_assoc _ _ _)

/-- **Downwards.** Without `..` and without links a lookup goes down. -/
theorem Looks.prefix_of_down {top : List String}
    (hlinks : ∀ r target, top <+: r → entry r ≠ some (.link target))
    (hup : ['.', '.'] ∉ cs) (hp : top <+: p) (h : Looks entry links cs p q) : p <+: q := by
  induction h with
  | done => exact List.prefix_refl _
  | stay hdir hc h ih => exact ih (fun hmem => hup (List.mem_cons_of_mem _ hmem)) hp
  | up hdir h ih => exact absurd List.mem_cons_self hup
  | @down links c cs p q e hdir hc he hlast h ih =>
    have hbelow : p <+: p ++ [String.ofList c] := List.prefix_append _ _
    exact hbelow.trans (ih (fun hmem => hup (List.mem_cons_of_mem _ hmem)) (hp.trans hbelow))
  | follow hdir hc he hcs h ih =>
    exact absurd he (hlinks _ _ (hp.trans (List.prefix_append _ _)))

/-- Where there is a name among the components, to another place. -/
theorem Looks.length_lt_of_down {top : List String}
    (hlinks : ∀ r target, top <+: r → entry r ≠ some (.link target))
    (hup : ['.', '.'] ∉ cs) (hp : top <+: p) (hname : ∃ c ∈ cs, IsComponent c)
    (h : Looks entry links cs p q) : p.length < q.length := by
  induction h with
  | done =>
    obtain ⟨c, hc, -⟩ := hname
    cases hc
  | stay hdir hc h ih =>
    obtain ⟨c', hmem, hc'⟩ := hname
    refine ih (fun hmem => hup (List.mem_cons_of_mem _ hmem)) hp ⟨c', ?_, hc'⟩
    refine (List.mem_cons.mp hmem).resolve_left ?_
    rintro rfl
    exact absurd hc (not_or.mpr ⟨hc'.2.1, hc'.2.2.1⟩)
  | up hdir h ih => exact absurd List.mem_cons_self hup
  | @down links c cs p q e hdir hc he hlast h ih =>
    have hbelow : p <+: p ++ [String.ofList c] := List.prefix_append _ _
    have hle := (h.prefix_of_down hlinks (fun hmem => hup (List.mem_cons_of_mem _ hmem))
      (hp.trans hbelow)).length_le
    rw [List.length_append, List.length_singleton] at hle
    omega
  | follow hdir hc he hcs h ih =>
    exact absurd he (hlinks _ _ (hp.trans (List.prefix_append _ _)))

/-- What a lookup comes to is there. -/
theorem Looks.entry_ne_none (h : Looks entry links cs p q) (hroot : entry [] ≠ none)
    (hup : ∀ p, entry p ≠ none → entry p.dropLast ≠ none) (hp : cs = [] → entry p ≠ none) :
    entry q ≠ none := by
  induction h with
  | done => exact hp rfl
  | stay hdir hc h ih => exact ih fun _ => by rw [hdir]; simp
  | up hdir h ih => exact ih fun _ => hup _ (by rw [hdir]; simp)
  | down hdir hc he hlast h ih => exact ih fun _ => by rw [he]; simp
  | follow hdir hc he hcs h ih =>
    refine ih fun _ => ?_
    rw [startOf]
    split
    · exact hroot
    · rw [hdir]
      simp

end SnowballLtp
