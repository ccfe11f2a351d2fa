import SnowballLtp.Ltp.RmObj
import SnowballLtp.Machine.PathWalk

/-!
# Removing an object by its path

`rmobj` knows the object that it removes by a string only. Every call looks the string up again, in
the file system as it is then, which the recursion changes, and the strings for the entries of a
directory are made from the string for the directory. As long as the string names the object
wherever that is still there, this is the function of `SnowballLtp.Ltp.RmObj`, which is given the
object itself.

## Main definitions

* `lstat`: what a string names.
* `rmobj`: the function, by the string.
* `NamesFromAbove`, `Names`: strings that go on naming an object.

## Main results

* `lstat_dirobj`: what the string for an entry of a directory names.
* `rmobj_prunes`: what a call leaves.
* `rmobj_eq_of_namesFromAbove`, `rmobj_eq`: the function by the string and the function by the
  object.
-/

namespace SnowballLtp

namespace RmObjPath

open RmObj

variable (sys : System) (cwd : Path) (errmsg : Bool)

/-! ### Strings that name objects -/

def enametoolong : ℤ := 36

/-- The number of symbolic links that one lookup follows. -/
def maxSymlinks : ℕ := 40

/-- What a lookup finds at a path. -/
def entryAt (fs : List Path) (p : Path) : Option PathEntry :=
  if fs.contains p then
    match sys.kind p with
    | .file => some .other
    | .symlink target => some (.link target)
    | .directory => some .directory
  else none

/-- The lookup of a string, with `last` behind its components. It fails from a working directory
that has been removed, also for `.` and `..`. -/
def lookup (last : List (List Char)) (fs : List Path) (str : List Char) : Except ℤ Path :=
  if str = [] then .error enoent
  else if str.length < pathMax then
    walk (entryAt sys fs) maxSymlinks (components str ++ last) (startOf str cwd)
  else .error enametoolong

/-- `lstat`, which does not follow a symbolic link at the end. -/
def lstat : List Path → List Char → Except ℤ Path := lookup sys cwd []

/-- `stat`, for a directory, which is looked up as if a slash followed. -/
def stat : List Path → List Char → Except ℤ Path := lookup sys cwd [[]]

/-- A call that removes the object that a string names. -/
def onPath (op : List Path → Path → Except ℤ (List Path)) (fs : List Path) (str : List Char) :
    Except ℤ (List Path) :=
  match lstat sys cwd fs str with
  | .ok obj => op fs obj
  | .error errno => .error errno

/-! ### The function -/

/-- What follows the loop over the entries of a directory. -/
def afterEntries (str : List Char) (retVal : ℤ) (st : RmState) : Except Halt (ℤ × RmState) :=
  if retVal = -1 then .ok (-1, st)
  else
    match lstat sys cwd st.fs str with
    | .error errno => report errmsg (failed sys lstatName str errno) st
    | .ok obj =>
      if 3 ≤ nlink sys st.fs obj then
        finish sys errmsg unlinkName str st (onPath sys cwd (unlink sys) st.fs str)
      else finish sys errmsg removeName str st (onPath sys cwd (remove sys) st.fs str)

/-- `rmobj`, for a string. The loop over the entries calls it with their strings alone. -/
def rmobj : ℕ → List Char → RmState → Except Halt (ℤ × RmState)
  | 0, _, _ => .error .stack
  | depth + 1, str, st =>
    match lstat sys cwd st.fs str with
    | .error errno => report errmsg (failed sys lstatName str errno) st
    | .ok obj =>
      match sys.kind obj with
      | .directory =>
        if str = ['/'] then report errmsg cannotRemove st
        else if sys.opens obj then
          match removeEntries (fun _ => rmobj depth) obj str (readdir st.fs obj) 0 st with
          | .ok (retVal, st) => afterEntries sys cwd errmsg str retVal st
          | .error halt => .error halt
        else finish sys errmsg rmdirName str st (onPath sys cwd (rmdir sys) st.fs str)
      | _ => finish sys errmsg unlinkName str st (onPath sys cwd (unlink sys) st.fs str)

/-! ### File systems -/

/-- A file system: a tree from the root, which is a directory, with names on it. -/
structure IsFileSystem (fs : List Path) : Prop where
  root : [] ∈ fs
  root_kind : sys.kind [] = .directory
  parent : ∀ p name, p ++ [name] ∈ fs →
    p ∈ fs ∧ sys.kind p = .directory ∧ IsComponent name.toList

variable {sys cwd errmsg} {fs fs' : List Path} {obj : Path} {str : List Char} {depth : ℕ}

/-- A file system, by its paths one after the other. -/
theorem isFileSystem_of_forall (hroot : [] ∈ fs) (hkind : sys.kind [] = .directory)
    (h : ∀ q ∈ fs, q = [] ∨ q.dropLast ∈ fs ∧ sys.kind q.dropLast = .directory ∧
      IsComponent (q.getLast?.getD "").toList) : IsFileSystem sys fs := by
  refine ⟨hroot, hkind, fun p name hmem => ?_⟩
  have hpath := (h _ hmem).resolve_left (by simp)
  rw [List.dropLast_concat, List.getLast?_concat] at hpath
  exact hpath

theorem IsFileSystem.mem_of_append (h : IsFileSystem sys fs) {names : List String}
    (hmem : obj ++ names ∈ fs) : obj ∈ fs := by
  induction names using List.reverseRecOn with
  | nil => simpa using hmem
  | append_singleton names name ih =>
    rw [← List.append_assoc] at hmem
    exact ih (h.parent _ _ hmem).1

theorem IsFileSystem.dropLast (h : IsFileSystem sys fs) {p : Path} (hp : p ∈ fs) :
    p.dropLast ∈ fs := by
  rcases p.eq_nil_or_concat with rfl | ⟨p, name, rfl⟩
  · exact hp
  · rw [List.concat_eq_append, List.dropLast_concat]
    rw [List.concat_eq_append] at hp
    exact (h.parent p name hp).1

theorem IsFileSystem.child (h : IsFileSystem sys fs) {name : String}
    (hname : name ∈ children fs obj) :
    sys.kind obj = .directory ∧ IsComponent name.toList :=
  (h.parent obj name (mem_children.mp hname)).2

theorem IsFileSystem.ne_dots (h : IsFileSystem sys fs) {name : String}
    (hname : name ∈ children fs obj) : name ≠ "." ∧ name ≠ ".." := by
  obtain ⟨-, -, -, hdot, hdots⟩ := h.child hname
  constructor
  · rintro rfl
    exact hdot rfl
  · rintro rfl
    exact hdots rfl

/-! ### Lookups -/

theorem entryAt_ne_none_iff : entryAt sys fs obj ≠ none ↔ obj ∈ fs := by
  rw [entryAt]
  split
  · next hmem => cases sys.kind obj <;> simpa using hmem
  · next hmem => simpa using hmem

theorem entryAt_of_directory (hmem : obj ∈ fs) (hkind : sys.kind obj = .directory) :
    entryAt sys fs obj = some .directory := by
  rw [entryAt, if_pos (List.contains_iff_mem.mpr hmem), hkind]

theorem entryAt_eq_link_iff {target : List Char} :
    entryAt sys fs obj = some (.link target) ↔ obj ∈ fs ∧ sys.kind obj = .symlink target := by
  rw [entryAt]
  by_cases hmem : obj ∈ fs
  · rw [if_pos (List.contains_iff_mem.mpr hmem), and_iff_right hmem]
    cases hkind : sys.kind obj <;> simp
  · simp [hmem]

theorem lookup_eq_ok_iff {last : List (List Char)} :
    lookup sys cwd last fs str = .ok obj ↔ str ≠ [] ∧ str.length < pathMax ∧
      Looks (entryAt sys fs) maxSymlinks (components str ++ last) (startOf str cwd) obj := by
  rw [lookup]
  split
  · next hnil => simp [hnil]
  · next hne =>
    split
    · next hlen => rw [walk_eq_ok_iff, and_iff_right hne, and_iff_right hlen]
    · next hlen => simp [hlen]

theorem lstat_eq_ok_iff : lstat sys cwd fs str = .ok obj ↔ str ≠ [] ∧ str.length < pathMax ∧
    Looks (entryAt sys fs) maxSymlinks (components str) (startOf str cwd) obj := by
  rw [lstat, lookup_eq_ok_iff, List.append_nil]

theorem stat_eq_ok_iff : stat sys cwd fs str = .ok obj ↔ str ≠ [] ∧ str.length < pathMax ∧
    Looks (entryAt sys fs) maxSymlinks (components str ++ [[]]) (startOf str cwd) obj := by
  rw [stat, lookup_eq_ok_iff]

/-- What `lstat` finds is there. -/
theorem mem_of_lstat (h : IsFileSystem sys fs) (hobj : lstat sys cwd fs str = .ok obj) :
    obj ∈ fs := by
  obtain ⟨-, -, hlooks⟩ := lstat_eq_ok_iff.mp hobj
  refine entryAt_ne_none_iff.mp (hlooks.entry_ne_none (entryAt_ne_none_iff.mpr h.root) ?_ ?_)
  · intro p hp
    rw [entryAt_ne_none_iff] at hp ⊢
    exact h.dropLast hp
  · exact fun hnil => absurd hnil (components_ne_nil str)

/-- **Entries.** What the string that `rmobj` makes for an entry of a directory names. -/
theorem lstat_dirobj (h : IsFileSystem sys fs) (hobj : lstat sys cwd fs str = .ok obj)
    (hkind : sys.kind obj = .directory) {name : String} (hname : IsComponent name.toList)
    (hlen : (dirobj str name).length < pathMax) :
    lstat sys cwd fs (dirobj str name) =
      if obj ++ [name] ∈ fs then .ok (obj ++ [name]) else .error enoent := by
  obtain ⟨hne, -, hlooks⟩ := lstat_eq_ok_iff.mp hobj
  have hstart : startOf (dirobj str name) cwd = startOf str cwd := by
    obtain ⟨c, s, rfl⟩ := List.exists_cons_of_ne_nil hne
    rfl
  have hdir := entryAt_of_directory (mem_of_lstat h hobj) hkind
  rw [lstat, lookup, if_neg (dirobj_ne hne name).1, if_pos hlen, List.append_nil, hstart,
    dirobj, components_append_slash str hname.1, walk_concat (walk_eq_ok_iff.mpr hlooks) hdir hname]
  by_cases hmem : obj ++ [name] ∈ fs
  · rw [if_pos hmem, if_neg (entryAt_ne_none_iff.mpr hmem)]
  · rw [if_neg hmem, if_pos (not_not.mp (mt entryAt_ne_none_iff.mp hmem))]
    rfl

/-! ### What a call leaves -/

/-- `fs'` is a file system that lacks only entries of `fs` for which `P` holds. -/
structure Prunes (sys : System) (P : Path → Prop) (fs fs' : List Path) : Prop where
  isFileSystem : IsFileSystem sys fs'
  subset : fs' ⊆ fs
  keeps : ∀ q ∈ fs, ¬P q → q ∈ fs'

theorem Prunes.refl {P : Path → Prop} (h : IsFileSystem sys fs) : Prunes sys P fs fs :=
  ⟨h, List.Subset.refl fs, fun _ hq _ => hq⟩

theorem Prunes.trans {P : Path → Prop} {fs₁ fs₂ fs₃ : List Path} (h : Prunes sys P fs₁ fs₂)
    (h' : Prunes sys P fs₂ fs₃) : Prunes sys P fs₁ fs₃ :=
  ⟨h'.isFileSystem, List.Subset.trans h'.subset h.subset,
    fun q hq hP => h'.keeps q (h.keeps q hq hP) hP⟩

theorem Prunes.mono {P Q : Path → Prop} (h : Prunes sys P fs fs') (hPQ : ∀ q, P q → Q q) :
    Prunes sys Q fs fs' :=
  ⟨h.isFileSystem, h.subset, fun q hq hQ => h.keeps q hq fun hP => hQ (hPQ q hP)⟩

/-- A removal takes the object out of the file system, and nothing else. -/
def Removal (sys : System) (op : List Path → Path → Except ℤ (List Path)) : Prop :=
  ∀ fs obj fs', op fs obj = .ok fs' → obj ∈ fs ∧
    (sys.kind obj = .directory → children fs obj = []) ∧ fs' = fs.filter fun q => decide (q ≠ obj)

theorem erase_eq (h : erase sys fs obj = .ok fs') :
    fs' = fs.filter fun q => decide (q ≠ obj) := by
  rw [erase] at h
  split at h
  · cases h
  · exact (Except.ok.inj h).symm

theorem unlink_removal : Removal sys (unlink sys) := by
  intro fs obj fs' h
  rw [unlink] at h
  split at h
  · next hmem =>
    split at h
    · cases h
    · next hkind => exact ⟨hmem, fun hdir => absurd hdir hkind, erase_eq h⟩
  · cases h

theorem rmdir_removal : Removal sys (rmdir sys) := by
  intro fs obj fs' h
  rw [rmdir] at h
  split at h
  · next hmem =>
    split at h
    · split at h
      · next hnil => exact ⟨hmem, fun _ => hnil, erase_eq h⟩
      · cases h
    · cases h
  · cases h

theorem remove_removal : Removal sys (remove sys) := by
  intro fs obj fs' h
  rw [remove] at h
  split at h
  · exact rmdir_removal fs obj fs' h
  · exact unlink_removal fs obj fs' h

/-- A removal leaves a file system. -/
theorem Removal.prunes {op : List Path → Path → Except ℤ (List Path)} (hop : Removal sys op)
    (hfs : IsFileSystem sys fs) (hne : obj ≠ []) (h : op fs obj = .ok fs') :
    Prunes sys (obj <+: ·) fs fs' := by
  obtain ⟨-, hnil, rfl⟩ := hop fs obj fs' h
  have hmem {q : Path} : (q ∈ fs.filter fun q => decide (q ≠ obj)) ↔ q ∈ fs ∧ q ≠ obj := by
    simp
  refine ⟨⟨hmem.mpr ⟨hfs.root, hne.symm⟩, hfs.root_kind, fun p name hleft => ?_⟩, fun q hq => ?_,
    fun q hq hnot => ?_⟩
  · have hp := (hmem.mp hleft).1
    obtain ⟨hparent, hkind, hname⟩ := hfs.parent p name hp
    refine ⟨hmem.mpr ⟨hparent, ?_⟩, hkind, hname⟩
    -- a directory that is removed has no entries
    rintro rfl
    have hchild : name ∈ children fs p := mem_children.mpr hp
    rw [hnil hkind] at hchild
    cases hchild
  · exact (hmem.mp hq).1
  · refine hmem.mpr ⟨hq, ?_⟩
    rintro rfl
    exact hnot (List.prefix_refl _)

theorem report_fs {text : List Char} {st st' : RmState} {ret : ℤ}
    (h : report errmsg text st = .ok (ret, st')) : ret = -1 ∧ st'.fs = st.fs := by
  rw [report] at h
  split at h
  · split at h
    · obtain ⟨rfl, rfl⟩ := Prod.mk.inj (Except.ok.inj h)
      exact ⟨rfl, rfl⟩
    · cases h
  · obtain ⟨rfl, rfl⟩ := Prod.mk.inj (Except.ok.inj h)
    exact ⟨rfl, rfl⟩

theorem report_prunes {P : Path → Prop} {text : List Char} {st st' : RmState} {ret : ℤ}
    (hfs : IsFileSystem sys st.fs) (h : report errmsg text st = .ok (ret, st')) :
    Prunes sys P st.fs st'.fs := by
  rw [(report_fs h).2]
  exact .refl hfs

theorem Removal.finish_prunes {op : List Path → Path → Except ℤ (List Path)}
    (hop : Removal sys op) {call : List Char} {st st' : RmState} {ret : ℤ}
    (hfs : IsFileSystem sys st.fs) (hne : obj ≠ [])
    (h : finish sys errmsg call str st (op st.fs obj) = .ok (ret, st')) :
    Prunes sys (obj <+: ·) st.fs st'.fs := by
  cases hresult : op st.fs obj with
  | ok fs' =>
    rw [hresult] at h
    obtain ⟨rfl, rfl⟩ := Prod.mk.inj (Except.ok.inj h)
    exact hop.prunes hfs hne hresult
  | error errno =>
    rw [hresult] at h
    exact report_prunes hfs h

/-- Below an object. -/
def Below (obj q : Path) : Prop := obj <+: q ∧ q ≠ obj

theorem below_of_child {name : String} {q : Path} (h : obj ++ [name] <+: q) : Below obj q := by
  refine ⟨(List.prefix_append _ _).trans h, ?_⟩
  rintro rfl
  have hle := h.length_le
  rw [List.length_append, List.length_singleton] at hle
  omega

theorem removeEntries_prunes {rm : Path → List Char → RmState → Except Halt (ℤ × RmState)}
    (hrm : ∀ name str st ret st', IsFileSystem sys st.fs →
      rm (obj ++ [name]) str st = .ok (ret, st') →
      Prunes sys (obj ++ [name] <+: ·) st.fs st'.fs)
    {names : List String} {retVal ret : ℤ} {st st' : RmState} (hfs : IsFileSystem sys st.fs)
    (h : removeEntries rm obj str names retVal st = .ok (ret, st')) :
    Prunes sys (Below obj) st.fs st'.fs := by
  induction names generalizing retVal st with
  | nil =>
    obtain ⟨rfl, rfl⟩ := Prod.mk.inj (Except.ok.inj h)
    exact .refl hfs
  | cons name names ih =>
    rw [removeEntries] at h
    split at h
    · exact ih hfs h
    · split at h
      · split at h
        · next ret₁ st₁ hstep =>
          have hprunes := hrm name _ _ _ _ hfs hstep
          exact (hprunes.mono fun q => below_of_child).trans (ih hprunes.isFileSystem h)
        · cases h
      · cases h

/-- **What a call leaves.** A call leaves a file system, which lacks only the object and entries
below it. -/
theorem rmobj_prunes {st st' : RmState} {ret : ℤ} (hfs : IsFileSystem sys st.fs) (hne : obj ≠ [])
    (h : RmObj.rmobj sys errmsg depth obj str st = .ok (ret, st')) :
    Prunes sys (obj <+: ·) st.fs st'.fs := by
  induction depth generalizing obj str st ret st' with
  | zero => cases h
  | succ depth ih =>
    rw [RmObj.rmobj] at h
    split at h
    · split at h
      · split at h
        · exact report_prunes hfs h
        · split at h
          · split at h
            · next retVal st₁ hloop =>
              have hprunes := removeEntries_prunes
                (fun name str st ret st' hfs hrun => ih hfs (by simp) hrun) hfs hloop
              have hobj := hprunes.mono fun q hq => hq.1
              have hfs₁ := hprunes.isFileSystem
              split at h
              · obtain ⟨-, rfl⟩ := Prod.mk.inj (Except.ok.inj h)
                exact hobj
              · split at h
                · split at h
                  · exact hobj.trans (unlink_removal.finish_prunes hfs₁ hne h)
                  · exact hobj.trans (remove_removal.finish_prunes hfs₁ hne h)
                · exact hobj.trans (report_prunes hfs₁ h)
            · cases h
          · exact rmdir_removal.finish_prunes hfs hne h
      · exact unlink_removal.finish_prunes hfs hne h
    · exact report_prunes hfs h

theorem rmobj_child_prunes (name : String) (str : List Char) (st : RmState) (ret : ℤ)
    (st' : RmState) (hfs : IsFileSystem sys st.fs)
    (h : RmObj.rmobj sys errmsg depth (obj ++ [name]) str st = .ok (ret, st')) :
    Prunes sys (obj ++ [name] <+: ·) st.fs st'.fs :=
  rmobj_prunes hfs (by simp) h

/-! ### A string that does not lead through the object -/

/-- The file system without what is below the object. -/
def emptied (fs : List Path) (obj : Path) : List Path :=
  fs.filter fun q => decide (obj <+: q → q = obj)

theorem mem_emptied {q : Path} : q ∈ emptied fs obj ↔ q ∈ fs ∧ ¬Below obj q := by
  rw [emptied, List.mem_filter, decide_eq_true_iff, Below, not_and_not_right]

theorem emptied_subset : emptied fs obj ⊆ fs := List.filter_subset_self _

/-- What is left when entries below the object have gone. -/
theorem emptied_subset_of_prunes (h : Prunes sys (Below obj) fs fs') : emptied fs obj ⊆ fs' := by
  intro q hq
  obtain ⟨hmem, hnot⟩ := mem_emptied.mp hq
  exact h.keeps q hmem hnot

theorem IsFileSystem.emptied_prunes (h : IsFileSystem sys fs) :
    Prunes sys (Below obj) fs (emptied fs obj) := by
  refine ⟨⟨mem_emptied.mpr ⟨h.root, ?_⟩, h.root_kind, fun p name hmem => ?_⟩, emptied_subset,
    fun q hq hnot => mem_emptied.mpr ⟨hq, hnot⟩⟩
  · rintro ⟨hpre, hne⟩
    exact hne (List.prefix_nil.mp hpre).symm
  · obtain ⟨hname, hnot⟩ := mem_emptied.mp hmem
    obtain ⟨hp, hkind, hcomp⟩ := h.parent p name hname
    refine ⟨mem_emptied.mpr ⟨hp, fun hbelow => hnot ⟨?_, ?_⟩⟩, hkind, hcomp⟩
    · exact hbelow.1.trans (List.prefix_append _ _)
    · rintro rfl
      have hle := hbelow.1.length_le
      rw [List.length_append, List.length_singleton] at hle
      omega

/-- An entry of one file system that the other has too. -/
theorem entryAt_of_mem {sys' : System} {p : Path} {e : PathEntry}
    (h : entryAt sys fs p = some e) (hmem : p ∈ fs → p ∈ fs')
    (hkind : p ∈ fs → sys'.kind p = sys.kind p) : entryAt sys' fs' p = some e := by
  have hp : p ∈ fs := entryAt_ne_none_iff.mp (by rw [h]; simp)
  rw [entryAt, if_pos (List.contains_iff_mem.mpr hp)] at h
  rw [entryAt, if_pos (List.contains_iff_mem.mpr (hmem hp)), hkind hp, h]

/-- A string names the same object in a file system with more in it. -/
theorem lstat_of_subset (hsub : fs' ⊆ fs) (h : lstat sys cwd fs' str = .ok obj) :
    lstat sys cwd fs str = .ok obj := by
  obtain ⟨hne, hlen, hlooks⟩ := lstat_eq_ok_iff.mp h
  exact lstat_eq_ok_iff.mpr ⟨hne, hlen, hlooks.mono fun _ _ hentry =>
    entryAt_of_mem hentry (fun hp => hsub hp) fun _ => rfl⟩

/-- The string names the object, and nothing below the object is needed for that. -/
def NamesFromAbove (sys : System) (cwd : Path) (fs : List Path) (str : List Char) (obj : Path) :
    Prop :=
  lstat sys cwd (emptied fs obj) str = .ok obj

theorem NamesFromAbove.lstat (h : NamesFromAbove sys cwd fs str obj)
    (hprunes : Prunes sys (Below obj) fs fs') : lstat sys cwd fs' str = .ok obj :=
  lstat_of_subset (emptied_subset_of_prunes hprunes) h

theorem NamesFromAbove.lstat_self (h : NamesFromAbove sys cwd fs str obj) :
    RmObjPath.lstat sys cwd fs str = .ok obj :=
  lstat_of_subset emptied_subset h

/-- The string for an entry of a directory, which is still there when other entries have gone. -/
theorem NamesFromAbove.child (h : NamesFromAbove sys cwd fs str obj)
    (hprunes : Prunes sys (Below obj) fs fs') (hkind : sys.kind obj = .directory) {name : String}
    (hmem : obj ++ [name] ∈ fs') (hlen : (dirobj str name).length < pathMax) :
    NamesFromAbove sys cwd fs' (dirobj str name) (obj ++ [name]) := by
  have hfs' := hprunes.isFileSystem
  have hprunes' : Prunes sys (Below (obj ++ [name])) fs' (emptied fs' (obj ++ [name])) :=
    hfs'.emptied_prunes
  have hobj : RmObjPath.lstat sys cwd (emptied fs' (obj ++ [name])) str = .ok obj :=
    h.lstat (hprunes.trans (hprunes'.mono fun q hq => below_of_child hq.1))
  rw [NamesFromAbove, lstat_dirobj hprunes'.isFileSystem hobj hkind (hfs'.parent _ _ hmem).2.2 hlen,
    if_pos (hprunes'.keeps _ hmem fun hbelow => hbelow.2 rfl)]

/-! ### The two functions -/

/-- The string names the object in every file system that is left, as long as the object is still
in it. -/
def Names (sys : System) (cwd : Path) (fs : List Path) (str : List Char) (obj : Path) : Prop :=
  ∀ fs' ⊆ fs, IsFileSystem sys fs' → obj ∈ fs' → lstat sys cwd fs' str = .ok obj

theorem Names.namesFromAbove (h : Names sys cwd fs str obj) (hfs : IsFileSystem sys fs)
    (hmem : obj ∈ fs) : NamesFromAbove sys cwd fs str obj :=
  h _ emptied_subset hfs.emptied_prunes.isFileSystem
    (mem_emptied.mpr ⟨hmem, fun hbelow => hbelow.2 rfl⟩)

/-- The names from the root on make a string that names the object. -/
theorem looks_pathStr (h : IsFileSystem sys fs) (links : ℕ) (hmem : obj ∈ fs) :
    Looks (entryAt sys fs) links (components (pathStr [] obj)) [] obj := by
  induction obj using List.reverseRecOn with
  | nil => exact .stay (entryAt_of_directory h.root h.root_kind) (.inl rfl) .done
  | append_singleton p name ih =>
    obtain ⟨hp, hkind, hname⟩ := h.parent p name hmem
    have hstr : pathStr [] (p ++ [name]) = dirobj (pathStr [] p) name := by
      rw [pathStr, List.foldl_append]
      rfl
    refine walk_eq_ok_iff.mp ?_
    rw [hstr, dirobj, components_append_slash _ hname.1,
      walk_concat (walk_eq_ok_iff.mpr (ih hp)) (entryAt_of_directory hp hkind) hname,
      if_neg (entryAt_ne_none_iff.mpr hmem)]

/-- The string begins at the root. -/
theorem head?_pathStr (hne : obj ≠ []) : (pathStr [] obj).head? = some '/' := by
  obtain ⟨name, rest, rfl⟩ := List.exists_cons_of_ne_nil hne
  have hhead (str : List Char) (names : List String) (hstr : str.head? = some '/') :
      (pathStr str names).head? = some '/' := by
    induction names generalizing str with
    | nil => exact hstr
    | cons n names ih =>
      refine ih (dirobj str n) ?_
      rw [dirobj, List.head?_append, hstr]
      rfl
  exact hhead (dirobj [] name) rest rfl

theorem names_pathStr (hne : obj ≠ []) (hlen : (pathStr [] obj).length < pathMax) :
    Names sys cwd fs (pathStr [] obj) obj := by
  intro fs' _ hfs' hmem
  have hslash := head?_pathStr hne
  refine lstat_eq_ok_iff.mpr ⟨?_, hlen, ?_⟩
  · intro hnil
    rw [hnil] at hslash
    cases hslash
  · rw [startOf, if_pos hslash]
    exact looks_pathStr hfs' maxSymlinks hmem

theorem onPath_eq {op : List Path → Path → Except ℤ (List Path)}
    (hobj : lstat sys cwd fs str = .ok obj) : onPath sys cwd op fs str = op fs obj := by
  rw [onPath, hobj]

/-- The loops over the entries of a directory, of which those before have gone or not. -/
theorem removeEntries_eq {rm : Path → List Char → RmState → Except Halt (ℤ × RmState)}
    {rm' : List Char → RmState → Except Halt (ℤ × RmState)} {names : List String}
    (hnames : ∀ name ∈ names, name ≠ "." ∧ name ≠ "..")
    (hrm : ∀ name ∈ names, ∀ st, Prunes sys (Below obj) fs st.fs →
      (dirobj str name).length < pathMax →
      rm' (dirobj str name) st = rm (obj ++ [name]) (dirobj str name) st)
    (hprunes : ∀ name str st ret st', IsFileSystem sys st.fs →
      rm (obj ++ [name]) str st = .ok (ret, st') →
      Prunes sys (obj ++ [name] <+: ·) st.fs st'.fs)
    {retVal : ℤ} {st : RmState} (hst : Prunes sys (Below obj) fs st.fs) :
    removeEntries (fun _ => rm') obj str names retVal st =
      removeEntries rm obj str names retVal st := by
  induction names generalizing retVal st with
  | nil => rfl
  | cons name names ih =>
    obtain ⟨hname, hnames⟩ := List.forall_mem_cons.mp hnames
    obtain ⟨hrm₁, hrm⟩ := List.forall_mem_cons.mp hrm
    rw [removeEntries, removeEntries, if_neg (not_or.mpr hname), if_neg (not_or.mpr hname)]
    split
    · next hlen =>
      rw [hrm₁ st hst hlen]
      cases hstep : rm (obj ++ [name]) (dirobj str name) st with
      | error halt => rfl
      | ok result =>
        obtain ⟨ret₁, st₁⟩ := result
        have hleft := (hprunes name _ st ret₁ st₁ hst.isFileSystem hstep).mono
          fun q => below_of_child
        exact ih hnames hrm (hst.trans hleft)
    · rfl

/-- What follows the loops. -/
theorem afterEntries_eq (hobj : lstat sys cwd fs str = .ok obj) (hmem : obj ∈ fs) (retVal : ℤ)
    (msg : Option (List Char)) :
    afterEntries sys cwd errmsg str retVal ⟨fs, msg⟩ =
      if retVal = -1 then .ok (-1, ⟨fs, msg⟩)
      else if obj ∈ fs then
        if 3 ≤ nlink sys fs obj then
          finish sys errmsg unlinkName str ⟨fs, msg⟩ (unlink sys fs obj)
        else finish sys errmsg removeName str ⟨fs, msg⟩ (remove sys fs obj)
      else report errmsg (failed sys lstatName str enoent) ⟨fs, msg⟩ := by
  rw [afterEntries, if_pos hmem]
  dsimp only
  rw [hobj]
  dsimp only
  rw [onPath_eq hobj, onPath_eq hobj]

/-- The loops of a call, when calls with less room are the same. -/
theorem removeEntries_children_eq {st : RmState} (hfs : IsFileSystem sys st.fs)
    (hkind : sys.kind obj = .directory) (hnames : NamesFromAbove sys cwd st.fs str obj)
    (ih : ∀ name st₁, IsFileSystem sys st₁.fs → obj ++ [name] ∈ st₁.fs →
      NamesFromAbove sys cwd st₁.fs (dirobj str name) (obj ++ [name]) →
      rmobj sys cwd errmsg depth (dirobj str name) st₁ =
        RmObj.rmobj sys errmsg depth (obj ++ [name]) (dirobj str name) st₁) :
    removeEntries (fun _ => rmobj sys cwd errmsg depth) obj str (children st.fs obj) 0 st =
      removeEntries (RmObj.rmobj sys errmsg depth) obj str (children st.fs obj) 0 st := by
  refine removeEntries_eq (fun name hname => hfs.ne_dots hname)
    (fun name hname st₁ hst₁ hlen => ?_) rmobj_child_prunes (.refl hfs)
  by_cases hentry : obj ++ [name] ∈ st₁.fs
  · exact ih name st₁ hst₁.isFileSystem hentry (hnames.child hst₁ hkind hentry hlen)
  · -- an entry of the same name has been removed before
    have hlookup := lstat_dirobj hst₁.isFileSystem (hnames.lstat hst₁) hkind
      (hfs.child hname).2 hlen
    rw [if_neg hentry] at hlookup
    cases depth with
    | zero => rfl
    | succ depth => rw [rmobj, RmObj.rmobj, hlookup, if_neg hentry]

/-- **The two functions.** For a string that names the object and does not lead through it,
`rmobj` by the string is `rmobj` by the object. -/
theorem rmobj_eq_of_namesFromAbove {st : RmState} (hfs : IsFileSystem sys st.fs)
    (hmem : obj ∈ st.fs) (hne : obj ≠ []) (hnames : NamesFromAbove sys cwd st.fs str obj) :
    rmobj sys cwd errmsg depth str st = RmObj.rmobj sys errmsg depth obj str st := by
  induction depth generalizing obj str st with
  | zero => rfl
  | succ depth ih =>
    have hobj := hnames.lstat_self
    rw [rmobj, RmObj.rmobj, hobj, if_pos hmem, onPath_eq hobj, onPath_eq hobj]
    dsimp only
    cases hkind : sys.kind obj with
    | file => rfl
    | symlink target => rfl
    | directory =>
      dsimp only
      rw [removeEntries_readdir, removeEntries_readdir, removeEntries_children_eq hfs hkind
        hnames fun name st₁ hfs₁ hmem₁ hnames₁ => ih hfs₁ hmem₁ (by simp) hnames₁]
      cases hrun : removeEntries (RmObj.rmobj sys errmsg depth) obj str (children st.fs obj) 0 st
        with
      | error halt => rfl
      | ok result =>
        obtain ⟨retVal, fs₁, msg₁⟩ := result
        have hleft := removeEntries_prunes rmobj_child_prunes hfs hrun
        have hmem₁ := hleft.keeps obj hmem fun hbelow => hbelow.2 rfl
        dsimp only
        rw [afterEntries_eq (hnames.lstat hleft) hmem₁]

/-- The same for a string that goes on naming the object whatever else is removed. -/
theorem rmobj_eq {st : RmState} (hfs : IsFileSystem sys st.fs) (hmem : obj ∈ st.fs)
    (hne : obj ≠ []) (hnames : Names sys cwd st.fs str obj) :
    rmobj sys cwd errmsg depth str st = RmObj.rmobj sys errmsg depth obj str st :=
  rmobj_eq_of_namesFromAbove hfs hmem hne (hnames.namesFromAbove hfs hmem)

/-- The names from the root on make such a string. -/
theorem rmobj_pathStr {st : RmState} (hfs : IsFileSystem sys st.fs) (hmem : obj ∈ st.fs)
    (hne : obj ≠ []) (hlen : (pathStr [] obj).length < pathMax) :
    rmobj sys cwd errmsg depth (pathStr [] obj) st =
      RmObj.rmobj sys errmsg depth obj (pathStr [] obj) st :=
  rmobj_eq hfs hmem hne (names_pathStr hne hlen)

end RmObjPath

end SnowballLtp
