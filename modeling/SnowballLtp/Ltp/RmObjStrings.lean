import SnowballLtp.Ltp.RmObjPath

/-!
# Removing an object by any string

A string can name an object in many ways: through `..`, through symbolic links, even through the
object's own entries, which the recursion removes while it still needs them. Whatever the string,
the recursion stays below the object that the first lookup found: a lookup that succeeds later, when
names have gone, comes to the same object. A string that leads through the object's own entries is
never enough to remove it.

## Main definitions

* `Leaves`, `Confined`: what a call returns and leaves.
* `EndsInName`: the strings for which the last step of the lookup is a name.
* `Removable`: the trees that the last result is about.

## Main results

* `rmobj_confined`: a call with any string.
* `rmobj_removes_only`: what is removed, and what the value says.
* `rmobj_eq_zero_iff`: when a call succeeds.
-/

namespace SnowballLtp

namespace RmObjStrings

open RmObjPath
open RmObj hiding rmobj

/-! ### What a call does -/

/-- A call that was to remove `obj` has removed only entries from there on that the system does not
refuse to remove, and has returned 0 just when `obj` is gone. -/
structure Leaves (sys : System) (obj : Path) (st : RmState) (ret : ℤ) (st' : RmState) : Prop where
  prunes : Prunes sys (fun q => obj <+: q ∧ sys.refusal q = none) st.fs st'.fs
  ret_eq : ret = if obj ∈ st'.fs then -1 else 0

/-- A call with a string has to do with the object that the string names before the call. -/
def Confined (sys : System) (cwd : Path) (str : List Char) (st : RmState) (ret : ℤ)
    (st' : RmState) : Prop :=
  match lstat sys cwd st.fs str with
  | .ok obj => Leaves sys obj st ret st'
  | .error _ => ret = -1 ∧ st'.fs = st.fs

/-- What the loop over the entries of `obj` can have removed. -/
def Spent (sys : System) (obj q : Path) : Prop := Below obj q ∧ sys.refusal q = none

/-- What the system refuses to remove is not removed. -/
def Permitted (sys : System) (op : List Path → Path → Except ℤ (List Path)) : Prop :=
  ∀ fs obj fs', op fs obj = .ok fs' → sys.refusal obj = none

/-- The last component of the string is a name, so that it is not `.`, `..` or nothing. -/
def EndsInName (str : List Char) : Prop :=
  ∃ init name, components str = init ++ [name] ∧ IsComponent name

/-- The string names a tree that the stack, the paths and the buffer for the texts are large enough
for, and the lookup does not begin in this tree: from a working directory that has been removed the
system would still find `.` and `..`, which `lookup` does not. -/
structure Removable (sys : System) (cwd : Path) (errmsg : Bool) (fs : List Path) (str : List Char)
    (obj : Path) (depth : ℕ) : Prop where
  lstat : RmObjPath.lstat sys cwd fs str = .ok obj
  tree : IsTree sys fs obj str depth
  fits : Fits sys errmsg fs obj str
  away : ¬obj <+: startOf str cwd

variable {sys : System} {cwd : Path} {errmsg : Bool} {fs : List Path} {obj : Path}
  {str : List Char} {depth : ℕ} {st st' : RmState} {ret : ℤ}

/-! ### The removal of the object itself -/

theorem refusal_of_erase {fs' : List Path} (h : erase sys fs obj = .ok fs') :
    sys.refusal obj = none := by
  rw [erase] at h
  split at h
  · cases h
  · next hrefusal => exact hrefusal

theorem unlink_permitted : Permitted sys (unlink sys) := by
  intro fs obj fs' h
  rw [unlink] at h
  split at h
  · split at h
    · cases h
    · exact refusal_of_erase h
  · cases h

theorem rmdir_permitted : Permitted sys (rmdir sys) := by
  intro fs obj fs' h
  rw [rmdir] at h
  split at h
  · split at h
    · split at h
      · exact refusal_of_erase h
      · cases h
    · cases h
  · cases h

theorem remove_permitted : Permitted sys (remove sys) := by
  intro fs obj fs' h
  rw [remove] at h
  split at h
  · exact rmdir_permitted fs obj fs' h
  · exact unlink_permitted fs obj fs' h

/-- A report leaves everything as it is. -/
theorem report_leaves {text : List Char} (hfs : IsFileSystem sys st.fs) (hmem : obj ∈ st.fs)
    (h : report errmsg text st = .ok (ret, st')) : Leaves sys obj st ret st' := by
  obtain ⟨rfl, hst⟩ := report_fs h
  refine ⟨?_, ?_⟩
  · rw [hst]
    exact .refl hfs
  · rw [hst, if_pos hmem]

/-- The last call on the object. -/
theorem finish_leaves {op : List Path → Path → Except ℤ (List Path)} (hop : Removal sys op)
    (hpermitted : Permitted sys op) (hroot : sys.refusal [] ≠ none) {call : List Char}
    (hfs : IsFileSystem sys st.fs) (hobj : lstat sys cwd st.fs str = .ok obj)
    (h : finish sys errmsg call str st (onPath sys cwd op st.fs str) = .ok (ret, st')) :
    Leaves sys obj st ret st' := by
  rw [onPath_eq hobj] at h
  cases hresult : op st.fs obj with
  | ok fs' =>
    rw [hresult] at h
    obtain ⟨rfl, rfl⟩ := Prod.mk.inj (Except.ok.inj h)
    have hnone : sys.refusal obj = none := hpermitted _ _ _ hresult
    have hne : obj ≠ [] := by
      rintro rfl
      exact hroot hnone
    have hprunes := hop.prunes hfs hne hresult
    obtain ⟨-, -, rfl⟩ := hop _ _ _ hresult
    refine ⟨⟨hprunes.isFileSystem, hprunes.subset, fun q hq hnot => ?_⟩, ?_⟩
    · refine List.mem_filter.mpr ⟨hq, decide_eq_true ?_⟩
      rintro rfl
      exact hnot ⟨List.prefix_refl _, hnone⟩
    · rw [if_neg (by simp)]
  | error errno =>
    rw [hresult] at h
    exact report_leaves hfs (mem_of_lstat hfs hobj) h

/-! ### The loop over the entries -/

/-- Nothing of what the loop can have removed is the object. -/
theorem mem_of_spent {fs' : List Path} (hmem : obj ∈ fs)
    (h : Prunes sys (Spent sys obj) fs fs') : obj ∈ fs' :=
  h.keeps obj hmem fun hspent => hspent.1.2 rfl

/-- The string for an entry names the entry or, when that has gone, nothing. -/
theorem lstat_dirobj_of_subset {fs' : List Path} (hfs : IsFileSystem sys fs)
    (hobj : lstat sys cwd fs str = .ok obj) (hkind : sys.kind obj = .directory) {name : String}
    (hname : IsComponent name.toList) (hsub : fs' ⊆ fs) {q : Path}
    (h : lstat sys cwd fs' (dirobj str name) = .ok q) : q = obj ++ [name] := by
  have hlift := lstat_of_subset hsub h
  obtain ⟨-, hlen, -⟩ := lstat_eq_ok_iff.mp hlift
  rw [lstat_dirobj hfs hobj hkind hname hlen] at hlift
  split at hlift
  · exact (Except.ok.inj hlift).symm
  · cases hlift

/-- A call for an entry. -/
theorem Confined.spent (h : Confined sys cwd str st ret st') {parent : Path}
    (hfs : IsFileSystem sys st.fs)
    (hlookup : ∀ q, lstat sys cwd st.fs str = .ok q → ∃ name, q = parent ++ [name]) :
    Prunes sys (Spent sys parent) st.fs st'.fs := by
  rw [Confined] at h
  split at h
  · next q hq =>
    obtain ⟨name, rfl⟩ := hlookup q hq
    exact h.prunes.mono fun r hr => ⟨below_of_child hr.1, hr.2⟩
  · rw [h.2]
    exact .refl hfs

/-- The loop, when the calls it makes are confined. -/
theorem removeEntries_spent {rm : List Char → RmState → Except Halt (ℤ × RmState)}
    (hrm : ∀ str st ret st', IsFileSystem sys st.fs → rm str st = .ok (ret, st') →
      Confined sys cwd str st ret st')
    (hfs : IsFileSystem sys fs) (hobj : lstat sys cwd fs str = .ok obj)
    (hkind : sys.kind obj = .directory) {names : List String}
    (hnames : ∀ name ∈ names, IsComponent name.toList)
    (hst : Prunes sys (Spent sys obj) fs st.fs) {retVal : ℤ}
    (h : removeEntries (fun _ => rm) obj str names retVal st = .ok (ret, st')) :
    Prunes sys (Spent sys obj) fs st'.fs := by
  induction names generalizing retVal st with
  | nil =>
    obtain ⟨rfl, rfl⟩ := Prod.mk.inj (Except.ok.inj h)
    exact hst
  | cons name names ih =>
    obtain ⟨hname, hnames⟩ := List.forall_mem_cons.mp hnames
    rw [removeEntries] at h
    split at h
    · exact ih hnames hst h
    · split at h
      · split at h
        · next ret₁ st₁ hstep =>
          have hspent : Prunes sys (Spent sys obj) st.fs st₁.fs :=
            (hrm _ _ _ _ hst.isFileSystem hstep).spent hst.isFileSystem fun q hq =>
              ⟨name, lstat_dirobj_of_subset hfs hobj hkind hname hst.subset hq⟩
          exact ih hnames (hst.trans hspent) h
        · cases h
      · cases h

/-! ### A call -/

/-- What follows the loop. -/
theorem afterEntries_leaves (hroot : sys.refusal [] ≠ none) (hfs : IsFileSystem sys fs)
    (hobj : lstat sys cwd fs str = .ok obj) (hst : Prunes sys (Spent sys obj) fs st.fs)
    {retVal : ℤ} (h : afterEntries sys cwd errmsg str retVal st = .ok (ret, st')) :
    Leaves sys obj st ret st' := by
  have hmem : obj ∈ st.fs := mem_of_spent (mem_of_lstat hfs hobj) hst
  have hfs₁ := hst.isFileSystem
  rw [afterEntries] at h
  split at h
  · obtain ⟨rfl, rfl⟩ := Prod.mk.inj (Except.ok.inj h)
    exact ⟨.refl hfs₁, by rw [if_pos hmem]⟩
  · split at h
    · exact report_leaves hfs₁ hmem h
    · next q hq =>
      -- the string names the object that it named before the loop
      obtain rfl : q = obj :=
        Except.ok.inj ((lstat_of_subset hst.subset hq).symm.trans hobj)
      split at h
      · exact finish_leaves unlink_removal unlink_permitted hroot hfs₁ hq h
      · exact finish_leaves remove_removal remove_permitted hroot hfs₁ hq h

theorem Leaves.of_spent {st₁ : RmState} (hst : Prunes sys (Spent sys obj) st.fs st₁.fs)
    (h : Leaves sys obj st₁ ret st') : Leaves sys obj st ret st' :=
  ⟨(hst.mono fun _ hq => ⟨hq.1.1, hq.2⟩).trans h.prunes, h.ret_eq⟩

/-- **A call with any string.** -/
theorem rmobj_confined (hroot : sys.refusal [] ≠ none) (hfs : IsFileSystem sys st.fs)
    (h : rmobj sys cwd errmsg depth str st = .ok (ret, st')) :
    Confined sys cwd str st ret st' := by
  induction depth generalizing str st ret st' with
  | zero => cases h
  | succ depth ih =>
    rw [rmobj] at h
    rw [Confined]
    cases hobj : lstat sys cwd st.fs str with
    | error errno =>
      rw [hobj] at h
      exact report_fs h
    | ok obj =>
      rw [hobj] at h
      dsimp only at h ⊢
      split at h
      · next hkind =>
        split at h
        · exact report_leaves hfs (mem_of_lstat hfs hobj) h
        · split at h
          · rw [removeEntries_readdir] at h
            split at h
            · next retVal st₁ hloop =>
              have hspent := removeEntries_spent (fun _ _ _ _ hfs₁ hrun => ih hfs₁ hrun) hfs hobj
                hkind (fun name hname => (hfs.child hname).2) (.refl hfs) hloop
              exact .of_spent hspent (afterEntries_leaves hroot hfs hobj hspent h)
            · cases h
          · exact finish_leaves rmdir_removal rmdir_permitted hroot hfs hobj h
      · exact finish_leaves unlink_removal unlink_permitted hroot hfs hobj h

/-- What an entry below which something is refused has to do with a call. -/
theorem not_blocked_of_removed {P : Path → Prop} {fs' : List Path}
    (h : Prunes sys P fs fs') (hP : ∀ q, P q → sys.refusal q = none) {q : Path}
    (hgone : q ∉ fs') : ¬Blocked sys fs q := by
  rintro ⟨r, hr, ⟨names, rfl⟩, hrefusal⟩
  have hkept : q ++ names ∈ fs' := h.keeps _ hr fun hPr => hrefusal (hP _ hPr)
  exact hgone (h.isFileSystem.mem_of_append hkept)

/-- **What is removed, and what the value says.** A call with any string removes only the object
that the string names and entries below it, and of these none below which the system refuses to
remove something. It returns 0 if the object has gone, and else -1. -/
theorem rmobj_removes_only (hroot : sys.refusal [] ≠ none) (hfs : IsFileSystem sys st.fs)
    (h : rmobj sys cwd errmsg depth str st = .ok (ret, st')) :
    IsFileSystem sys st'.fs ∧ st'.fs ⊆ st.fs ∧
      (∀ q ∈ st.fs, q ∉ st'.fs →
        ∃ obj, lstat sys cwd st.fs str = .ok obj ∧ obj <+: q ∧ ¬Blocked sys st.fs q) ∧
      (ret = 0 ∨ ret = -1) ∧
      (ret = 0 ↔ ∃ obj, lstat sys cwd st.fs str = .ok obj ∧ obj ∉ st'.fs) := by
  have hconfined := rmobj_confined hroot hfs h
  rw [Confined] at hconfined
  cases hobj : lstat sys cwd st.fs str with
  | error errno =>
    rw [hobj] at hconfined
    obtain ⟨rfl, hst⟩ := hconfined
    rw [hst]
    exact ⟨hfs, List.Subset.refl _, fun q hq hgone => absurd hq hgone, .inr rfl, by simp⟩
  | ok obj =>
    rw [hobj] at hconfined
    obtain ⟨hprunes, rfl⟩ := hconfined
    refine ⟨hprunes.isFileSystem, hprunes.subset, fun q hq hgone => ⟨obj, rfl, ?_, ?_⟩, ?_, ?_⟩
    · by_contra hnot
      exact hgone (hprunes.keeps q hq fun hP => hnot hP.1)
    · exact not_blocked_of_removed hprunes (fun _ hP => hP.2) hgone
    · by_cases hmem : obj ∈ st'.fs <;> simp [hmem]
    · by_cases hmem : obj ∈ st'.fs <;> simp [hmem]

/-- The root with a directory `d`, in it a directory `s` and in that a file `f`. -/
def nestedSystem : System where
  kind p := if p = ["d", "s", "f"] then .file else .directory
  opens _ := true
  refusal p := if p = [] then some 16 else none
  strerror _ := []

def nested : List Path := [[], ["d"], ["d", "s"], ["d", "s", "f"]]

theorem nested_isFileSystem : IsFileSystem nestedSystem nested :=
  isFileSystem_of_forall (by decide) (by decide) (by decide)

/-- The string `d/s/..` leads through `s`, which the call removes. -/
theorem rmobj_removes_only_nested :
    rmobj nestedSystem [] false 4 ['d', '/', 's', '/', '.', '.'] ⟨nested, none⟩ =
        .ok (-1, ⟨[[], ["d"]], none⟩) ∧
      ∀ q ∈ nested, q ∉ [[], ["d"]] →
        ∃ obj, lstat nestedSystem [] nested ['d', '/', 's', '/', '.', '.'] = .ok obj ∧ obj <+: q ∧
          ¬Blocked nestedSystem nested q := by
  have hrun : rmobj nestedSystem [] false 4 ['d', '/', 's', '/', '.', '.'] ⟨nested, none⟩ =
      .ok (-1, ⟨[[], ["d"]], none⟩) := rfl
  exact ⟨hrun, (rmobj_removes_only (by decide) nested_isFileSystem hrun).2.2.1⟩

/-! ### When a call succeeds -/

/-- The object that such a string names is not the root. -/
theorem EndsInName.ne_root (h : EndsInName str) (hobj : lstat sys cwd fs str = .ok obj) :
    obj ≠ [] := by
  obtain ⟨init, name, hcomponents, hname⟩ := h
  obtain ⟨-, -, hlooks⟩ := lstat_eq_ok_iff.mp hobj
  rw [hcomponents] at hlooks
  exact hlooks.ne_nil_of_concat hname

theorem EndsInName.ne_slash (h : EndsInName str) : str ≠ ['/'] := by
  rintro rfl
  obtain ⟨init, name, hcomponents, hname⟩ := h
  have hslash : components ['/'] = [[]] ++ [[]] := by decide
  rw [hslash] at hcomponents
  exact hname.2.1 (List.singleton_inj.mp (List.append_inj_right' hcomponents rfl)).symm

/-- The last call on the object found nothing below it. -/
theorem finish_emptied {op : List Path → Path → Except ℤ (List Path)} (hop : Removal sys op)
    {call : List Char} (hst : Prunes sys (Below obj) fs st.fs)
    (hobj : lstat sys cwd st.fs str = .ok obj)
    (h : finish sys errmsg call str st (onPath sys cwd op st.fs str) = .ok (0, st')) :
    NamesFromAbove sys cwd fs str obj := by
  rw [onPath_eq hobj] at h
  cases hresult : op st.fs obj with
  | error errno =>
    rw [hresult] at h
    have := (report_fs h).1
    omega
  | ok fs' =>
    obtain ⟨-, hnil, -⟩ := hop _ _ _ hresult
    refine lstat_of_subset (fun q hq => mem_emptied.mpr ⟨hst.subset hq, ?_⟩) hobj
    rintro ⟨⟨names, rfl⟩, hne⟩
    obtain ⟨name, rest, rfl⟩ := List.exists_cons_of_ne_nil fun hnames : names = [] =>
      hne (by rw [hnames, List.append_nil])
    have hchild : obj ++ [name] ∈ st.fs := by
      refine hst.isFileSystem.mem_of_append (?_ : obj ++ [name] ++ rest ∈ st.fs)
      rwa [List.append_assoc]
    have hkind := (hst.isFileSystem.parent obj name hchild).2.1
    have hmem := mem_children.mpr hchild
    rw [hnil hkind] at hmem
    cases hmem

/-- **A call that succeeds** had a string that does not lead through the object. -/
theorem namesFromAbove_of_zero (hroot : sys.refusal [] ≠ none) (hfs : IsFileSystem sys st.fs)
    (hobj : lstat sys cwd st.fs str = .ok obj)
    (h : rmobj sys cwd errmsg depth str st = .ok (0, st')) :
    NamesFromAbove sys cwd st.fs str obj := by
  have hreport {text : List Char} {st₁ : RmState} (h : report errmsg text st₁ = .ok (0, st')) :
      NamesFromAbove sys cwd st.fs str obj := by
    have := (report_fs h).1
    omega
  cases depth with
  | zero => cases h
  | succ depth =>
    rw [rmobj, hobj] at h
    dsimp only at h
    split at h
    · next hkind =>
      split at h
      · exact hreport h
      · split at h
        · rw [removeEntries_readdir] at h
          split at h
          · next retVal st₁ hloop =>
            have hspent := removeEntries_spent
              (fun _ _ _ _ hfs₁ hrun => rmobj_confined hroot hfs₁ hrun) hfs hobj hkind
              (fun name hname => (hfs.child hname).2) (.refl hfs) hloop
            have hbelow := hspent.mono fun _ hq => hq.1
            rw [afterEntries] at h
            split at h
            · cases h
            · split at h
              · exact hreport h
              · next q hq =>
                obtain rfl : q = obj :=
                  Except.ok.inj ((lstat_of_subset hspent.subset hq).symm.trans hobj)
                split at h
                · exact finish_emptied unlink_removal hbelow hq h
                · exact finish_emptied remove_removal hbelow hq h
          · cases h
        · exact finish_emptied rmdir_removal (.refl hfs) hobj h
    · exact finish_emptied unlink_removal (.refl hfs) hobj h

/-- **When a call succeeds.** For a string that ends in a name, on a tree of directories that can be
opened and with the working directory elsewhere, a call returns 0 if and only if the lookup of the
string does not lead through an entry of the tree and the system does not refuse to remove
anything in it. -/
theorem rmobj_eq_zero_iff (hroot : sys.refusal [] ≠ none) (hfs : IsFileSystem sys fs)
    (hnodup : fs.Nodup) (hlast : EndsInName str) (h : Removable sys cwd errmsg fs str obj depth) :
    (∃ st, rmobj sys cwd errmsg depth str ⟨fs, none⟩ = .ok (0, st)) ↔
      NamesFromAbove sys cwd fs str obj ∧ ¬Blocked sys fs obj := by
  obtain ⟨hobj, htree, hfits, -⟩ := h
  have hne : obj ≠ [] := hlast.ne_root hobj
  constructor
  · rintro ⟨st, h⟩
    obtain ⟨-, -, hremoved, -, hret⟩ := rmobj_removes_only hroot hfs h
    obtain ⟨obj', hobj', hgone⟩ := hret.mp rfl
    obtain rfl : obj' = obj := Except.ok.inj (hobj'.symm.trans hobj)
    obtain ⟨_, -, -, hnot⟩ := hremoved obj' htree.mem hgone
    exact ⟨namesFromAbove_of_zero hroot hfs hobj h, hnot⟩
  · rintro ⟨hnames, hnot⟩
    have hstr : str ≠ [] ∧ str ≠ ['/'] := ⟨(lstat_eq_ok_iff.mp hobj).1, hlast.ne_slash⟩
    obtain ⟨msg, hrun⟩ := (rmobj_run errmsg htree hnodup hstr none).1 hfits
    rw [if_neg hnot] at hrun
    exact ⟨_, (rmobj_eq_of_namesFromAbove hfs htree.mem hne hnames).trans hrun⟩

/-- The string `d/../d/s` leads through `d`, which stays until the entry `s` has gone. -/
theorem rmobj_eq_zero_nested :
    ∃ st, rmobj nestedSystem [] true 2 "d/../d/s".toList ⟨nested, none⟩ = .ok (0, st) := by
  have hmem (names : List String) (h : ["d", "s"] ++ names ∈ nested) :
      names = [] ∨ names = ["f"] := by
    simpa [nested] using h
  have htree : IsTree nestedSystem nested ["d", "s"] "d/../d/s".toList 2 := by
    refine ⟨by decide, fun names name h => ?_, fun _ _ => rfl, fun names h => ?_, fun names h => ?_⟩
    · rw [List.append_assoc] at h
      obtain hnil | hf := hmem _ h
      · simp at hnil
      · obtain ⟨rfl, rfl⟩ : names = [] ∧ name = "f" := by
          cases names <;> simp_all
        decide
    · obtain rfl | rfl := hmem names h <;> decide
    · obtain rfl | rfl := hmem names h <;> decide
  refine (rmobj_eq_zero_iff (by decide) nested_isFileSystem (by decide)
    ⟨["d".toList, "..".toList, "d".toList], "s".toList, by decide, by decide⟩
    ⟨by decide, htree, ?_, by decide⟩).mpr ⟨?_, by decide⟩
  · intro _ names errno h hrefusal
    obtain rfl | rfl := hmem names h <;> cases hrefusal
  · rw [NamesFromAbove]
    decide

end RmObjStrings

end SnowballLtp
