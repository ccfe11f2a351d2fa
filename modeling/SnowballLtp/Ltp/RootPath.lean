import SnowballLtp.Ltp.RmObjPath

/-!
# Removing the root

`rmobj` refuses to remove the directory `/`, which it knows by comparing the string of its argument
with `/`. Many other strings name the root, and for them the recursion goes through the whole file
system.

## Main definitions

* `KeepsRoot`: what a call with a string for the root should do.
* `AllRefused`: nothing that the recursion comes to can be removed.

## Main results

* `rmobj_sublist`: a call adds nothing to the file system.
* `rmobj_idle`: when a call leaves the file system as it was.
* `keepsRoot_iff`.
-/

namespace SnowballLtp

namespace RootPath

open RmObjPath
open RmObj hiding rmobj

variable (sys : System) (cwd : Path) (errmsg : Bool)

/-! ### What a call should do -/

/-- The call, with room on the stack for `depth` nested calls, returns -1 and leaves the file system
as it was. -/
def KeepsRoot (depth : ℕ) (fs : List Path) (str : List Char) : Prop :=
  ∃ st, rmobj sys cwd errmsg (depth + 1) str ⟨fs, none⟩ = .ok (-1, st) ∧ st.fs = fs

/-- The recursion goes through directories that can be opened. -/
def Reached (fs : List Path) (obj : Path) (names : List String) : Prop :=
  obj ++ names ∈ fs ∧ ∀ l name rest, names = l ++ name :: rest → sys.opens (obj ++ l) = true

/-- The object is not a directory, cannot be opened, or is empty. -/
def IsEnd (fs : List Path) (obj : Path) : Prop :=
  sys.kind obj = .directory → sys.opens obj = true → children fs obj = []

/-- The call that is to remove such an object, and what comes of it. -/
def removal (fs : List Path) (obj : Path) : List Char × Except ℤ (List Path) :=
  match sys.kind obj with
  | .directory =>
    if sys.opens obj then (removeName, remove sys fs obj) else (rmdirName, rmdir sys fs obj)
  | _ => (unlinkName, unlink sys fs obj)

/-- The text of an error fits into the buffer if the caller wants it. -/
def TextFits (call str : List Char) (errno : ℤ) : Prop :=
  errmsg = true → (failed sys call str errno).length < sizeofErrMsg

/-- The system does not remove the object, and the text about that fits. -/
def Refused (fs : List Path) (obj : Path) (str : List Char) : Prop :=
  ∃ errno, (removal sys fs obj).2 = .error errno ∧
    TextFits sys errmsg (removal sys fs obj).1 str errno

/-- Nothing that the recursion comes to can be removed, the strings for it fit, and there is room
on the stack for the calls. -/
structure AllRefused (depth : ℕ) (fs : List Path) (obj : Path) (str : List Char) : Prop where
  length_lt_depth : ∀ names, Reached sys fs obj names → names.length < depth
  length_lt : ∀ names, Reached sys fs obj names → names ≠ [] →
    (pathStr str names).length < pathMax
  refused : ∀ names, Reached sys fs obj names → IsEnd sys fs (obj ++ names) →
    Refused sys errmsg fs (obj ++ names) (pathStr str names)

variable {sys cwd errmsg} {fs : List Path} {obj : Path} {str : List Char} {depth : ℕ}

/-! ### The tree -/

theorem Reached.nil (h : obj ∈ fs) : Reached sys fs obj [] :=
  ⟨by simpa using h, fun l name rest hnil => by simp at hnil⟩

theorem reached_cons_iff (h : IsFileSystem sys fs) {name : String} {names : List String} :
    Reached sys fs obj (name :: names) ↔
      name ∈ children fs obj ∧ sys.opens obj = true ∧ Reached sys fs (obj ++ [name]) names := by
  have hassoc (names : List String) : obj ++ (name :: names) = obj ++ [name] ++ names := by simp
  constructor
  · rintro ⟨hmem, hopens⟩
    rw [hassoc] at hmem
    refine ⟨mem_children.mpr (h.mem_of_append hmem), ?_, hmem, ?_⟩
    · simpa using hopens [] name names rfl
    · rintro l name' rest rfl
      simpa using hopens (name :: l) name' rest rfl
  · rintro ⟨-, hopen, hmem, hopens⟩
    refine ⟨by rwa [hassoc], ?_⟩
    rintro l name' rest hl
    cases l with
    | nil => simpa using hopen
    | cons n l =>
      obtain ⟨rfl, rfl⟩ := List.cons.inj hl
      rw [hassoc]
      exact hopens l name' rest rfl

/-- Nothing is reached behind an end. -/
theorem eq_nil_of_isEnd (h : IsFileSystem sys fs) (hend : IsEnd sys fs obj) {names : List String}
    (hreached : Reached sys fs obj names) : names = [] := by
  cases names with
  | nil => rfl
  | cons name names =>
    obtain ⟨hname, hopen, -⟩ := (reached_cons_iff h).mp hreached
    rw [hend (h.child hname).1 hopen] at hname
    cases hname

/-- An end itself. -/
theorem allRefused_iff_of_isEnd (h : IsFileSystem sys fs) (hmem : obj ∈ fs)
    (hend : IsEnd sys fs obj) :
    AllRefused sys errmsg (depth + 1) fs obj str ↔ Refused sys errmsg fs obj str := by
  constructor
  · intro hall
    simpa [pathStr] using hall.refused [] (.nil hmem) (by simpa using hend)
  · intro hrefused
    constructor
    · intro names hreached
      rw [eq_nil_of_isEnd h hend hreached]
      exact depth.succ_pos
    · exact fun names hreached hne => absurd (eq_nil_of_isEnd h hend hreached) hne
    · intro names hreached _
      obtain rfl := eq_nil_of_isEnd h hend hreached
      simpa [pathStr] using hrefused

/-- A directory that the recursion goes into. -/
theorem allRefused_iff_of_not_isEnd (h : IsFileSystem sys fs) (hend : ¬IsEnd sys fs obj) :
    AllRefused sys errmsg (depth + 1) fs obj str ↔ ∀ name ∈ children fs obj,
      (dirobj str name).length < pathMax ∧
        AllRefused sys errmsg depth fs (obj ++ [name]) (dirobj str name) := by
  obtain ⟨hopen, -⟩ : sys.opens obj = true ∧ children fs obj ≠ [] := by
    rw [IsEnd, Classical.not_imp, Classical.not_imp] at hend
    exact hend.2
  have hassoc (name : String) (names : List String) :
      obj ++ (name :: names) = obj ++ [name] ++ names := by simp
  constructor
  · intro hall name hname
    have hreached {names : List String} (hr : Reached sys fs (obj ++ [name]) names) :
        Reached sys fs obj (name :: names) := (reached_cons_iff h).mpr ⟨hname, hopen, hr⟩
    refine ⟨?_, fun names hr => ?_, fun names hr hne => ?_, fun names hr hend' => ?_⟩
    · exact hall.length_lt [name] (hreached (.nil (mem_children.mp hname))) (by simp)
    · exact Nat.lt_of_succ_lt_succ (hall.length_lt_depth (name :: names) (hreached hr))
    · exact hall.length_lt (name :: names) (hreached hr) (by simp)
    · rw [← hassoc] at hend' ⊢
      exact hall.refused (name :: names) (hreached hr) hend'
  · intro hall
    constructor
    · intro names hreached
      cases names with
      | nil => exact depth.succ_pos
      | cons name names =>
        obtain ⟨hname, -, hr⟩ := (reached_cons_iff h).mp hreached
        exact Nat.succ_lt_succ ((hall name hname).2.length_lt_depth names hr)
    · intro names hreached hne
      cases names with
      | nil => exact absurd rfl hne
      | cons name names =>
        obtain ⟨hname, -, hr⟩ := (reached_cons_iff h).mp hreached
        obtain ⟨hlen, hchild⟩ := hall name hname
        by_cases hnil : names = []
        · subst hnil
          exact hlen
        · exact hchild.length_lt names hr hnil
    · intro names hreached hend'
      cases names with
      | nil => exact absurd (by simpa using hend') hend
      | cons name names =>
        obtain ⟨hname, -, hr⟩ := (reached_cons_iff h).mp hreached
        rw [hassoc] at hend' ⊢
        exact (hall name hname).2.refused names hr hend'

/-- A string that resolves to something names something. -/
theorem exists_lstat_of_stat (hobj : stat sys cwd fs str = .ok obj) :
    ∃ obj', lstat sys cwd fs str = .ok obj' := by
  obtain ⟨hne, hlen, hlooks⟩ := lookup_eq_ok_iff.mp hobj
  obtain ⟨obj', hobj'⟩ := hlooks.of_concat_nil
  exact ⟨obj', lstat_eq_ok_iff.mpr ⟨hne, hlen, hobj'⟩⟩

theorem lstat_slash (h : IsFileSystem sys fs) : lstat sys cwd fs ['/'] = .ok [] := by
  have hdir := entryAt_of_directory h.root h.root_kind
  refine lstat_eq_ok_iff.mpr ⟨by decide, by decide, ?_⟩
  have hcomponents : components ['/'] = [[], []] := by decide
  rw [hcomponents]
  exact .stay hdir (.inl rfl) (.stay hdir (.inl rfl) .done)

/-! ### Nothing is added -/

theorem onPath_sublist {op : List Path → Path → Except ℤ (List Path)} (hop : Removal sys op)
    {fs' : List Path} (h : onPath sys cwd op fs str = .ok fs') : fs'.Sublist fs := by
  rw [onPath] at h
  split at h
  · obtain ⟨-, -, rfl⟩ := hop _ _ _ h
    exact List.filter_sublist
  · cases h

/-- A call adds nothing to the file system. -/
def Shrinks (rm : List Char → RmState → Except Halt (ℤ × RmState)) : Prop :=
  ∀ str st ret st', rm str st = .ok (ret, st') → st'.fs.Sublist st.fs

theorem removeEntries_sublist {rm : List Char → RmState → Except Halt (ℤ × RmState)}
    (hrm : Shrinks rm) {names : List String} {retVal ret : ℤ} {st st' : RmState}
    (h : removeEntries (fun _ => rm) obj str names retVal st = .ok (ret, st')) :
    st'.fs.Sublist st.fs := by
  induction names generalizing retVal st with
  | nil =>
    obtain ⟨rfl, rfl⟩ := Prod.mk.inj (Except.ok.inj h)
    exact List.Sublist.refl _
  | cons name names ih =>
    rw [removeEntries] at h
    split at h
    · exact ih h
    · split at h
      · split at h
        · next ret' st₁ hstep => exact (ih h).trans (hrm _ _ _ _ hstep)
        · cases h
      · cases h

theorem report_sublist {text : List Char} {st st' : RmState} {ret : ℤ}
    (h : report errmsg text st = .ok (ret, st')) : st'.fs.Sublist st.fs := by
  rw [(report_fs h).2]

theorem finish_sublist {op : List Path → Path → Except ℤ (List Path)} (hop : Removal sys op)
    {call : List Char} {st st' : RmState} {ret : ℤ}
    (h : finish sys errmsg call str st (onPath sys cwd op st.fs str) = .ok (ret, st')) :
    st'.fs.Sublist st.fs := by
  cases hresult : onPath sys cwd op st.fs str with
  | ok fs' =>
    rw [hresult] at h
    obtain ⟨rfl, rfl⟩ := Prod.mk.inj (Except.ok.inj h)
    exact onPath_sublist hop hresult
  | error errno =>
    rw [hresult] at h
    exact report_sublist h

theorem afterEntries_sublist {retVal ret : ℤ} {st st' : RmState}
    (h : afterEntries sys cwd errmsg str retVal st = .ok (ret, st')) : st'.fs.Sublist st.fs := by
  rw [afterEntries] at h
  split at h
  · obtain ⟨-, rfl⟩ := Prod.mk.inj (Except.ok.inj h)
    exact List.Sublist.refl _
  · split at h
    · exact report_sublist h
    · split at h
      · exact finish_sublist unlink_removal h
      · exact finish_sublist remove_removal h

/-- **A call adds nothing.** -/
theorem rmobj_sublist : Shrinks (rmobj sys cwd errmsg depth) := by
  induction depth with
  | zero =>
    intro str st ret st' h
    cases h
  | succ depth ih =>
    intro str st ret st' h
    rw [rmobj] at h
    split at h
    · exact report_sublist h
    · split at h
      · split at h
        · exact report_sublist h
        · split at h
          · split at h
            · next retVal st₁ hloop =>
              exact (afterEntries_sublist h).trans (removeEntries_sublist ih hloop)
            · cases h
          · exact finish_sublist rmdir_removal h
      · exact finish_sublist unlink_removal h

/-! ### Calls that change nothing -/

/-- A run leaves the file system as it was just when `K` holds, and then it returns -1. -/
def Idle (fs : List Path) (K : Prop) (run : Except Halt (ℤ × RmState)) : Prop :=
  (K → ∃ msg, run = .ok (-1, ⟨fs, msg⟩)) ∧
    ∀ ret msg, run = .ok (ret, ⟨fs, msg⟩) → ret = -1 ∧ K

theorem report_idle {call : List Char} {errno : ℤ} (msg : Option (List Char)) :
    Idle fs (TextFits sys errmsg call str errno)
      (report errmsg (failed sys call str errno) ⟨fs, msg⟩) := by
  constructor
  · intro hfits
    rw [report]
    split
    · next herr =>
      rw [if_pos (hfits herr)]
      exact ⟨_, rfl⟩
    · exact ⟨_, rfl⟩
  · intro ret msg' h
    refine ⟨(report_fs h).1, fun herr => ?_⟩
    rw [report, if_pos herr] at h
    split at h
    · next hlen => exact hlen
    · cases h

/-- The removal of the object itself. -/
theorem finish_idle {op : List Path → Path → Except ℤ (List Path)} (hop : Removal sys op)
    (hobj : lstat sys cwd fs str = .ok obj) {call : List Char} (msg : Option (List Char)) :
    Idle fs (∃ errno, op fs obj = .error errno ∧ TextFits sys errmsg call str errno)
      (finish sys errmsg call str ⟨fs, msg⟩ (onPath sys cwd op fs str)) := by
  have honPath : onPath sys cwd op fs str = op fs obj := by rw [onPath, hobj]
  rw [honPath]
  cases hresult : op fs obj with
  | ok fs' =>
    constructor
    · rintro ⟨errno, herrno, -⟩
      cases herrno
    · intro ret msg' h
      obtain ⟨-, hst⟩ := Prod.mk.inj (Except.ok.inj h)
      obtain ⟨hmem, -, hfs'⟩ := hop fs obj fs' hresult
      obtain rfl : fs' = fs := congrArg RmState.fs hst
      rw [hfs'] at hmem
      exact absurd hmem (by simp)
  | error errno =>
    have hreport : Idle fs (TextFits sys errmsg call str errno) (report errmsg _ ⟨fs, msg⟩) :=
      report_idle msg
    obtain ⟨hfits, hidle⟩ := hreport
    constructor
    · rintro ⟨errno', herrno', hfits'⟩
      obtain rfl := Except.error.inj herrno'
      exact hfits hfits'
    · intro ret msg' h
      obtain ⟨hret, htext⟩ := hidle ret msg' h
      exact ⟨hret, errno, rfl, htext⟩

/-- The loop over the entries of a directory. -/
theorem removeEntries_idle {rm : List Char → RmState → Except Halt (ℤ × RmState)}
    (hrm : Shrinks rm) {K : String → Prop} {names : List String}
    (hnames : ∀ name ∈ names, name ≠ "." ∧ name ≠ "..")
    (hidle : ∀ name ∈ names, (dirobj str name).length < pathMax → ∀ msg,
      Idle fs (K name) (rm (dirobj str name) ⟨fs, msg⟩))
    {retVal : ℤ} (hret : names = [] → retVal = -1) (msg : Option (List Char)) :
    Idle fs (∀ name ∈ names, (dirobj str name).length < pathMax ∧ K name)
      (removeEntries (fun _ => rm) obj str names retVal ⟨fs, msg⟩) := by
  induction names generalizing retVal msg with
  | nil =>
    obtain rfl := hret rfl
    refine ⟨fun _ => ⟨msg, rfl⟩, fun ret msg' h => ?_⟩
    obtain ⟨rfl, -⟩ := Prod.mk.inj (Except.ok.inj h)
    exact ⟨rfl, by simp⟩
  | cons name names ih =>
    obtain ⟨hname, hnames⟩ := List.forall_mem_cons.mp hnames
    obtain ⟨hidle₁, hidle⟩ := List.forall_mem_cons.mp hidle
    rw [removeEntries, if_neg (not_or.mpr hname), List.forall_mem_cons]
    split
    · next hlen =>
      constructor
      · rintro ⟨⟨-, hK⟩, hrest⟩
        obtain ⟨msg₁, hstep⟩ := (hidle₁ hlen msg).1 hK
        rw [hstep]
        exact (ih hnames hidle (fun _ => rfl) msg₁).1 hrest
      · intro ret msg' h
        split at h
        · next ret₁ st₁ hstep =>
          -- the file system is the same after the run, so it is after the step
          have hsub := removeEntries_sublist hrm h
          obtain ⟨fs₁, msg₁⟩ := st₁
          obtain rfl : fs₁ = fs := (hrm _ _ _ _ hstep).antisymm hsub
          obtain ⟨rfl, hK⟩ := (hidle₁ hlen msg).2 ret₁ msg₁ hstep
          obtain ⟨hret', hrest⟩ := (ih hnames hidle (fun _ => rfl) msg₁).2 ret msg' h
          exact ⟨hret', ⟨hlen, hK⟩, hrest⟩
        · cases h
    · next hlen =>
      constructor
      · rintro ⟨⟨hlt, -⟩, -⟩
        exact absurd hlt hlen
      · intro ret msg' h
        cases h

theorem removal_of_not_directory (h : sys.kind obj ≠ .directory) :
    removal sys fs obj = (unlinkName, unlink sys fs obj) := by
  rw [removal]
  split
  · next hkind => exact absurd hkind h
  · rfl

theorem removal_of_directory (h : sys.kind obj = .directory) :
    removal sys fs obj = if sys.opens obj then (removeName, remove sys fs obj)
      else (rmdirName, rmdir sys fs obj) := by
  rw [removal, h]

/-- What the recursion does not go into. -/
theorem rmobj_idle_of_isEnd (hobj : lstat sys cwd fs str = .ok obj) (hstr : str ≠ ['/'])
    (hend : IsEnd sys fs obj) (msg : Option (List Char)) :
    Idle fs (Refused sys errmsg fs obj str)
      (rmobj sys cwd errmsg (depth + 1) str ⟨fs, msg⟩) := by
  rw [Refused, rmobj]
  dsimp only
  rw [hobj]
  dsimp only
  split
  · next hkind =>
    rw [if_neg hstr, removal_of_directory hkind]
    by_cases hopen : sys.opens obj = true
    · have hnil := hend hkind hopen
      have hlinks : nlink sys fs obj = 2 := by
        rw [nlink, hnil]
        rfl
      rw [if_pos hopen, if_pos hopen, removeEntries_readdir, hnil, removeEntries]
      dsimp only
      rw [afterEntries, if_neg (by decide)]
      dsimp only
      rw [hobj]
      dsimp only
      rw [hlinks, if_neg (by decide)]
      exact finish_idle remove_removal hobj msg
    · rw [if_neg hopen, if_neg hopen]
      exact finish_idle rmdir_removal hobj msg
  · next hkind =>
    rw [removal_of_not_directory hkind]
    exact finish_idle unlink_removal hobj msg

/-- A directory that the recursion goes into. -/
theorem rmobj_idle_of_not_isEnd (hobj : lstat sys cwd fs str = .ok obj) (hstr : str ≠ ['/'])
    (hend : ¬IsEnd sys fs obj) {K : Prop}
    (hloop : ∀ msg, Idle fs K (removeEntries (fun _ => rmobj sys cwd errmsg depth) obj str
      (children fs obj) 0 ⟨fs, msg⟩)) (msg : Option (List Char)) :
    Idle fs K (rmobj sys cwd errmsg (depth + 1) str ⟨fs, msg⟩) := by
  rw [IsEnd, Classical.not_imp, Classical.not_imp] at hend
  obtain ⟨hkind, hopen, -⟩ := hend
  rw [rmobj]
  dsimp only
  rw [hobj]
  dsimp only
  rw [hkind]
  dsimp only
  rw [if_neg hstr, if_pos hopen, removeEntries_readdir]
  obtain ⟨hall, hidle⟩ := hloop msg
  constructor
  · intro hK
    obtain ⟨msg', hrun⟩ := hall hK
    rw [hrun]
    exact ⟨msg', if_pos rfl⟩
  · intro ret msg' h
    split at h
    · next retVal st₁ hrun =>
      have hsub := afterEntries_sublist h
      obtain ⟨fs₁, msg₁⟩ := st₁
      obtain rfl : fs₁ = fs := (removeEntries_sublist rmobj_sublist hrun).antisymm hsub
      obtain ⟨rfl, hK⟩ := hidle retVal msg₁ hrun
      obtain ⟨rfl, -⟩ := Prod.mk.inj (Except.ok.inj h)
      exact ⟨rfl, hK⟩
    · cases h

/-- **A call that changes nothing.** A call on an object, by a string other than `/`, leaves the
file system as it was if and only if nothing that the recursion comes to can be removed. -/
theorem rmobj_idle (h : IsFileSystem sys fs) (hobj : lstat sys cwd fs str = .ok obj)
    (hstr : str ≠ ['/']) (msg : Option (List Char)) :
    Idle fs (AllRefused sys errmsg depth fs obj str)
      (rmobj sys cwd errmsg depth str ⟨fs, msg⟩) := by
  have hmem := mem_of_lstat h hobj
  induction depth generalizing obj str msg with
  | zero =>
    constructor
    · exact fun hall => absurd (hall.length_lt_depth [] (.nil hmem)) (by simp)
    · intro ret msg' hrun
      cases hrun
  | succ depth ih =>
    by_cases hend : IsEnd sys fs obj
    · rw [allRefused_iff_of_isEnd h hmem hend]
      exact rmobj_idle_of_isEnd hobj hstr hend msg
    · rw [allRefused_iff_of_not_isEnd h hend]
      refine rmobj_idle_of_not_isEnd hobj hstr hend (fun msg => ?_) msg
      refine removeEntries_idle rmobj_sublist (fun name hname => h.ne_dots hname)
        (fun name hname hlen msg => ?_) (fun hnil => absurd (fun _ _ => hnil) hend) msg
      have hne := (lstat_eq_ok_iff.mp hobj).1
      have hchild := mem_children.mp hname
      have hlookup := lstat_dirobj h hobj (h.child hname).1 (h.child hname).2 hlen
      rw [if_pos hchild] at hlookup
      exact ih hlookup (dirobj_ne hne name).2 msg hchild

/-! ### The root -/

/-- The string `/` is refused. -/
theorem keepsRoot_of_eq (h : IsFileSystem sys fs) : KeepsRoot sys cwd errmsg depth fs ['/'] := by
  have hlen : cannotRemove.length < sizeofErrMsg := by decide
  rw [KeepsRoot, rmobj]
  dsimp only
  rw [lstat_slash h]
  dsimp only
  rw [h.root_kind]
  dsimp only
  rw [if_pos rfl, report, if_pos hlen]
  split
  · exact ⟨_, rfl, rfl⟩
  · exact ⟨_, rfl, rfl⟩

/-- **The root.** A call with a string that resolves to the root returns -1 and leaves the file
system as it was, if and only if the string is `/` itself or nothing that the recursion comes to
from the object with that name can be removed. -/
theorem keepsRoot_iff (h : IsFileSystem sys fs) (hroot : stat sys cwd fs str = .ok []) :
    KeepsRoot sys cwd errmsg depth fs str ↔
      str = ['/'] ∨ ∃ obj, lstat sys cwd fs str = .ok obj ∧
        AllRefused sys errmsg (depth + 1) fs obj str := by
  by_cases hstr : str = ['/']
  · subst hstr
    exact iff_of_true (keepsRoot_of_eq h) (.inl rfl)
  · rw [or_iff_right hstr]
    obtain ⟨obj, hobj⟩ := exists_lstat_of_stat hroot
    have hrun : Idle fs (AllRefused sys errmsg (depth + 1) fs obj str) _ :=
      rmobj_idle h hobj hstr none
    obtain ⟨hall, hidle⟩ := hrun
    constructor
    · rintro ⟨⟨fs', msg⟩, hrun, rfl⟩
      exact ⟨obj, hobj, (hidle (-1) msg hrun).2⟩
    · rintro ⟨obj', hobj', hrefused⟩
      obtain rfl := Except.ok.inj (hobj.symm.trans hobj')
      obtain ⟨msg, hrun⟩ := hall hrefused
      exact ⟨_, hrun, rfl⟩

/-- Directories that the system does not remove. -/
def readOnlySystem : System where
  kind _ := .directory
  opens _ := true
  refusal _ := some 30
  strerror _ := "Read-only file system".toList

theorem keepsRoot_readOnly :
    KeepsRoot readOnlySystem [] true 1 [[], ["tmp"]] "/tmp/..".toList := by
  have hfs : IsFileSystem readOnlySystem [[], ["tmp"]] := by
    refine ⟨by decide, rfl, fun p name hmem => ?_⟩
    obtain ⟨rfl, rfl⟩ : p = [] ∧ name = "tmp" := by
      cases p <;> simp_all
    decide
  refine (keepsRoot_iff hfs (by decide)).mpr (.inr ⟨[], by decide, ?_⟩)
  have hnames (names : List String) (h : Reached readOnlySystem [[], ["tmp"]] [] names) :
      names = [] ∨ names = ["tmp"] := by
    simpa using h.1
  constructor
  · intro names hreached
    obtain rfl | rfl := hnames names hreached
    · decide
    · decide
  · intro names hreached hne
    obtain rfl := (hnames names hreached).resolve_left hne
    decide
  · intro names hreached hend
    obtain rfl | rfl := hnames names hreached
    · exact absurd (hend rfl rfl) (by decide)
    · exact ⟨30, by decide, fun _ => by decide⟩

/-- A root that cannot be removed, with a file in it. -/
def busySystem : System where
  kind p := if p = [] then .directory else .file
  opens _ := true
  refusal p := if p = [] then some 16 else none
  strerror _ := "Device or resource busy".toList

/-- The string `//` names the root, and the file in it is removed. -/
theorem twoSlashes_not_keepsRoot :
    IsFileSystem busySystem [[], ["a"]] ∧ stat busySystem [] [[], ["a"]] "//".toList = .ok [] ∧
      ¬KeepsRoot busySystem [] false 1 [[], ["a"]] "//".toList := by
  refine ⟨⟨by decide, rfl, fun p name hmem => ?_⟩, by decide, ?_⟩
  · obtain ⟨rfl, rfl⟩ : p = [] ∧ name = "a" := by
      cases p <;> simp_all
    decide
  · have hrun : rmobj busySystem [] false 2 "//".toList ⟨[[], ["a"]], none⟩ =
        .ok (-1, ⟨[[]], none⟩) := by decide
    rintro ⟨st, hst, hfs⟩
    rw [hrun] at hst
    obtain ⟨-, rfl⟩ := Prod.mk.inj (Except.ok.inj hst)
    exact absurd hfs (by decide)

end RootPath

end SnowballLtp
