import SnowballLtp.Ltp.RmObjStrings
import SnowballLtp.Ltp.TstExit
import SnowballLtp.Machine.Dirname

/-!
# The temporary directory of a test

`tst_tmpdir` makes a directory of a new name in `TMPDIR` and enters it; `tst_rmdir` leaves it and
removes it with everything that the test has put into it. The directory is kept as a string, which
is looked up again from wherever the test has gone.

## Main definitions

* `tstTmpdir`, `tstRmdir`, `getTstTmpdir`.
* `Inside`: what a test may do between the two.

## Main results

* `tstRmdir_removes_only`: what `tst_rmdir` removes, whatever the test has done.
* `restores_iff`: when the file system is afterwards what it was before.
* `relative_kept`: a directory that is never removed.
-/

namespace SnowballLtp

namespace TstTmpdir

open RmObjPath RmObjStrings
open RmObj hiding rmobj

/-! ### The functions -/

/-- `TEMPDIR`. -/
def tempdir : List Char := "/tmp".toList

def eexist : ℤ := 17
def einval : ℤ := 22

/-- What a process reads from outside: the environment, the inode numbers, and the directories that
it may not make, chown, chmod or enter, with the error. -/
structure Env where
  /-- `getenv (TDIRECTORY)`. -/
  tdirectory : Option (List Char)
  /-- `getenv ("TMPDIR")`. -/
  tmpdir : Option (List Char)
  /-- `TCID`. -/
  tcid : List Char
  /-- `getgid ()`. -/
  gid : ℤ
  ino : Path → ℕ
  mkdirRefusal : Path → Option ℤ
  chownRefusal : Path → Option ℤ
  chmodRefusal : Path → Option ℤ
  chdirRefusal : Path → Option ℤ
  /-- The letters that `mkdtemp` tries last. -/
  pick : { letters : List Char // letters.length = 6 ∧ ∀ c ∈ letters, c.isAlphanum }
  /-- The size of a pointer. -/
  sizeofPointer : ℕ
  /-- The calls of `rmobj` for which the stack has room. -/
  depth : ℕ

/-- A process: the objects that there are, its working directory, `TESTDIR`, and the results it has
reported with `tst_resm`. -/
structure Session where
  sys : System
  fs : List Path
  cwd : Path
  testdir : Option (List Char)
  results : List (BitVec 32 × List Char)

/-- How a function ends: it returns, or a call of `tst_brkm` ends the process, or there is no
result. -/
inductive Ending where
  | returned (s : Session)
  | exited (s : Session) (brk : TstRes.Program)
  | halted (s : Session) (halt : Halt)

/-- `tst_resm`. -/
def Session.resm (ttype : BitVec 32) (mesg : List Char) (s : Session) : Session :=
  { s with results := s.results ++ [(ttype, mesg)] }

/-- The directory entry that `mkdir` is to make. -/
def newEntry (s : Session) (str : List Char) : Except ℤ Path :=
  let names := (components str).rdropWhile (· = [])
  if str = [] then .error enoent
  else if str.length < pathMax then
    match names.getLast? with
    | none => .error eexist
    | some name =>
      match walk (entryAt s.sys s.fs) maxSymlinks (names.dropLast ++ [[]]) (startOf str s.cwd) with
      | .error errno => .error errno
      | .ok dir =>
        if name = ['.'] ∨ name = ['.', '.'] then .error eexist
        else if s.fs.contains (dir ++ [String.ofList name]) then .error eexist
        else .ok (dir ++ [String.ofList name])
  else .error enametoolong

/-- A new directory in the file system. -/
def Session.addDirectory (s : Session) (p : Path) : Session :=
  { s with
    sys := { s.sys with kind := Function.update s.sys.kind p .directory }
    fs := s.fs ++ [p] }

variable (env : Env)

/-- `mkdir`. -/
def mkdir (str : List Char) (s : Session) : Except ℤ Session :=
  match newEntry s str with
  | .error errno => .error errno
  | .ok p =>
    match env.mkdirRefusal p with
    | some errno => .error errno
    | none => .ok (s.addDirectory p)

/-- The string with its last six characters replaced. -/
def withPick (template : List Char) : List Char :=
  template.take (template.length - 6) ++ env.pick.val

/-- `mkdtemp`, with what it leaves in its argument. -/
def mkdtemp (template : List Char) (s : Session) : List Char × Except ℤ Session :=
  if template.drop (template.length - 6) = "XXXXXX".toList then
    (withPick env template, mkdir env (withPick env template) s)
  else (template, .error einval)

/-- A call on a directory that changes nothing that matters here. -/
def onDirectory (refusal : Path → Option ℤ) (str : List Char) (s : Session) : Except ℤ Unit :=
  match stat s.sys s.cwd s.fs str with
  | .error errno => .error errno
  | .ok p =>
    match refusal p with
    | some errno => .error errno
    | none => .ok ()

/-- `chdir`. -/
def chdir (str : List Char) (s : Session) : Except ℤ Session :=
  match stat s.sys s.cwd s.fs str with
  | .error errno => .error errno
  | .ok p =>
    match env.chdirRefusal p with
    | some errno => .error errno
    | none => .ok { s with cwd := p }

/-- `tmpdir_cleanup`. -/
def tmpdirCleanup : TstRes.Program :=
  .brk TstRes.twarn none
    "tmpdir_cleanup: no user cleanup function called before exiting".toList .ret

/-- `tst_brkm` with the type `TBROK|TERRNO` and no cleanup function. -/
def broken (mesg : List Char) : TstRes.Program :=
  .brk (TstRes.tbrok ||| TstRes.terrno) none mesg .ret

/-- The template of the name. `snprintf` cuts it to the size of the buffer. -/
def template : List Char :=
  (env.tmpdir.getD tempdir ++ '/' :: (env.tcid.take 3 ++ "XXXXXX".toList)).take (pathMax - 1)

/-- The end of `tst_tmpdir`. What stands behind its last `tst_brkm` is not reached. -/
def enterTestdir (str : List Char) (s : Session) : Ending :=
  match chdir env str s with
  | .ok s => .returned s
  | .error _ => .exited s (broken ("tst_tmpdir: chdir(".toList ++ str ++ ") failed".toList))

/-- `tst_tmpdir`, called outside of the cleanup functions. -/
def tstTmpdir (s : Session) : Ending :=
  match env.tdirectory with
  | some dir =>
    match mkdir env dir { s with testdir := some dir } with
    | .ok s => enterTestdir env dir s
    | .error errno =>
      if errno = eexist then enterTestdir env dir { s with testdir := some dir }
      else .exited { s with testdir := some dir }
        (.brk TstRes.tbrok none ("mkdir(".toList ++ dir ++ ", 777) failed".toList) .ret)
  | none =>
    match mkdtemp env (template env) { s with testdir := none } with
    | (made, .error _) =>
      .exited { s with testdir := none }
        (.brkWith (TstRes.tbrok ||| TstRes.terrno) none
          ("tst_tmpdir: mkdtemp(".toList ++ made ++ ") failed".toList) tmpdirCleanup .ret)
    | (made, .ok s) =>
      let s := { s with testdir := some made }
      match onDirectory env.chownRefusal made s with
      | .error _ => .exited s (broken
          ("chown(".toList ++ made ++ ", -1, ".toList ++ decimal env.gid ++ ") failed".toList))
      | .ok () =>
        match onDirectory env.chmodRefusal made s with
        | .error _ => .exited s (broken ("chmod(".toList ++ made ++ ", 0777) failed".toList))
        | .ok () => enterTestdir env made s

/-- `get_tst_tmpdir`, outside of the cleanup functions. -/
def getTstTmpdir (s : Session) : Except TstRes.Program (List Char) :=
  match s.testdir with
  | none => .error (.brk TstRes.tbrok none "you must call tst_tmpdir() first".toList .ret)
  | some dir => .ok dir

/-- The text of the working directory. -/
def cwdText (p : Path) : List Char := if p = [] then ['/'] else pathStr [] p

/-- `getcwd`, into a buffer of `PATH_MAX` bytes. -/
def getcwd (s : Session) : Option (List Char) :=
  if s.fs.contains s.cwd then
    if (cwdText s.cwd).length < pathMax then some (cwdText s.cwd) else none
  else none

/-- What `parent_dir` holds before `dirname`. Where there is no text of the working directory,
`strncpy` is given the size of a pointer and may leave the string without an end. -/
def parentDir (dir : List Char) (s : Session) : Except Fault (List Char) :=
  if dir.head? = some '/' then
    if dir.length < pathMax then .ok dir else .error .outOfBounds
  else
    match getcwd s with
    | none => if dir.length < env.sizeofPointer then .ok dir else .error .outOfBounds
    | some cur =>
      if (cur ++ '/' :: dir).length < pathMax then .ok (cur ++ '/' :: dir)
      else .error .outOfBounds

/-- Whether `TESTDIR` has the inode number of the root. -/
def isRoot (dir : List Char) (s : Session) : Bool :=
  match stat s.sys s.cwd s.fs dir, stat s.sys s.cwd s.fs ['/'] with
  | .ok p, .ok root => env.ino p = env.ino root
  | _, _ => false

/-- The directory that is above `TESTDIR` is entered, if that is possible. -/
def enterParent (parent : List Char) (s : Session) : Session :=
  match chdir env parent s with
  | .ok s => s
  | .error _ => s.resm (TstRes.twarn ||| TstRes.terrno) ("tst_rmdir: chdir(".toList ++ parent ++
      ") failed\nAttempting to remove temp dir anyway".toList)

/-- The call of `rmobj`. -/
def removeTestdir (dir : List Char) (s : Session) : Ending :=
  match rmobj s.sys s.cwd true env.depth dir ⟨s.fs, none⟩ with
  | .error halt => .halted s halt
  | .ok (ret, st) =>
    if ret = -1 then
      .returned ({ s with fs := st.fs }.resm TstRes.twarn ("tst_rmdir: rmobj(".toList ++ dir ++
        ") failed: ".toList ++ st.errMsg.getD []))
    else .returned { s with fs := st.fs }

/-- `tst_rmdir`. -/
def tstRmdir (s : Session) : Ending :=
  match env.tdirectory with
  | some _ => .returned s
  | none =>
    match s.testdir with
    | none => .returned (s.resm TstRes.twarn
        "tst_rmdir: TESTDIR was NULL; no removal attempted".toList)
    | some dir =>
      if isRoot env dir s then .returned (s.resm TstRes.twarn "tst_rmdir: will not remove /".toList)
      else if dir.contains '*' then
        .returned (s.resm TstRes.twarn "tst_rmdir: will not remove *".toList)
      else
        match parentDir env dir s with
        | .error fault => .halted s (.fault fault)
        | .ok parent => removeTestdir env dir (enterParent env (dirname parent) s)

variable {env : Env} {s s' s₁ s₂ : Session} {made : List Char} {dir p : Path} {name : String}

/-! ### What `tst_tmpdir` makes -/

/-- The process `s` has made the directory `name` in `dir`, by the string `made`, and is in it. -/
structure Entered (s s₁ : Session) (made : List Char) (dir : Path) (name : String) : Prop where
  isComponent : IsComponent name.toList
  looks : ∃ init, components made = init ++ [name.toList] ∧
    Looks (entryAt s.sys s.fs) maxSymlinks (init ++ [[]]) (startOf made s.cwd) dir
  ne_nil : made ≠ []
  length_lt : made.length < pathMax
  new : dir ++ [name] ∉ s.fs
  session : s₁ = { s.addDirectory (dir ++ [name]) with
    cwd := dir ++ [name], testdir := some made }

theorem Entered.cwd (h : Entered s s₁ made dir name) : s₁.cwd = dir ++ [name] := by
  rw [h.session]

theorem Entered.testdir (h : Entered s s₁ made dir name) : s₁.testdir = some made := by
  rw [h.session]

theorem Entered.mem_iff (h : Entered s s₁ made dir name) {q : Path} :
    q ∈ s₁.fs ↔ q ∈ s.fs ∨ q = dir ++ [name] := by
  rw [h.session]
  exact List.mem_append.trans (or_congr_right List.mem_singleton)

theorem Entered.kind_of_mem (h : Entered s s₁ made dir name) {q : Path} (hq : q ∈ s.fs) :
    s₁.sys.kind q = s.sys.kind q := by
  rw [h.session]
  refine Function.update_of_ne ?_ _ _
  rintro rfl
  exact h.new hq

theorem Entered.kind (h : Entered s s₁ made dir name) :
    s₁.sys.kind (dir ++ [name]) = .directory := by
  rw [h.session]
  exact Function.update_self _ _ _

theorem Entered.endsInName (h : Entered s s₁ made dir name) : EndsInName made := by
  obtain ⟨init, hcomponents, -⟩ := h.looks
  exact ⟨init, name.toList, hcomponents, h.isComponent⟩

/-- Nothing that was there before is below the new directory. -/
theorem Entered.not_below (h : Entered s s₁ made dir name) (hfs : IsFileSystem s.sys s.fs)
    {q : Path} (hq : q ∈ s.fs) : ¬dir ++ [name] <+: q := by
  rintro ⟨names, rfl⟩
  exact h.new (hfs.mem_of_append hq)

/-- The string that `mkdtemp` leaves ends in a name. -/
theorem endsInName_withPick (env : Env) (template : List Char) :
    EndsInName (withPick env template) := by
  obtain ⟨hlength, halnum⟩ := env.pick.property
  have hslash : '/' ∉ env.pick.val := fun hmem => absurd (halnum '/' hmem) (by decide)
  obtain ⟨init, name, hcomponents, hname⟩ :=
    exists_components_append (template.take (template.length - 6)) hslash
  have hlen : 6 ≤ (name ++ env.pick.val).length := by
    rw [List.length_append, hlength]
    omega
  refine ⟨init, name ++ env.pick.val, hcomponents, by simp [hname, hslash], ?_, ?_, ?_⟩
  · exact fun heq => by simp [heq] at hlen
  · exact fun heq => by simp [heq] at hlen
  · exact fun heq => by simp [heq] at hlen

/-- The entry that `mkdir` is to make for a string that ends in a name. -/
theorem newEntry_of_endsInName (hlast : EndsInName made) (h : newEntry s made = .ok p) :
    ∃ dir name, p = dir ++ [name] ∧ IsComponent name.toList ∧
      (∃ init, components made = init ++ [name.toList] ∧
        Looks (entryAt s.sys s.fs) maxSymlinks (init ++ [[]]) (startOf made s.cwd) dir) ∧
      made ≠ [] ∧ made.length < pathMax ∧ p ∉ s.fs := by
  obtain ⟨init, last, hcomponents, hname⟩ := hlast
  have htrim : (components made).rdropWhile (· = []) = init ++ [last] := by
    rw [hcomponents, List.rdropWhile_concat_neg _ _ _ (by simpa using hname.2.1)]
  dsimp only [newEntry] at h
  rw [htrim, List.getLast?_concat, List.dropLast_concat] at h
  split_ifs at h with hnil hlen
  dsimp only at h
  split at h
  · cases h
  · next dir hwalk =>
    rw [if_neg (not_or.mpr ⟨hname.2.2.1, hname.2.2.2⟩)] at h
    split_ifs at h with hmem
    obtain rfl := Except.ok.inj h
    refine ⟨dir, String.ofList last, rfl, by simpa using hname, ⟨init, ?_, walk_eq_ok_iff.mp hwalk⟩,
      hnil, hlen, ?_⟩
    · rw [String.toList_ofList, hcomponents]
    · simpa using hmem

theorem exists_of_mkdir (h : mkdir env made s = .ok s') :
    ∃ p, newEntry s made = .ok p ∧ s' = s.addDirectory p := by
  rw [mkdir] at h
  split at h
  · cases h
  · next p hp =>
    split at h
    · cases h
    · exact ⟨p, hp, (Except.ok.inj h).symm⟩

theorem exists_of_chdir (h : chdir env made s = .ok s') :
    ∃ p, stat s.sys s.cwd s.fs made = .ok p ∧ s' = { s with cwd := p } := by
  rw [chdir] at h
  split at h
  · cases h
  · next p hp =>
    split at h
    · cases h
    · exact ⟨p, hp, (Except.ok.inj h).symm⟩

theorem exists_of_enterTestdir (h : enterTestdir env made s = .returned s') :
    ∃ p, stat s.sys s.cwd s.fs made = .ok p ∧ s' = { s with cwd := p } := by
  rw [enterTestdir] at h
  split at h
  · next hchdir =>
    obtain rfl := Ending.returned.inj h
    exact exists_of_chdir hchdir
  · cases h

/-- A call of `tst_tmpdir` that returns has made the directory and entered it. -/
theorem mkdir_of_returned (htdirectory : env.tdirectory = none)
    (h : tstTmpdir env s = .returned s₁) :
    ∃ p cwd, newEntry s (withPick env (template env)) = .ok p ∧
      stat (s.addDirectory p).sys s.cwd (s.addDirectory p).fs (withPick env (template env)) =
        .ok cwd ∧
      s₁ = { s.addDirectory p with
        cwd := cwd, testdir := some (withPick env (template env)) } := by
  rw [tstTmpdir, htdirectory] at h
  dsimp only at h
  split at h
  · cases h
  · next made s₀ hmkdtemp =>
    rw [mkdtemp] at hmkdtemp
    split_ifs at hmkdtemp
    · obtain ⟨rfl, hmkdir⟩ := Prod.mk.inj hmkdtemp
      obtain ⟨p, hp, rfl⟩ := exists_of_mkdir hmkdir
      split at h
      · cases h
      · split at h
        · cases h
        · obtain ⟨cwd, hcwd, rfl⟩ := exists_of_enterTestdir h
          exact ⟨p, cwd, hp, hcwd, rfl⟩
    · cases (Prod.mk.inj hmkdtemp).2

/-- An entry that was there before is still what it was. -/
theorem entryAt_addDirectory (hp : p ∉ s.fs) {q : Path} {e : PathEntry}
    (h : entryAt s.sys s.fs q = some e) :
    entryAt (s.addDirectory p).sys (s.addDirectory p).fs q = some e := by
  refine entryAt_of_mem h (fun hq => List.mem_append_left _ hq) fun hq => ?_
  refine Function.update_of_ne ?_ _ _
  rintro rfl
  exact hp hq

/-- **What `tst_tmpdir` makes.** -/
theorem entered_of_returned (htdirectory : env.tdirectory = none)
    (h : tstTmpdir env s = .returned s₁) : ∃ made dir name, Entered s s₁ made dir name := by
  obtain ⟨p, cwd, hp, hcwd, rfl⟩ := mkdir_of_returned htdirectory h
  obtain ⟨dir, name, rfl, hname, ⟨init, hcomponents, hlooks⟩, hne, hlen, hnew⟩ :=
    newEntry_of_endsInName (endsInName_withPick env _) hp
  obtain rfl : cwd = dir ++ [name] := by
    have hmem : dir ++ [name] ∈ (s.addDirectory (dir ++ [name])).fs :=
      List.mem_append_right _ (List.mem_singleton_self _)
    have hkind : (s.addDirectory (dir ++ [name])).sys.kind (dir ++ [name]) = .directory :=
      Function.update_self _ _ _
    have hmade := ((hlooks.mono fun _ _ => entryAt_addDirectory hnew).concat hname
      (entryAt_ne_none_iff.mpr hmem)).concat_nil (entryAt_of_directory hmem hkind)
    rw [← hcomponents] at hmade
    have hstat := stat_eq_ok_iff.mpr ⟨hne, hlen, hmade⟩
    exact Except.ok.inj (hcwd.symm.trans hstat)
  exact ⟨_, dir, name, hname, ⟨init, hcomponents, hlooks⟩, hne, hlen, hnew, rfl⟩

/-! ### What `tst_rmdir` removes -/

theorem stat_slash (hfs : IsFileSystem s.sys s.fs) : stat s.sys s.cwd s.fs ['/'] = .ok [] := by
  have hdir := entryAt_of_directory hfs.root hfs.root_kind
  refine stat_eq_ok_iff.mpr ⟨by decide, by decide, ?_⟩
  have hcomponents : components ['/'] ++ [[]] = [[], [], []] := by decide
  rw [hcomponents]
  exact .stay hdir (.inl rfl) (.stay hdir (.inl rfl) (.stay hdir (.inl rfl) .done))

/-- The check that `TESTDIR` is not the root. -/
theorem isRoot_iff (hfs : IsFileSystem s.sys s.fs) (hstat : stat s.sys s.cwd s.fs made = .ok p) :
    isRoot env made s = true ↔ env.ino p = env.ino [] := by
  rw [isRoot, hstat, stat_slash hfs]
  exact decide_eq_true_iff

theorem stat_of_lstat_root (hfs : IsFileSystem s.sys s.fs)
    (hobj : lstat s.sys s.cwd s.fs made = .ok []) : stat s.sys s.cwd s.fs made = .ok [] := by
  obtain ⟨hne, hlen, hlooks⟩ := lstat_eq_ok_iff.mp hobj
  exact stat_eq_ok_iff.mpr
    ⟨hne, hlen, hlooks.concat_nil (entryAt_of_directory hfs.root hfs.root_kind)⟩

@[simp] theorem enterParent_fs (parent : List Char) (s : Session) :
    (enterParent env parent s).fs = s.fs := by
  rw [enterParent]
  split
  · next hchdir =>
    obtain ⟨_, -, rfl⟩ := exists_of_chdir hchdir
    rfl
  · rfl

@[simp] theorem enterParent_sys (parent : List Char) (s : Session) :
    (enterParent env parent s).sys = s.sys := by
  rw [enterParent]
  split
  · next hchdir =>
    obtain ⟨_, -, rfl⟩ := exists_of_chdir hchdir
    rfl
  · rfl

/-- A call of `tst_rmdir` that returns has called `rmobj`, or has removed nothing. -/
theorem tstRmdir_cases (h : tstRmdir env s = .returned s') :
    s'.fs = s.fs ∨ ∃ made parent ret st, env.tdirectory = none ∧ s.testdir = some made ∧
      isRoot env made s = false ∧ '*' ∉ made ∧ parentDir env made s = .ok parent ∧
      rmobj s.sys (enterParent env (dirname parent) s).cwd true env.depth made ⟨s.fs, none⟩ =
        .ok (ret, st) ∧ s'.fs = st.fs := by
  rw [tstRmdir] at h
  split at h
  · obtain rfl := Ending.returned.inj h
    exact .inl rfl
  · next htdirectory =>
    split at h
    · obtain rfl := Ending.returned.inj h
      exact .inl rfl
    · next made hmade =>
      split_ifs at h with hroot hstar
      · obtain rfl := Ending.returned.inj h
        exact .inl rfl
      · obtain rfl := Ending.returned.inj h
        exact .inl rfl
      · split at h
        · cases h
        · next parent hparent =>
          rw [removeTestdir, enterParent_sys, enterParent_fs] at h
          split at h
          · cases h
          · next ret st hrun =>
            have hfs : s'.fs = st.fs := by
              split_ifs at h
              · rw [← Ending.returned.inj h]
                rfl
              · rw [← Ending.returned.inj h]
            exact .inr ⟨made, parent, ret, st, htdirectory, hmade, by simpa using hroot,
              by simpa using hstar, hparent, hrun, hfs⟩

theorem startOf_of_absolute (habs : made.head? = some '/') (cwd : Path) : startOf made cwd = [] :=
  if_pos habs

theorem lstat_of_absolute (habs : made.head? = some '/') {sys : System} {fs : List Path}
    (cwd cwd' : Path) : lstat sys cwd fs made = lstat sys cwd' fs made := by
  rw [lstat, lstat, lookup, lookup, startOf_of_absolute habs, startOf_of_absolute habs]

/-- **What `tst_rmdir` removes.** With the full path of a directory in `TESTDIR`, `tst_rmdir`
removes only the object that the path names and what is below it, and this is not the root.
Nothing goes below which the system refuses to remove something. -/
theorem tstRmdir_removes_only (hroot : s.sys.refusal [] ≠ none) (hfs : IsFileSystem s.sys s.fs)
    (habs : ∀ made ∈ s.testdir, made.head? = some '/') (h : tstRmdir env s = .returned s') :
    IsFileSystem s.sys s'.fs ∧ s'.fs ⊆ s.fs ∧
      ∀ q ∈ s.fs, q ∉ s'.fs → ∃ made obj, s.testdir = some made ∧
        lstat s.sys s.cwd s.fs made = .ok obj ∧ obj ≠ [] ∧ obj <+: q ∧
        ¬Blocked s.sys s.fs q := by
  obtain heq | ⟨made, parent, ret, st, -, hmade, hnot, -, -, hrun, heq⟩ := tstRmdir_cases h
  · rw [heq]
    exact ⟨hfs, List.Subset.refl _, fun q hq hgone => absurd hq hgone⟩
  · obtain ⟨hfs', hsub, hremoved, -, -⟩ := rmobj_removes_only hroot hfs hrun
    rw [heq]
    refine ⟨hfs', hsub, fun q hq hgone => ?_⟩
    obtain ⟨obj, hobj, hpre, hblocked⟩ := hremoved q hq hgone
    dsimp only at hobj
    rw [lstat_of_absolute (habs made hmade) _ s.cwd] at hobj
    refine ⟨made, obj, hmade, hobj, ?_, hpre, hblocked⟩
    rintro rfl
    have hino : isRoot env made s = true :=
      (isRoot_iff hfs (stat_of_lstat_root hfs hobj)).mpr rfl
    rw [hnot] at hino
    cases hino

/-! ### The two together -/

/-- What a test may do in its directory: everything below it. It may also go elsewhere. -/
structure Inside (s₁ s₂ : Session) : Prop where
  isFileSystem : IsFileSystem s₂.sys s₂.fs
  nodup : s₂.fs.Nodup
  testdir : s₂.testdir = s₁.testdir
  mem_iff : ∀ q, ¬Below s₁.cwd q → (q ∈ s₂.fs ↔ q ∈ s₁.fs)
  kind : ∀ q, ¬Below s₁.cwd q → q ∈ s₁.fs → s₂.sys.kind q = s₁.sys.kind q
  /-- A working directory that has not been removed is a directory. -/
  cwd : s₂.cwd ∈ s₂.fs → s₂.sys.kind s₂.cwd = .directory

/-- What was there before the directory was made is there when the test is over. -/
theorem Entered.entryAt (h : Entered s s₁ made dir name) (hfs : IsFileSystem s.sys s.fs)
    (hinside : Inside s₁ s₂) {q : Path} {e : PathEntry} (hq : entryAt s.sys s.fs q = some e) :
    RmObjPath.entryAt s₂.sys (emptied s₂.fs (dir ++ [name])) q = some e := by
  refine entryAt_of_mem hq (fun hmem => ?_) fun hmem => ?_
  · have hnot : ¬Below (dir ++ [name]) q := fun hbelow => h.not_below hfs hmem hbelow.1
    refine mem_emptied.mpr ⟨(hinside.mem_iff q ?_).mpr (h.mem_iff.mpr (.inl hmem)), hnot⟩
    rwa [h.cwd]
  · have hnot : ¬Below s₁.cwd q := fun hbelow => h.not_below hfs hmem (h.cwd ▸ hbelow.1)
    rw [hinside.kind q hnot (h.mem_iff.mpr (.inl hmem)), h.kind_of_mem hmem]

theorem not_below_self (obj : Path) : ¬Below obj obj := fun h => h.2 rfl

/-- The new directory is still there. -/
theorem Entered.mem_inside (h : Entered s s₁ made dir name) (hinside : Inside s₁ s₂) :
    dir ++ [name] ∈ s₂.fs ∧ s₂.sys.kind (dir ++ [name]) = .directory := by
  have hnot : ¬Below s₁.cwd (dir ++ [name]) := h.cwd ▸ not_below_self _
  have hmem : dir ++ [name] ∈ s₁.fs := h.mem_iff.mpr (.inr rfl)
  exact ⟨(hinside.mem_iff _ hnot).mpr hmem, (hinside.kind _ hnot hmem).trans h.kind⟩

/-- The string still names the new directory, from every working directory if it is absolute. -/
theorem Entered.namesFromAbove (h : Entered s s₁ made dir name) (hfs : IsFileSystem s.sys s.fs)
    (hinside : Inside s₁ s₂) {cwd : Path} (hstart : startOf made cwd = startOf made s.cwd) :
    NamesFromAbove s₂.sys cwd s₂.fs made (dir ++ [name]) := by
  obtain ⟨init, hcomponents, hlooks⟩ := h.looks
  obtain ⟨hmem, hkind⟩ := h.mem_inside hinside
  refine lstat_eq_ok_iff.mpr ⟨h.ne_nil, h.length_lt, ?_⟩
  rw [hcomponents, hstart]
  exact (hlooks.mono fun _ _ => h.entryAt hfs hinside).concat h.isComponent
    (entryAt_ne_none_iff.mpr (mem_emptied.mpr ⟨hmem, not_below_self _⟩))

theorem Entered.stat (h : Entered s s₁ made dir name) (hfs : IsFileSystem s.sys s.fs)
    (hinside : Inside s₁ s₂) {cwd : Path} (hstart : startOf made cwd = startOf made s.cwd) :
    RmObjPath.stat s₂.sys cwd s₂.fs made = .ok (dir ++ [name]) := by
  obtain ⟨-, -, hlooks⟩ := lstat_eq_ok_iff.mp (h.namesFromAbove hfs hinside hstart).lstat_self
  obtain ⟨hmem, hkind⟩ := h.mem_inside hinside
  exact stat_eq_ok_iff.mpr
    ⟨h.ne_nil, h.length_lt, hlooks.concat_nil (entryAt_of_directory hmem hkind)⟩

/-- The string in front of the name of the new directory. -/
theorem Entered.exists_eq (h : Entered s s₁ made dir name) (hslash : '/' ∈ made) :
    ∃ str, made = str ++ '/' :: name.toList ∧
      Looks (RmObjPath.entryAt s.sys s.fs) maxSymlinks (components str ++ [[]])
        (startOf made s.cwd) dir := by
  obtain ⟨init, hcomponents, hlooks⟩ := h.looks
  obtain ⟨str, hstr, rfl, -⟩ := exists_eq_append_slash hcomponents hslash
  exact ⟨str, hstr, hlooks⟩

/-- The directory above is entered. -/
theorem Entered.enterParent_cwd (h : Entered s s₁ made dir name) (hfs : IsFileSystem s.sys s.fs)
    (hinside : Inside s₁ s₂) (habs : made.head? = some '/')
    (hpermitted : env.chdirRefusal dir = none) :
    enterParent env (dirname made) s₂ = { s₂ with cwd := dir } := by
  obtain ⟨str, rfl, hlooks⟩ := h.exists_eq (List.mem_of_mem_head? habs)
  have hname := h.isComponent
  have hup := hlooks.mono fun _ _ hentry =>
    entryAt_of_mem (h.entryAt hfs hinside hentry) (fun hq => emptied_subset hq) fun _ => rfl
  have hstat : RmObjPath.stat s₂.sys s₂.cwd s₂.fs (dirname (str ++ '/' :: name.toList)) =
      .ok dir := by
    refine stat_eq_ok_iff.mpr ⟨dirname_ne_nil str hname.1 hname.2.1,
      (length_dirname_lt str hname.1 hname.2.1).trans h.length_lt, ?_⟩
    rw [← walk_eq_ok_iff, walk_dirname _ _ _ hname.1 hname.2.1, walk_eq_ok_iff,
      startOf_of_absolute habs, ← startOf_of_absolute habs s.cwd]
    exact hup
  rw [enterParent, chdir, hstat]
  dsimp only
  rw [hpermitted]

/-- What is left when the tree has been cleared. -/
theorem Entered.mem_cleared_iff (h : Entered s s₁ made dir name) (hfs : IsFileSystem s.sys s.fs)
    (hinside : Inside s₁ s₂) :
    (∀ q, q ∈ cleared s₂.sys s₂.fs (dir ++ [name]) ↔ q ∈ s.fs) ↔
      ¬Blocked s₂.sys s₂.fs (dir ++ [name]) := by
  have hmem := (h.mem_inside hinside).1
  constructor
  · intro hall hblocked
    refine h.new ((hall _).mp (mem_cleared.mpr ⟨hmem, ?_⟩))
    exact fun hcleared => hcleared.2 hblocked
  · intro hnot q
    rw [mem_cleared]
    constructor
    · rintro ⟨hq, hkept⟩
      have hpre : ¬dir ++ [name] <+: q := by
        intro hpre
        refine hkept ⟨hpre, ?_⟩
        rintro ⟨r, hr, hqr, hrefusal⟩
        exact hnot ⟨r, hr, hpre.trans hqr, hrefusal⟩
      have hq₁ := (hinside.mem_iff q fun hbelow => hpre (h.cwd ▸ hbelow.1)).mp hq
      refine (h.mem_iff.mp hq₁).resolve_right ?_
      rintro rfl
      exact hpre (List.prefix_refl _)
    · intro hq
      have hpre := h.not_below hfs hq
      refine ⟨(hinside.mem_iff q fun hbelow => hpre (h.cwd ▸ hbelow.1)).mpr
        (h.mem_iff.mpr (.inl hq)), fun hcleared => hpre hcleared.1⟩

/-- The call of `rmobj` on the new directory. -/
theorem Entered.removeTestdir_eq (h : Entered s s₁ made dir name) (hfs : IsFileSystem s.sys s.fs)
    (hinside : Inside s₁ s₂) (htree : IsTree s₂.sys s₂.fs (dir ++ [name]) made env.depth)
    (hfits : Fits s₂.sys true s₂.fs (dir ++ [name]) made) {s₃ : Session} (hsys : s₃.sys = s₂.sys)
    (hfs₃ : s₃.fs = s₂.fs) (hstart : startOf made s₃.cwd = startOf made s.cwd) :
    ∃ mesgs, removeTestdir env made s₃ = .returned { s₃ with
        fs := cleared s₂.sys s₂.fs (dir ++ [name]), results := s₃.results ++ mesgs } ∧
      (¬Blocked s₂.sys s₂.fs (dir ++ [name]) → mesgs = []) := by
  obtain ⟨msg, hrun⟩ := (rmobj_run true htree hinside.nodup
    ⟨h.ne_nil, h.endsInName.ne_slash⟩ none).1 hfits
  rw [← rmobj_eq_of_namesFromAbove hinside.isFileSystem htree.mem (by simp)
    (h.namesFromAbove hfs hinside hstart)] at hrun
  rw [removeTestdir, hsys, hfs₃, hrun]
  dsimp only
  by_cases hblocked : Blocked s₂.sys s₂.fs (dir ++ [name])
  · rw [if_pos hblocked, if_pos rfl]
    exact ⟨_, rfl, fun hnot => absurd hblocked hnot⟩
  · rw [if_neg hblocked, if_neg (by decide)]
    exact ⟨[], by rw [List.append_nil], fun _ => rfl⟩

/-- A call of `tst_rmdir` that gets as far as `rmobj`. -/
theorem tstRmdir_of_permitted (htdirectory : env.tdirectory = none)
    (hmade : s.testdir = some made) (hroot : isRoot env made s = false) (hstar : '*' ∉ made)
    {parent : List Char} (hparent : parentDir env made s = .ok parent) :
    tstRmdir env s = removeTestdir env made (enterParent env (dirname parent) s) := by
  have hcontains : made.contains '*' = false := by simpa using hstar
  rw [tstRmdir, htdirectory]
  dsimp only
  rw [hmade]
  dsimp only
  rw [hroot, hcontains, hparent]
  rfl

/-- A call of `tst_rmdir` that does not remove anything. -/
theorem tstRmdir_of_refused (htdirectory : env.tdirectory = none) (hmade : s.testdir = some made)
    (h : isRoot env made s = true ∨ '*' ∈ made) :
    ∃ s', tstRmdir env s = .returned s' ∧ s'.fs = s.fs := by
  rw [tstRmdir, htdirectory]
  dsimp only
  rw [hmade]
  dsimp only
  by_cases hroot : isRoot env made s = true
  · rw [if_pos hroot]
    exact ⟨_, rfl, rfl⟩
  · have hstar : made.contains '*' = true := by simpa using h.resolve_left hroot
    rw [if_neg hroot, if_pos hstar]
    exact ⟨_, rfl, rfl⟩

/-- **The file system afterwards.** A test that makes its directory by a full path, and works
inside of it, leaves the file system as it was before if and only if the directory has another
inode number than the root, there is no `*` in its path, and the system does not refuse to remove
anything in it. Then the test is in the directory above, if it may enter that. -/
theorem restores_iff (hfs : IsFileSystem s.sys s.fs) (htdirectory : env.tdirectory = none)
    (h₁ : tstTmpdir env s = .returned s₁) (hmade : s₁.testdir = some made)
    (habs : made.head? = some '/') (hinside : Inside s₁ s₂)
    (htree : IsTree s₂.sys s₂.fs s₁.cwd made env.depth)
    (hfits : Fits s₂.sys true s₂.fs s₁.cwd made) :
    ∃ s₃, tstRmdir env s₂ = .returned s₃ ∧
      ((∀ q, q ∈ s₃.fs ↔ q ∈ s.fs) ↔
        env.ino s₁.cwd ≠ env.ino [] ∧ '*' ∉ made ∧ ¬Blocked s₂.sys s₂.fs s₁.cwd) ∧
      ((∀ q, q ∈ s₃.fs ↔ q ∈ s.fs) → env.chdirRefusal s₁.cwd.dropLast = none →
        s₃.cwd = s₁.cwd.dropLast ∧ s₃.results = s₂.results) := by
  obtain ⟨made', dir, name, h⟩ := entered_of_returned htdirectory h₁
  obtain rfl : made' = made := Option.some.inj (h.testdir.symm.trans hmade)
  have hmade₂ : s₂.testdir = some made' := hinside.testdir.trans hmade
  have hmem := (h.mem_inside hinside).1
  rw [h.cwd] at htree hfits ⊢
  have hroot : isRoot env made' s₂ = true ↔ env.ino (dir ++ [name]) = env.ino [] :=
    isRoot_iff hinside.isFileSystem (h.stat hfs hinside
      ((startOf_of_absolute habs _).trans (startOf_of_absolute habs _).symm))
  by_cases hrefused : isRoot env made' s₂ = true ∨ '*' ∈ made'
  · obtain ⟨s₃, hrun, hsame⟩ := tstRmdir_of_refused htdirectory hmade₂ hrefused
    have hkept : ¬∀ q, q ∈ s₃.fs ↔ q ∈ s.fs := fun hall =>
      h.new ((hall _).mp (hsame ▸ hmem))
    refine ⟨s₃, hrun, iff_of_false hkept ?_, fun hall => absurd hall hkept⟩
    rintro ⟨hino, hstar, -⟩
    exact hrefused.elim (fun hnot => hino (hroot.mp hnot)) hstar
  · obtain ⟨hnot, hstar⟩ := not_or.mp hrefused
    have hparent : parentDir env made' s₂ = .ok made' := by
      rw [parentDir, if_pos habs, if_pos h.length_lt]
    obtain ⟨mesgs, hrun, hmesgs⟩ := h.removeTestdir_eq hfs hinside htree hfits
      (enterParent_sys (dirname made') s₂) (enterParent_fs (dirname made') s₂)
      ((startOf_of_absolute habs _).trans (startOf_of_absolute habs _).symm)
    have hiff := h.mem_cleared_iff hfs hinside
    refine ⟨_, (tstRmdir_of_permitted htdirectory hmade₂ (by simpa using hnot) hstar hparent).trans
      hrun, ?_, ?_⟩
    · rw [hiff]
      exact ⟨fun hblocked => ⟨hroot.not.mp hnot, hstar, hblocked⟩, fun hall => hall.2.2⟩
    · intro hall hpermitted
      rw [List.dropLast_concat] at hpermitted ⊢
      rw [h.enterParent_cwd hfs hinside habs hpermitted, hmesgs (hiff.mp hall)]
      exact ⟨rfl, List.append_nil _⟩

/-! ### A relative path -/

theorem getcwd_eq_some {cur : List Char} (h : getcwd s = some cur) :
    s.cwd ∈ s.fs ∧ cur = cwdText s.cwd := by
  rw [getcwd] at h
  split_ifs at h with hmem
  exact ⟨by simpa using hmem, (Option.some.inj h).symm⟩

theorem head?_cwdText (p : Path) : (cwdText p).head? = some '/' := by
  rw [cwdText]
  split
  · rfl
  · next hne => exact head?_pathStr hne

theorem looks_cwdText (hfs : IsFileSystem s.sys s.fs) (links : ℕ) (hp : p ∈ s.fs) :
    Looks (entryAt s.sys s.fs) links (components (cwdText p)) [] p := by
  rw [cwdText]
  split
  · next hnil =>
    have hdir := entryAt_of_directory hfs.root hfs.root_kind
    have hcomponents : components ['/'] = [[], []] := by decide
    rw [hnil, hcomponents]
    exact .stay hdir (.inl rfl) (.stay hdir (.inl rfl) .done)
  · exact looks_pathStr hfs links hp

/-- The lookup of what `dirname` makes of a string that ends in a name. -/
theorem looks_dirname {str : List Char} {init : List (List Char)} {last : List Char}
    (hcomponents : components str = init ++ [last]) (hname : IsComponent last)
    (hp : stat s.sys s.cwd s.fs (dirname str) = .ok p) :
    ∃ names ⊆ [['.'], []] ++ init, Looks (entryAt s.sys s.fs) maxSymlinks (names ++ [[]])
      (startOf str s.cwd) p ∧ ('/' ∈ str → names = init) := by
  obtain ⟨-, -, hlooks⟩ := stat_eq_ok_iff.mp hp
  by_cases hslash : '/' ∈ str
  · obtain ⟨dir, rfl, rfl, -⟩ := exists_eq_append_slash hcomponents hslash
    rw [← walk_eq_ok_iff, walk_dirname _ _ _ hname.1 hname.2.1, walk_eq_ok_iff] at hlooks
    exact ⟨_, List.subset_append_right _ _, hlooks, fun _ => rfl⟩
  · have hne : str ≠ [] := by
      rintro rfl
      have hempty : components [] = [] ++ [[]] := rfl
      rw [hempty] at hcomponents
      exact hname.2.1 (List.singleton_inj.mp (List.append_inj_right' hcomponents rfl)).symm
    have hhead : str.head? ≠ some '/' := fun hhead => hslash (List.mem_of_mem_head? hhead)
    rw [dirname_of_not_mem hslash, startOf, if_neg (by decide)] at hlooks
    rw [startOf, if_neg hhead]
    exact ⟨[['.']], by simp, hlooks, fun hmem => absurd hmem hslash⟩

/-- Where the calls of `tst_rmdir` start from, when the test is in its directory. -/
theorem prefix_enterParent_cwd {top : Path} (hfs : IsFileSystem s.sys s.fs)
    (hcwd : s.cwd ∈ s.fs → s.sys.kind s.cwd = .directory) (htop : top <+: s.cwd)
    (hlinks : ∀ q target, top <+: q → entryAt s.sys s.fs q ≠ some (.link target))
    (hrel : made.head? ≠ some '/') (hlast : EndsInName made)
    (hdots : ['.', '.'] ∉ components made) {parent : List Char}
    (hparent : parentDir env made s = .ok parent) :
    top <+: (enterParent env (dirname parent) s).cwd := by
  rw [enterParent]
  split
  · next s' hchdir =>
    obtain ⟨p, hp, rfl⟩ := exists_of_chdir hchdir
    obtain ⟨init, last, hcomponents, hname⟩ := hlast
    have hinit : ['.', '.'] ∉ init := fun hmem => hdots (by simp [hcomponents, hmem])
    rw [parentDir, if_neg hrel] at hparent
    split at hparent
    · split_ifs at hparent
      obtain rfl := Except.ok.inj hparent
      obtain ⟨names, hsub, hlooks, -⟩ := looks_dirname hcomponents hname hp
      rw [startOf, if_neg hrel] at hlooks
      refine htop.trans (hlooks.prefix_of_down hlinks ?_ htop)
      intro hmem
      have hmem := (List.mem_append.mp hmem).resolve_right (by simp)
      simpa [hinit] using hsub hmem
    · next cur hcur =>
      split_ifs at hparent
      obtain rfl := Except.ok.inj hparent
      obtain ⟨hmem, rfl⟩ := getcwd_eq_some hcur
      have hparent : components (cwdText s.cwd ++ '/' :: made) =
          (components (cwdText s.cwd) ++ init) ++ [last] := by
        rw [components_append, hcomponents, List.append_assoc]
      obtain ⟨names, -, hlooks, hnames⟩ := looks_dirname hparent hname hp
      rw [hnames (by simp), startOf, if_pos (by simp [head?_cwdText]), List.append_assoc,
        ← walk_eq_ok_iff] at hlooks
      -- the text of the working directory leads to it
      obtain ⟨left, hleft⟩ := walk_append_of_looks (looks_cwdText hfs maxSymlinks hmem)
        (.inr (entryAt_of_directory hmem (hcwd hmem)))
      rw [hleft, walk_eq_ok_iff] at hlooks
      exact htop.trans (hlooks.prefix_of_down hlinks (by simp [hinit]) htop)
  · exact htop

/-- **A directory that is kept.** With a relative path in `TMPDIR` that does not go up, a test that
ends in its directory, or below it, and has made no symbolic links there, leaves the directory
behind: `tst_rmdir` looks for it below itself. -/
theorem relative_kept (htdirectory : env.tdirectory = none) (h₁ : tstTmpdir env s = .returned s₁)
    (hmade : s₁.testdir = some made) (hrel : made.head? ≠ some '/')
    (hdots : ['.', '.'] ∉ components made) (hinside : Inside s₁ s₂)
    (hcwd : s₁.cwd <+: s₂.cwd) (hroot : s₂.sys.refusal [] ≠ none)
    (hlinks : ∀ q ∈ s₂.fs, s₁.cwd <+: q → ∀ target, s₂.sys.kind q ≠ .symlink target) {s₃ : Session}
    (h₃ : tstRmdir env s₂ = .returned s₃) : s₁.cwd ∈ s₃.fs := by
  obtain ⟨made', dir, name, h⟩ := entered_of_returned htdirectory h₁
  obtain rfl : made' = made := Option.some.inj (h.testdir.symm.trans hmade)
  have hmem := (h.mem_inside hinside).1
  rw [← h.cwd] at hmem
  obtain hsame | ⟨made, parent, ret, st, -, hmade₂, -, -, hparent, hrun, heq⟩ := tstRmdir_cases h₃
  · exact hsame ▸ hmem
  · obtain rfl : made' = made :=
      Option.some.inj (hmade.symm.trans (hinside.testdir.symm.trans hmade₂))
    have hentries (q : Path) (target : List Char) (hq : s₁.cwd <+: q) :
        entryAt s₂.sys s₂.fs q ≠ some (.link target) := by
      intro hentry
      obtain ⟨hqmem, hkind⟩ := entryAt_eq_link_iff.mp hentry
      exact hlinks q hqmem hq target hkind
    have htop := prefix_enterParent_cwd hinside.isFileSystem hinside.cwd hcwd hentries hrel
      h.endsInName hdots hparent
    rw [heq]
    by_contra hgone
    obtain ⟨-, -, hremoved, -, -⟩ := rmobj_removes_only hroot hinside.isFileSystem hrun
    obtain ⟨obj, hobj, hpre, -⟩ := hremoved _ hmem hgone
    -- the object that was removed is below the directory
    obtain ⟨-, -, hlooks⟩ := lstat_eq_ok_iff.mp hobj
    rw [startOf, if_neg hrel] at hlooks
    obtain ⟨init, last, hcomponents, hname⟩ := h.endsInName
    have hlt := hlooks.length_lt_of_down hentries hdots htop ⟨last, by simp [hcomponents], hname⟩
    have hle := hpre.length_le
    have htop := htop.length_le
    omega

/-! ### A test of one file -/

/-- The test `gyro`, with or without `TMPDIR`. -/
def gyroEnv (tmpdir : Option (List Char)) : Env where
  tdirectory := none
  tmpdir := tmpdir
  tcid := "gyro".toList
  gid := 0
  ino p := if p = [] then 2 else 12
  mkdirRefusal _ := none
  chownRefusal _ := none
  chmodRefusal _ := none
  chdirRefusal _ := none
  pick := ⟨"aB3dE6".toList, rfl, List.all_eq_true.mp (by decide)⟩
  sizeofPointer := 4
  depth := 2

/-- The process in front of the test, in `/home`. -/
def atHome : Session where
  sys := {
    kind := fun p => if p = ["tmp", "gyraB3dE6", "log"] then .file else .directory
    opens := fun _ => true
    refusal := fun p => if p = [] then some 16 else none
    strerror := fun _ => [] }
  fs := [[], ["tmp"], ["home"]]
  cwd := ["home"]
  testdir := none
  results := []

/-- The process in its directory, with the file `log` in it or not. -/
def inGyra (dir : Path) (made : List Char) (files : List Path) : Session where
  sys :=
    { atHome.sys with
      kind := Function.update atHome.sys.kind (dir ++ ["gyraB3dE6"]) .directory }
  fs := atHome.fs ++ [dir ++ ["gyraB3dE6"]] ++ files
  cwd := dir ++ ["gyraB3dE6"]
  testdir := some made
  results := []

theorem atHome_isFileSystem : IsFileSystem atHome.sys atHome.fs :=
  isFileSystem_of_forall (by decide) (by decide) (by decide)

def gyraLog : List Path := [["tmp", "gyraB3dE6", "log"]]

def gyraPath : List Char := "/tmp/gyraB3dE6".toList

theorem gyra_isFileSystem :
    IsFileSystem (inGyra ["tmp"] gyraPath gyraLog).sys (inGyra ["tmp"] gyraPath gyraLog).fs :=
  isFileSystem_of_forall (by decide) (by decide) (by decide)

theorem gyra_isTree : IsTree (inGyra ["tmp"] gyraPath gyraLog).sys
    (inGyra ["tmp"] gyraPath gyraLog).fs ["tmp", "gyraB3dE6"] gyraPath 2 := by
  have hmem (names : List String)
      (h : ["tmp", "gyraB3dE6"] ++ names ∈ (inGyra ["tmp"] gyraPath gyraLog).fs) :
      names = [] ∨ names = ["log"] := by
    simpa [inGyra, atHome, gyraLog] using h
  refine ⟨by decide, fun names name h => ?_, fun _ _ => rfl, fun names h => ?_, fun names h => ?_⟩
  · rw [List.append_assoc] at h
    obtain hnil | hlog := hmem _ h
    · simp at hnil
    · obtain ⟨rfl, rfl⟩ : names = [] ∧ name = "log" := by
        cases names <;> simp_all
      decide
  · obtain rfl | rfl := hmem names h <;> decide
  · obtain rfl | rfl := hmem names h <;> decide

theorem gyra_inside :
    Inside (inGyra ["tmp"] gyraPath []) (inGyra ["tmp"] gyraPath gyraLog) := by
  refine ⟨gyra_isFileSystem, by decide, rfl, fun q hq => ?_, fun _ _ _ => rfl, fun _ => by decide⟩
  rw [inGyra, inGyra]
  refine ⟨fun hmem => ?_, fun hmem => ?_⟩
  · have hlog : q ≠ ["tmp", "gyraB3dE6", "log"] := by
      rintro rfl
      exact hq ⟨⟨["log"], rfl⟩, by decide⟩
    simpa [gyraLog, hlog] using hmem
  · exact List.mem_append_left _ (by simpa using hmem)

theorem gyra_fits : Fits (inGyra ["tmp"] gyraPath gyraLog).sys true
    (inGyra ["tmp"] gyraPath gyraLog).fs ["tmp", "gyraB3dE6"] gyraPath := by
  intro _ names errno _ hrefusal
  simp [inGyra, atHome] at hrefusal

theorem tstTmpdir_gyra :
    tstTmpdir (gyroEnv none) atHome = .returned (inGyra ["tmp"] gyraPath []) := by rfl

theorem restores_gyra :
    ∃ s₃, tstRmdir (gyroEnv none) (inGyra ["tmp"] gyraPath gyraLog) = .returned s₃ ∧
      ∀ q, q ∈ s₃.fs ↔ q ∈ atHome.fs := by
  obtain ⟨s₃, hrun, hiff, -⟩ := restores_iff atHome_isFileSystem rfl tstTmpdir_gyra rfl rfl
    gyra_inside gyra_isTree gyra_fits
  exact ⟨s₃, hrun, hiff.mpr ⟨by decide, by decide, by decide⟩⟩

theorem tstRmdir_gyra : tstRmdir (gyroEnv none) (inGyra ["tmp"] gyraPath gyraLog) =
    .returned { inGyra ["tmp"] gyraPath gyraLog with fs := atHome.fs, cwd := ["tmp"] } := by rfl

theorem gyra_absolute (made : List Char) (h : made ∈ (inGyra ["tmp"] gyraPath gyraLog).testdir) :
    made.head? = some '/' := by
  obtain rfl := Option.some.inj h
  rfl

/-- The process in `/tmp/gyraB3dE6` removes the directory with the file in it. -/
theorem tstRmdir_removes_only_gyra :
    ∃ made obj, (inGyra ["tmp"] gyraPath gyraLog).testdir = some made ∧
      lstat (inGyra ["tmp"] gyraPath gyraLog).sys ["tmp", "gyraB3dE6"]
        (inGyra ["tmp"] gyraPath gyraLog).fs made = .ok obj ∧ obj ≠ [] ∧
      obj <+: ["tmp", "gyraB3dE6", "log"] ∧
      ¬Blocked (inGyra ["tmp"] gyraPath gyraLog).sys (inGyra ["tmp"] gyraPath gyraLog).fs
        ["tmp", "gyraB3dE6", "log"] :=
  (tstRmdir_removes_only (by decide) gyra_isFileSystem gyra_absolute tstRmdir_gyra).2.2 _
    (by decide) (by decide)

/-- The path of the directory with `TMPDIR=.`. -/
def dotPath : List Char := "./gyraB3dE6".toList

theorem tstTmpdir_dot :
    tstTmpdir (gyroEnv (some ['.'])) atHome = .returned (inGyra ["home"] dotPath []) := by rfl

theorem dot_isFileSystem :
    IsFileSystem (inGyra ["home"] dotPath []).sys (inGyra ["home"] dotPath []).fs :=
  isFileSystem_of_forall (by decide) (by decide) (by decide)

theorem dot_inside : Inside (inGyra ["home"] dotPath []) (inGyra ["home"] dotPath []) :=
  ⟨dot_isFileSystem, by decide, rfl, fun _ _ => Iff.rfl, fun _ _ _ => rfl, fun _ => by decide⟩

/-- The process when the test is over. -/
def dotEnd : Session :=
  (inGyra ["home"] dotPath []).resm TstRes.twarn
    "tst_rmdir: rmobj(./gyraB3dE6) failed: lstat(./gyraB3dE6) failed; errno=2: ".toList

theorem tstRmdir_dot :
    tstRmdir (gyroEnv (some ['.'])) (inGyra ["home"] dotPath []) = .returned dotEnd := by rfl

/-- With `TMPDIR=.` the directory is left in `/home`. -/
theorem relative_kept_dot : (inGyra ["home"] dotPath []).cwd ∈ dotEnd.fs := by
  refine relative_kept rfl tstTmpdir_dot rfl (by decide) (by decide) dot_inside
    (List.prefix_refl _) (by decide) (fun q hq _ target hkind => ?_) tstRmdir_dot
  have hdirs : ∀ q ∈ (inGyra ["home"] dotPath []).fs,
      (inGyra ["home"] dotPath []).sys.kind q = .directory := by decide
  rw [hdirs q hq] at hkind
  cases hkind

end TstTmpdir

end SnowballLtp
