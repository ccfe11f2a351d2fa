import Mathlib.Data.List.Infix
import Mathlib.Data.List.Nodup
import SnowballLtp.Machine.Decimal

/-!
# Removing an object

`rmobj` removes an object with everything below it. It goes down a directory by calling itself
for every entry, does not stop at an entry that cannot be removed, and removes the directory
itself when all its entries are gone. A symbolic link is removed like a file.

The file system is the list of the paths that exist; `readdir` lists the entries that a directory
has when it is opened, in the order of that list, which is arbitrary. What the system refuses to
remove is a parameter, and so is the number of nested calls for which the stack has room.

The texts of the errors go to a static buffer of 1024 bytes, while a path may be longer.

## Main definitions

* `System`, `unlink`, `rmdir`, `remove`, `nlink`.
* `rmobj`, `removeEntries`.
* `Removes`: what a call should do.

## Main results

* `rmobj_run`: a call, by whether the texts of its errors fit.
* `removes_iff`.
-/

namespace SnowballLtp

namespace RmObj

/-! ### The file system -/

/-- The names from the root down to an object. -/
abbrev Path := List String

inductive Kind
  | file
  | symlink (target : List Char)
  | directory
  deriving DecidableEq, Repr

/-- What `rmobj` does not change: the kinds of the objects, the directories that can be opened,
the entries that the system refuses to remove, with the error, and the texts of the errors. -/
structure System where
  kind : Path → Kind
  opens : Path → Bool
  refusal : Path → Option ℤ
  strerror : ℤ → List Char

def enoent : ℤ := 2
def enotdir : ℤ := 20
def eisdir : ℤ := 21
def enotempty : ℤ := 39

/-- The name of `q` in the directory `p`. -/
def nameIn (p q : Path) : Option String :=
  match q.getLast? with
  | some n => if q.dropLast = p then some n else none
  | none => none

/-- The names in a directory. -/
def children (fs : List Path) (p : Path) : List String := fs.filterMap (nameIn p)

/-- What `readdir` returns one after the other. -/
def readdir (fs : List Path) (p : Path) : List String := "." :: ".." :: children fs p

variable (sys : System)

/-- The links of a directory: its name, its own entry and one for each directory in it. -/
def nlink (fs : List Path) (p : Path) : ℕ :=
  2 + (children fs p).countP fun n => decide (sys.kind (p ++ [n]) = .directory)

/-- Remove an entry unless the system refuses to. -/
def erase (fs : List Path) (p : Path) : Except ℤ (List Path) :=
  match sys.refusal p with
  | some errno => .error errno
  | none => .ok (fs.filter fun q => decide (q ≠ p))

/-- `unlink`, which does not remove directories. -/
def unlink (fs : List Path) (p : Path) : Except ℤ (List Path) :=
  if p ∈ fs then
    match sys.kind p with
    | .directory => .error eisdir
    | _ => erase sys fs p
  else .error enoent

/-- `rmdir`, which removes empty directories. -/
def rmdir (fs : List Path) (p : Path) : Except ℤ (List Path) :=
  if p ∈ fs then
    match sys.kind p with
    | .directory => if children fs p = [] then erase sys fs p else .error enotempty
    | _ => .error enotdir
  else .error enoent

/-- `remove`. -/
def remove (fs : List Path) (p : Path) : Except ℤ (List Path) :=
  match sys.kind p with
  | .directory => rmdir sys fs p
  | _ => unlink sys fs p

/-! ### The function -/

/-- `PATH_MAX`, the size of `dirobj`. -/
def pathMax : ℕ := 4096

/-- The size of `err_msg`. -/
def sizeofErrMsg : ℕ := 1024

/-- The file system, and the text that `*errmsg` points at. -/
structure RmState where
  fs : List Path
  errMsg : Option (List Char)
  deriving DecidableEq, Repr

/-- Why there is no result: the stack is used up, or an access is outside its object. -/
inductive Halt
  | stack
  | fault (fault : Fault)
  deriving DecidableEq, Repr

def lstatName : List Char := "lstat".toList
def rmdirName : List Char := "rmdir".toList
def unlinkName : List Char := "unlink".toList
def removeName : List Char := "remove".toList
def failedText : List Char := ") failed; errno=".toList
def cannotRemove : List Char := "Cannot remove /".toList

/-- The text about a call that failed. -/
def failed (call str : List Char) (errno : ℤ) : List Char :=
  call ++ '(' :: (str ++ failedText ++ decimal errno ++ ':' :: ' ' :: sys.strerror errno)

/-- Write the text of an error if the caller wants it, and return -1. -/
def report (errmsg : Bool) (text : List Char) (st : RmState) : Except Halt (ℤ × RmState) :=
  if errmsg then
    if text.length < sizeofErrMsg then .ok (-1, { st with errMsg := some text })
    else .error (.fault .outOfBounds)
  else .ok (-1, st)

/-- What follows a call that removes the object itself. -/
def finish (errmsg : Bool) (call str : List Char) (st : RmState) :
    Except ℤ (List Path) → Except Halt (ℤ × RmState)
  | .ok fs => .ok (0, { st with fs })
  | .error errno => report errmsg (failed sys call str errno) st

/-- The string for an entry of a directory. -/
def dirobj (str : List Char) (name : String) : List Char := str ++ '/' :: name.toList

/-- The loop over the entries of a directory, where `rm` is the recursive call. -/
def removeEntries (rm : Path → List Char → RmState → Except Halt (ℤ × RmState)) (obj : Path)
    (str : List Char) : List String → ℤ → RmState → Except Halt (ℤ × RmState)
  | [], retVal, st => .ok (retVal, st)
  | name :: names, retVal, st =>
    if name = "." ∨ name = ".." then removeEntries rm obj str names retVal st
    else if (dirobj str name).length < pathMax then
      match rm (obj ++ [name]) (dirobj str name) st with
      | .ok (ret, st) => removeEntries rm obj str names (if ret ≠ 0 then -1 else retVal) st
      | .error halt => .error halt
    else .error (.fault .outOfBounds)

/-- `rmobj`, for the object `obj` that the string `str` names. -/
def rmobj (errmsg : Bool) : ℕ → Path → List Char → RmState → Except Halt (ℤ × RmState)
  | 0, _, _, _ => .error .stack
  | depth + 1, obj, str, st =>
    if obj ∈ st.fs then
      match sys.kind obj with
      | .directory =>
        if str = ['/'] then report errmsg cannotRemove st
        else if sys.opens obj then
          match removeEntries (rmobj errmsg depth) obj str (readdir st.fs obj) 0 st with
          | .ok (retVal, st) =>
            if retVal = -1 then .ok (-1, st)
            else if obj ∈ st.fs then
              if 3 ≤ nlink sys st.fs obj then
                finish sys errmsg unlinkName str st (unlink sys st.fs obj)
              else finish sys errmsg removeName str st (remove sys st.fs obj)
            else report errmsg (failed sys lstatName str enoent) st
          | .error halt => .error halt
        else finish sys errmsg rmdirName str st (rmdir sys st.fs obj)
      | _ => finish sys errmsg unlinkName str st (unlink sys st.fs obj)
    else report errmsg (failed sys lstatName str enoent) st

/-! ### What is to be removed -/

/-- The entry or one below it is refused. -/
def Blocked (fs : List Path) (q : Path) : Prop := ∃ r ∈ fs, q <+: r ∧ sys.refusal r ≠ none

instance (fs : List Path) (q : Path) : Decidable (Blocked sys fs q) :=
  inferInstanceAs (Decidable (∃ r ∈ fs, q <+: r ∧ sys.refusal r ≠ none))

/-- The string for an object some names below the one that `str` names. -/
def pathStr (str : List Char) (names : List String) : List Char := names.foldl dirobj str

/-- The call that removes the object itself. -/
def callName (p : Path) : List Char :=
  match sys.kind p with
  | .directory => removeName
  | _ => unlinkName

/-- The object is there with a finite tree below it: the parents of the entries are directories
that can be opened, the paths are shorter than `PATH_MAX`, and the stack has room for a call at
every level. -/
structure IsTree (fs : List Path) (obj : Path) (str : List Char) (depth : ℕ) : Prop where
  mem : obj ∈ fs
  parent : ∀ names name, obj ++ names ++ [name] ∈ fs →
    obj ++ names ∈ fs ∧ sys.kind (obj ++ names) = .directory ∧ name ≠ "." ∧ name ≠ ".."
  opens : ∀ names, obj ++ names ∈ fs → sys.opens (obj ++ names) = true
  length_lt : ∀ names, obj ++ names ∈ fs → (pathStr str names).length < pathMax
  length_lt_depth : ∀ names, obj ++ names ∈ fs → names.length < depth

/-- The text about every entry that is refused with nothing refused below it fits into the
buffer, if the caller wants one. -/
def Fits (errmsg : Bool) (fs : List Path) (obj : Path) (str : List Char) : Prop :=
  errmsg = true → ∀ names errno, obj ++ names ∈ fs →
    sys.refusal (obj ++ names) = some errno →
    (∀ q ∈ fs, obj ++ names <+: q → sys.refusal q ≠ none → q = obj ++ names) →
    (failed sys (callName sys (obj ++ names)) (pathStr str names) errno).length < sizeofErrMsg

/-- What a call is to do: it comes to an end, removes exactly the entries of the tree that are not
blocked, and returns zero just when the object is gone. -/
def Removes (errmsg : Bool) (depth : ℕ) (fs : List Path) (obj : Path) (str : List Char) : Prop :=
  ∃ ret st, rmobj sys errmsg depth obj str ⟨fs, none⟩ = .ok (ret, st) ∧
    (∀ q, q ∈ st.fs ↔ q ∈ fs ∧ ¬(obj <+: q ∧ ¬Blocked sys fs q)) ∧ (ret = 0 ↔ obj ∉ st.fs)

/-- The file system without the entries below some names of a directory that are not blocked. -/
def clearedAll (fs : List Path) (obj : Path) (names : List String) : List Path :=
  fs.filter fun q => decide (¬((∃ name ∈ names, obj ++ [name] <+: q) ∧ ¬Blocked sys fs q))

/-- The file system without the entries of a tree that are not blocked. -/
def cleared (fs : List Path) (obj : Path) : List Path :=
  fs.filter fun q => decide (¬(obj <+: q ∧ ¬Blocked sys fs q))

/-! ### Directories -/

theorem nameIn_eq_some_iff {p q : Path} {name : String} :
    nameIn p q = some name ↔ q = p ++ [name] := by
  rw [nameIn]
  constructor
  · split
    · next n hlast =>
      split
      · next hdrop =>
        rintro ⟨⟩
        rw [← hdrop]
        exact (List.dropLast_append_getLast? _ hlast).symm
      · intro h
        cases h
    · intro h
      cases h
  · rintro rfl
    simp

theorem mem_children {fs : List Path} {p : Path} {name : String} :
    name ∈ children fs p ↔ p ++ [name] ∈ fs := by
  simp [children, List.mem_filterMap, nameIn_eq_some_iff]

theorem nodup_children {fs : List Path} (h : fs.Nodup) (p : Path) : (children fs p).Nodup := by
  refine List.Nodup.filterMap (fun q q' name hq hq' => ?_) h
  rw [nameIn_eq_some_iff.mp hq, nameIn_eq_some_iff.mp hq']

/-! ### Changes elsewhere -/

/-- The same entries from `p` on. -/
def SameBelow (fs fs' : List Path) (p : Path) : Prop := ∀ q, p <+: q → (q ∈ fs ↔ q ∈ fs')

variable {sys} {fs fs' : List Path} {obj : Path} {str : List Char} {depth : ℕ} {errmsg : Bool}

theorem SameBelow.append (h : SameBelow fs fs' obj) (names : List String) :
    obj ++ names ∈ fs ↔ obj ++ names ∈ fs' :=
  h _ (List.prefix_append _ _)

theorem SameBelow.blocked_iff (h : SameBelow fs fs' obj) {q : Path} (hq : obj <+: q) :
    Blocked sys fs q ↔ Blocked sys fs' q := by
  constructor
  · rintro ⟨r, hr, hqr, href⟩
    exact ⟨r, (h r (hq.trans hqr)).mp hr, hqr, href⟩
  · rintro ⟨r, hr, hqr, href⟩
    exact ⟨r, (h r (hq.trans hqr)).mpr hr, hqr, href⟩

theorem SameBelow.isTree (h : SameBelow fs fs' obj) (ht : IsTree sys fs obj str depth) :
    IsTree sys fs' obj str depth where
  mem := (h obj (List.prefix_refl obj)).mp ht.mem
  parent names name hmem := by
    rw [List.append_assoc, ← h.append, ← List.append_assoc] at hmem
    obtain ⟨hparent, hrest⟩ := ht.parent names name hmem
    exact ⟨(h.append names).mp hparent, hrest⟩
  opens names hmem := ht.opens names ((h.append names).mpr hmem)
  length_lt names hmem := ht.length_lt names ((h.append names).mpr hmem)
  length_lt_depth names hmem := ht.length_lt_depth names ((h.append names).mpr hmem)

theorem SameBelow.fits (h : SameBelow fs fs' obj) (hf : Fits sys errmsg fs obj str) :
    Fits sys errmsg fs' obj str := by
  intro herr names errno hmem href hlast
  refine hf herr names errno ((h.append names).mpr hmem) href fun q hq hpre => ?_
  exact hlast q ((h q ((List.prefix_append _ _).trans hpre)).mp hq) hpre

theorem SameBelow.symm (h : SameBelow fs fs' obj) : SameBelow fs' fs obj :=
  fun q hq => (h q hq).symm

theorem SameBelow.fits_iff (h : SameBelow fs fs' obj) :
    Fits sys errmsg fs obj str ↔ Fits sys errmsg fs' obj str :=
  ⟨h.fits, h.symm.fits⟩

/-! ### One level down -/

theorem IsTree.child {name : String} (h : IsTree sys fs obj str (depth + 1))
    (hname : obj ++ [name] ∈ fs) : IsTree sys fs (obj ++ [name]) (dirobj str name) depth where
  mem := hname
  parent names name' hmem := by
    have hassoc : obj ++ [name] ++ names = obj ++ (name :: names) := by simp
    rw [hassoc] at hmem ⊢
    exact h.parent (name :: names) name' hmem
  opens names hmem := by
    have hassoc : obj ++ [name] ++ names = obj ++ (name :: names) := by simp
    rw [hassoc] at hmem ⊢
    exact h.opens (name :: names) hmem
  length_lt names hmem := h.length_lt (name :: names) (by simpa using hmem)
  length_lt_depth names hmem := by
    have hlt := h.length_lt_depth (name :: names) (by simpa using hmem)
    rw [List.length_cons] at hlt
    omega

/-- The names in a directory are names of entries, not `.` or `..`. -/
theorem IsTree.name {name : String} (h : IsTree sys fs obj str depth)
    (hname : obj ++ [name] ∈ fs) : name ≠ "." ∧ name ≠ ".." := by
  have := (h.parent [] name (by simpa using hname)).2.2
  exact this

/-- What is below an object is below one of its entries. -/
theorem IsTree.mem_child (h : IsTree sys fs obj str depth) {name : String}
    {names : List String} (hmem : obj ++ name :: names ∈ fs) : obj ++ [name] ∈ fs := by
  induction names using List.reverseRecOn with
  | nil => exact hmem
  | append_singleton names last ih =>
    have hassoc : obj ++ name :: (names ++ [last]) = obj ++ (name :: names) ++ [last] := by simp
    rw [hassoc] at hmem
    exact ih (h.parent _ last hmem).1

theorem IsTree.exists_child (h : IsTree sys fs obj str depth) {q : Path} (hq : q ∈ fs)
    (hpre : obj <+: q) (hne : q ≠ obj) :
    ∃ name, obj ++ [name] ∈ fs ∧ obj ++ [name] <+: q := by
  obtain ⟨names, rfl⟩ := hpre
  cases names with
  | nil => exact absurd (List.append_nil obj) hne
  | cons name names => exact ⟨name, h.mem_child hq, names, by simp⟩

/-- An object is blocked when one of its entries is, or when it is refused itself. -/
theorem IsTree.blocked_iff (h : IsTree sys fs obj str depth) :
    Blocked sys fs obj ↔
      (∃ name ∈ children fs obj, Blocked sys fs (obj ++ [name])) ∨ sys.refusal obj ≠ none := by
  constructor
  · rintro ⟨r, hr, hpre, href⟩
    by_cases hself : r = obj
    · exact .inr (hself ▸ href)
    · obtain ⟨name, hmem, hpre'⟩ := h.exists_child hr hpre hself
      exact .inl ⟨name, mem_children.mpr hmem, r, hr, hpre', href⟩
  · rintro (⟨name, -, r, hr, hpre, href⟩ | href)
    · exact ⟨r, hr, (List.prefix_append _ _).trans hpre, href⟩
    · exact ⟨obj, h.mem, List.prefix_refl obj, href⟩

/-- The text about the object itself. -/
def FitsSelf (sys : System) (errmsg : Bool) (fs : List Path) (obj : Path) (str : List Char) :
    Prop :=
  errmsg = true → (∀ name ∈ children fs obj, ¬Blocked sys fs (obj ++ [name])) →
    ∀ errno, sys.refusal obj = some errno →
      (failed sys (callName sys obj) str errno).length < sizeofErrMsg

/-- The texts about a tree are those about the trees of the entries and the one about the object
itself. -/
theorem IsTree.fits_iff (h : IsTree sys fs obj str depth) :
    Fits sys errmsg fs obj str ↔
      (∀ name ∈ children fs obj, Fits sys errmsg fs (obj ++ [name]) (dirobj str name)) ∧
        FitsSelf sys errmsg fs obj str := by
  have hassoc (name : String) (names : List String) :
      obj ++ [name] ++ names = obj ++ (name :: names) := by simp
  constructor
  · intro hfits
    refine ⟨fun name _ herr names errno => ?_, fun herr hnone errno href => ?_⟩
    · rw [hassoc]
      exact hfits herr (name :: names) errno
    · have hself := hfits herr [] errno
      rw [List.append_nil] at hself
      refine hself h.mem href fun q hq hpre hrefq => ?_
      by_contra hne
      obtain ⟨name, hmem, hpre'⟩ := h.exists_child hq hpre hne
      exact hnone name (mem_children.mpr hmem) ⟨q, hq, hpre', hrefq⟩
  · rintro ⟨hentries, hself⟩ herr names errno hmem href hlast
    cases names with
    | nil =>
      rw [List.append_nil] at *
      refine hself herr (fun name hname hblocked => ?_) errno href
      obtain ⟨q, hq, hpre, hrefq⟩ := hblocked
      have heq := hlast q hq ((List.prefix_append _ _).trans hpre) hrefq
      rw [heq] at hpre
      have hlen := hpre.length_le
      rw [List.length_append, List.length_singleton] at hlen
      omega
    | cons name names =>
      have hfits := hentries name (mem_children.mpr (h.mem_child hmem)) herr names errno
      rw [hassoc] at hfits
      exact hfits hmem href hlast

/-! ### Clearing a directory entry by entry -/

theorem mem_clearedAll {names : List String} {q : Path} :
    q ∈ clearedAll sys fs obj names ↔
      q ∈ fs ∧ ¬((∃ name ∈ names, obj ++ [name] <+: q) ∧ ¬Blocked sys fs q) := by
  rw [clearedAll, List.mem_filter, decide_eq_true_iff]

theorem mem_cleared {q : Path} :
    q ∈ cleared sys fs obj ↔ q ∈ fs ∧ ¬(obj <+: q ∧ ¬Blocked sys fs q) := by
  rw [cleared, List.mem_filter, decide_eq_true_iff]

theorem clearedAll_nil : clearedAll sys fs obj [] = fs := by
  simp [clearedAll]

/-- Different names lead to different entries. -/
theorem name_eq_of_below {name name' : String} {q : Path} (h : obj ++ [name] <+: q)
    (h' : obj ++ [name'] <+: q) : name = name' := by
  obtain ⟨r, rfl⟩ := h
  obtain ⟨r', heq⟩ := h'
  simp only [List.append_assoc, List.singleton_append, List.append_cancel_left_eq,
    List.cons.injEq] at heq
  exact heq.1.symm

/-- Clearing some entries does not touch another one. -/
theorem sameBelow_clearedAll {names : List String} {name : String} (h : name ∉ names) :
    SameBelow fs (clearedAll sys fs obj names) (obj ++ [name]) := by
  intro q hq
  rw [mem_clearedAll]
  refine ⟨fun hmem => ⟨hmem, ?_⟩, fun hmem => hmem.1⟩
  rintro ⟨⟨name', hname', hpre⟩, -⟩
  exact h (name_eq_of_below hq hpre ▸ hname')

/-- Clearing one entry more. -/
theorem cleared_clearedAll {names : List String} {name : String} (h : name ∉ names) :
    cleared sys (clearedAll sys fs obj names) (obj ++ [name]) =
      clearedAll sys fs obj (names ++ [name]) := by
  have hsame : SameBelow fs (clearedAll sys fs obj names) (obj ++ [name]) :=
    sameBelow_clearedAll h
  rw [cleared, clearedAll, clearedAll, List.filter_filter]
  refine List.filter_congr fun q _ => ?_
  rw [← Bool.decide_and, decide_eq_decide]
  by_cases hpre : obj ++ [name] <+: q
  · have hblocked : Blocked sys fs q ↔ Blocked sys (clearedAll sys fs obj names) q :=
      hsame.blocked_iff hpre
    rw [clearedAll] at hblocked
    have hnot : ¬∃ name' ∈ names, obj ++ [name'] <+: q := by
      rintro ⟨name', hname', hpre'⟩
      exact h (name_eq_of_below hpre hpre' ▸ hname')
    have hsome : ∃ name' ∈ names ++ [name], obj ++ [name'] <+: q := ⟨name, by simp, hpre⟩
    simp only [hpre, hnot, hsome, hblocked, true_and, false_and, not_false_eq_true, and_true]
  · have hiff : (∃ name' ∈ names ++ [name], obj ++ [name'] <+: q) ↔
        ∃ name' ∈ names, obj ++ [name'] <+: q := by
      simp [or_and_right, exists_or, hpre]
    simp only [hpre, hiff, false_and, not_false_eq_true, true_and]

/-- The value of the loop when the entries `names` are done. -/
def retVal (sys : System) (fs : List Path) (obj : Path) (names : List String) : ℤ :=
  if ∃ name ∈ names, Blocked sys fs (obj ++ [name]) then -1 else 0

theorem retVal_append (names : List String) (name : String) :
    retVal sys fs obj (names ++ [name]) =
      if Blocked sys fs (obj ++ [name]) then -1 else retVal sys fs obj names := by
  simp only [retVal, List.mem_append, List.mem_singleton, or_and_right, exists_or,
    exists_eq_left]
  by_cases h : Blocked sys fs (obj ++ [name]) <;> simp [h]

/-- The value after the removal of one entry more. -/
theorem retVal_step (names : List String) {name : String} {P : Prop} [Decidable P]
    (h : Blocked sys fs (obj ++ [name]) ↔ P) :
    (if (if P then (-1 : ℤ) else 0) ≠ 0 then -1 else retVal sys fs obj names) =
      retVal sys fs obj (names ++ [name]) := by
  rw [retVal_append]
  by_cases hblocked : Blocked sys fs (obj ++ [name])
  · rw [if_pos (h.mp hblocked), if_pos hblocked, if_pos (by decide)]
  · rw [if_neg (h.not.mp hblocked), if_neg hblocked, if_neg (by decide)]

/-! ### The loop and the call -/

/-- What a function does that removes an object as `rmobj` should, but for texts that do not
fit. -/
def Clears (sys : System) (errmsg : Bool)
    (rm : Path → List Char → RmState → Except Halt (ℤ × RmState)) (fs : List Path) (obj : Path)
    (str : List Char) : Prop :=
  ∀ msg, (Fits sys errmsg fs obj str → ∃ msg', rm obj str ⟨fs, msg⟩ =
      .ok (if Blocked sys fs obj then -1 else 0, ⟨cleared sys fs obj, msg'⟩)) ∧
    (¬Fits sys errmsg fs obj str → ∃ halt, rm obj str ⟨fs, msg⟩ = .error halt)

section Loop

variable {rm : Path → List Char → RmState → Except Halt (ℤ × RmState)}

/-- One pass of the loop for an entry. -/
theorem removeEntries_cons {name : String} (hname : name ≠ "." ∧ name ≠ "..")
    (hlen : (dirobj str name).length < pathMax) (names : List String) (ret : ℤ) (st : RmState) :
    removeEntries rm obj str (name :: names) ret st =
      match rm (obj ++ [name]) (dirobj str name) st with
      | .ok (r, st) => removeEntries rm obj str names (if r ≠ 0 then -1 else ret) st
      | .error halt => .error halt := by
  rw [removeEntries, if_neg (by simp [hname.1, hname.2]), if_pos hlen]

/-- The loop clears one entry after the other, or stops at a text that does not fit. -/
theorem removeEntries_run (htree : IsTree sys fs obj str (depth + 1))
    (hrm : ∀ fs' name, fs'.Nodup → IsTree sys fs' (obj ++ [name]) (dirobj str name) depth →
      Clears sys errmsg rm fs' (obj ++ [name]) (dirobj str name))
    (hfs : fs.Nodup) (names : List String) (hmem : ∀ name ∈ names, obj ++ [name] ∈ fs)
    (past : List String) (hnodup : (past ++ names).Nodup) (msg : Option (List Char)) :
    ((∀ name ∈ names, Fits sys errmsg fs (obj ++ [name]) (dirobj str name)) →
      ∃ msg', removeEntries rm obj str names (retVal sys fs obj past)
          ⟨clearedAll sys fs obj past, msg⟩ =
        .ok (retVal sys fs obj (past ++ names), ⟨clearedAll sys fs obj (past ++ names), msg'⟩)) ∧
      ((¬∀ name ∈ names, Fits sys errmsg fs (obj ++ [name]) (dirobj str name)) →
        ∃ halt, removeEntries rm obj str names (retVal sys fs obj past)
          ⟨clearedAll sys fs obj past, msg⟩ = .error halt) := by
  induction names generalizing past msg with
  | nil =>
    refine ⟨fun _ => ⟨msg, by rw [List.append_nil]; rfl⟩, fun hnot => absurd ?_ hnot⟩
    intro name hname
    cases hname
  | cons name names ih =>
    have hchild := hmem name List.mem_cons_self
    have hpast : name ∉ past := by
      intro hin
      exact List.disjoint_of_nodup_append hnodup hin List.mem_cons_self
    have hsame : SameBelow fs (clearedAll sys fs obj past) (obj ++ [name]) :=
      sameBelow_clearedAll hpast
    obtain ⟨hok, herror⟩ := hrm (clearedAll sys fs obj past) name (hfs.filter _)
      (hsame.isTree (htree.child hchild)) msg
    rw [← hsame.fits_iff] at hok herror
    rw [removeEntries_cons (htree.name hchild) (htree.length_lt [name] hchild)]
    by_cases hfits : Fits sys errmsg fs (obj ++ [name]) (dirobj str name)
    · obtain ⟨msg', hrun⟩ := hok hfits
      have hblocked : Blocked sys fs (obj ++ [name]) ↔
          Blocked sys (clearedAll sys fs obj past) (obj ++ [name]) :=
        hsame.blocked_iff (List.prefix_refl _)
      rw [hrun]
      dsimp only
      rw [retVal_step past hblocked, cleared_clearedAll hpast]
      obtain ⟨hok', herror'⟩ := ih (fun n hn => hmem n (List.mem_cons_of_mem _ hn))
        (past ++ [name]) (by simpa using hnodup) msg'
      rw [List.append_assoc, List.singleton_append] at hok'
      refine ⟨fun h => hok' fun n hn => h n (List.mem_cons_of_mem _ hn), fun hnot =>
        herror' fun h => hnot fun n hn => ?_⟩
      rcases List.mem_cons.mp hn with rfl | hn
      · exact hfits
      · exact h n hn
    · obtain ⟨halt, hrun⟩ := herror hfits
      rw [hrun]
      exact ⟨fun h => absurd (h name List.mem_cons_self) hfits, fun _ => ⟨halt, rfl⟩⟩

end Loop

/-- The loop passes over `.` and `..`. -/
theorem removeEntries_readdir (rm : Path → List Char → RmState → Except Halt (ℤ × RmState))
    (ret : ℤ) (st : RmState) :
    removeEntries rm obj str (readdir fs obj) ret st =
      removeEntries rm obj str (children fs obj) ret st := by
  rw [readdir, removeEntries, if_pos (.inl rfl), removeEntries, if_pos (.inr rfl)]

/-! ### The object itself -/

/-- When the entries have been cleared and none was blocked, nothing is left in the directory. -/
theorem children_clearedAll
    (h : ∀ name ∈ children fs obj, ¬Blocked sys fs (obj ++ [name])) :
    children (clearedAll sys fs obj (children fs obj)) obj = [] := by
  refine List.eq_nil_iff_forall_not_mem.mpr fun name hname => ?_
  obtain ⟨hmem, hkept⟩ := mem_clearedAll.mp (mem_children.mp hname)
  exact hkept ⟨⟨name, mem_children.mpr hmem, List.prefix_refl _⟩, h name (mem_children.mpr hmem)⟩

theorem mem_clearedAll_self (htree : IsTree sys fs obj str depth) (names : List String) :
    obj ∈ clearedAll sys fs obj names := by
  refine mem_clearedAll.mpr ⟨htree.mem, ?_⟩
  rintro ⟨⟨name, -, hpre⟩, -⟩
  have hlen := hpre.length_le
  rw [List.length_append, List.length_singleton] at hlen
  omega

/-- What is below an object is one of its entries or below one. -/
theorem IsTree.below_iff (htree : IsTree sys fs obj str depth) {q : Path} (hq : q ∈ fs)
    (hne : q ≠ obj) : obj <+: q ↔ ∃ name ∈ children fs obj, obj ++ [name] <+: q := by
  constructor
  · intro hpre
    obtain ⟨name, hmem, hpre'⟩ := htree.exists_child hq hpre hne
    exact ⟨name, mem_children.mpr hmem, hpre'⟩
  · rintro ⟨name, -, hpre⟩
    exact (List.prefix_append _ _).trans hpre

/-- A blocked object stays with what has been cleared below it. -/
theorem cleared_of_blocked (htree : IsTree sys fs obj str depth) (h : Blocked sys fs obj) :
    cleared sys fs obj = clearedAll sys fs obj (children fs obj) := by
  refine List.filter_congr fun q hq => decide_eq_decide.mpr (not_congr ?_)
  exact and_congr_left fun hnot => htree.below_iff hq fun heq => hnot (heq ▸ h)

/-- An object that is not blocked goes when what is below it has been cleared. -/
theorem cleared_of_not_blocked (htree : IsTree sys fs obj str depth)
    (h : ¬Blocked sys fs obj) :
    cleared sys fs obj =
      (clearedAll sys fs obj (children fs obj)).filter fun q => decide (q ≠ obj) := by
  rw [cleared, clearedAll, List.filter_filter]
  refine List.filter_congr fun q hq => ?_
  rw [← Bool.decide_and, decide_eq_decide]
  by_cases hne : q = obj
  · subst hne
    simp [h]
  · simp only [ne_eq, hne, not_false_eq_true, true_and]
    exact not_congr (and_congr_left fun _ => htree.below_iff hq hne)

/-- The removal of the object itself, after everything below it. -/
theorem finish_erase (errmsg : Bool) (htree : IsTree sys fs obj str depth)
    (h : ∀ name ∈ children fs obj, ¬Blocked sys fs (obj ++ [name])) {fs' : List Path}
    (hfs' : fs' = clearedAll sys fs obj (children fs obj)) (msg : Option (List Char)) :
    (FitsSelf sys errmsg fs obj str → ∃ msg', finish sys errmsg (callName sys obj) str ⟨fs', msg⟩
        (erase sys fs' obj) =
          .ok (if Blocked sys fs obj then -1 else 0, ⟨cleared sys fs obj, msg'⟩)) ∧
      (¬FitsSelf sys errmsg fs obj str → ∃ halt,
        finish sys errmsg (callName sys obj) str ⟨fs', msg⟩ (erase sys fs' obj) =
          .error halt) := by
  subst hfs'
  have hnone : ¬∃ name ∈ children fs obj, Blocked sys fs (obj ++ [name]) := by
    rintro ⟨name, hname, hblocked⟩
    exact h name hname hblocked
  have hiff := htree.blocked_iff
  cases href : sys.refusal obj with
  | none =>
    have hnot : ¬Blocked sys fs obj := by
      rw [hiff, href]
      simpa using hnone
    refine ⟨fun _ => ⟨msg, ?_⟩, fun hfits => absurd ?_ hfits⟩
    · rw [erase, href, if_neg hnot, cleared_of_not_blocked htree hnot]
      rfl
    · intro _ _ errno herrno
      rw [href] at herrno
      cases herrno
  | some errno =>
    have hblocked : Blocked sys fs obj := hiff.mpr (.inr (by simp [href]))
    have hfits : FitsSelf sys errmsg fs obj str ↔ (errmsg = true →
        (failed sys (callName sys obj) str errno).length < sizeofErrMsg) := by
      constructor
      · exact fun hself herr => hself herr h errno href
      · intro hlen herr _ errno' herrno'
        obtain rfl := Option.some.inj (href.symm.trans herrno')
        exact hlen herr
    rw [hfits, erase, href, if_pos hblocked, cleared_of_blocked htree hblocked]
    dsimp only [finish, report]
    cases errmsg with
    | false => simp
    | true =>
      by_cases hlen : (failed sys (callName sys obj) str errno).length < sizeofErrMsg <;>
        simp [hlen]

/-- The removal of a directory that has been cleared. -/
theorem remove_of_cleared (htree : IsTree sys fs obj str depth)
    (h : ∀ name ∈ children fs obj, ¬Blocked sys fs (obj ++ [name]))
    (hkind : sys.kind obj = .directory) :
    remove sys (clearedAll sys fs obj (children fs obj)) obj =
        erase sys (clearedAll sys fs obj (children fs obj)) obj ∧
      nlink sys (clearedAll sys fs obj (children fs obj)) obj = 2 := by
  have hnil := children_clearedAll h
  constructor
  · rw [remove, hkind]
    dsimp only
    rw [rmdir, if_pos (mem_clearedAll_self htree _), hkind]
    exact if_pos hnil
  · rw [nlink, hnil]
    rfl

theorem unlink_of_not_directory (hmem : obj ∈ fs) (hkind : sys.kind obj ≠ .directory) :
    unlink sys fs obj = erase sys fs obj := by
  rw [unlink, if_pos hmem]
  cases h : sys.kind obj with
  | directory => exact absurd h hkind
  | file => rfl
  | symlink target => rfl

/-- A call on an object that is not a directory. -/
theorem rmobj_of_not_directory (errmsg : Bool) (depth : ℕ) (hkind : sys.kind obj ≠ .directory)
    {st : RmState} (hmem : obj ∈ st.fs) :
    rmobj sys errmsg (depth + 1) obj str st =
      finish sys errmsg unlinkName str st (unlink sys st.fs obj) := by
  rw [rmobj, if_pos hmem]
  cases h : sys.kind obj with
  | directory => exact absurd h hkind
  | file => rfl
  | symlink target => rfl

/-- A call on a directory that can be opened. -/
theorem rmobj_of_directory (errmsg : Bool) (depth : ℕ) (hkind : sys.kind obj = .directory)
    (hstr : str ≠ ['/']) (hopens : sys.opens obj = true) {st : RmState} (hmem : obj ∈ st.fs) :
    rmobj sys errmsg (depth + 1) obj str st =
      match removeEntries (rmobj sys errmsg depth) obj str (readdir st.fs obj) 0 st with
      | .ok (retVal, st) =>
        if retVal = -1 then .ok (-1, st)
        else if obj ∈ st.fs then
          if 3 ≤ nlink sys st.fs obj then
            finish sys errmsg unlinkName str st (unlink sys st.fs obj)
          else finish sys errmsg removeName str st (remove sys st.fs obj)
        else report errmsg (failed sys lstatName str enoent) st
      | .error halt => .error halt := by
  rw [rmobj, if_pos hmem, hkind]
  dsimp only
  rw [if_neg hstr, if_pos hopens]

/-- The string for an entry does not name the root. -/
theorem dirobj_ne (h : str ≠ []) (name : String) :
    dirobj str name ≠ [] ∧ dirobj str name ≠ ['/'] := by
  have hpos := List.length_pos_iff.mpr h
  have hlen : (dirobj str name).length = str.length + (name.toList.length + 1) := by
    rw [dirobj, List.length_append, List.length_cons]
  constructor
  · intro heq
    rw [heq, List.length_nil] at hlen
    omega
  · intro heq
    rw [heq, List.length_singleton] at hlen
    omega

/-- A call on an object that is not a directory: nothing is below it. -/
theorem clears_of_not_directory (errmsg : Bool) (htree : IsTree sys fs obj str (depth + 1))
    (hkind : sys.kind obj ≠ .directory) :
    Clears sys errmsg (rmobj sys errmsg (depth + 1)) fs obj str := by
  intro msg
  rw [htree.fits_iff]
  have hchildren : children fs obj = [] := by
    refine List.eq_nil_iff_forall_not_mem.mpr fun name hname => hkind ?_
    simpa using (htree.parent [] name (by simpa using mem_children.mp hname)).2.1
  have hcall : callName sys obj = unlinkName := by
    rw [callName]
    split
    · next h => exact absurd h hkind
    · rfl
  have hfinish := finish_erase errmsg htree (by simp [hchildren]) rfl msg
  rw [hchildren, clearedAll_nil, hcall] at hfinish
  rw [rmobj_of_not_directory errmsg depth hkind htree.mem,
    unlink_of_not_directory htree.mem hkind]
  simpa [hchildren] using hfinish

/-- A call on a directory, when the loop has cleared its entries. -/
theorem rmobj_of_cleared (errmsg : Bool) (htree : IsTree sys fs obj str (depth + 1))
    (hkind : sys.kind obj = .directory) (hstr : str ≠ ['/']) {msg msg' : Option (List Char)}
    (hrun : removeEntries (rmobj sys errmsg depth) obj str (readdir fs obj) 0 ⟨fs, msg⟩ =
      .ok (retVal sys fs obj (children fs obj),
        ⟨clearedAll sys fs obj (children fs obj), msg'⟩)) :
    rmobj sys errmsg (depth + 1) obj str ⟨fs, msg⟩ =
      if retVal sys fs obj (children fs obj) = -1 then
        .ok (-1, ⟨clearedAll sys fs obj (children fs obj), msg'⟩)
      else finish sys errmsg removeName str ⟨clearedAll sys fs obj (children fs obj), msg'⟩
        (remove sys (clearedAll sys fs obj (children fs obj)) obj) := by
  have hopens := htree.opens [] (by simpa using htree.mem)
  rw [List.append_nil] at hopens
  rw [rmobj_of_directory errmsg depth hkind hstr hopens htree.mem, hrun]
  dsimp only
  by_cases hret : retVal sys fs obj (children fs obj) = -1
  · rw [if_pos hret, if_pos hret]
  · have hnone : ∀ name ∈ children fs obj, ¬Blocked sys fs (obj ++ [name]) :=
      fun name hname hb => hret (by rw [retVal, if_pos ⟨name, hname, hb⟩])
    -- a directory without entries has two links
    have hlinks := (remove_of_cleared htree hnone hkind).2
    rw [if_neg hret, if_neg hret, if_pos (mem_clearedAll_self htree _), hlinks]
    exact if_neg (by decide)

/-- The end of a call on a directory, when the loop has cleared its entries. -/
theorem finish_directory (errmsg : Bool) (htree : IsTree sys fs obj str depth)
    (hkind : sys.kind obj = .directory) (msg : Option (List Char))
    {run : Except Halt (ℤ × RmState)}
    (hrun : run =
      if retVal sys fs obj (children fs obj) = -1 then
        .ok (-1, ⟨clearedAll sys fs obj (children fs obj), msg⟩)
      else finish sys errmsg removeName str ⟨clearedAll sys fs obj (children fs obj), msg⟩
        (remove sys (clearedAll sys fs obj (children fs obj)) obj)) :
    (FitsSelf sys errmsg fs obj str → ∃ msg',
        run = .ok (if Blocked sys fs obj then -1 else 0, ⟨cleared sys fs obj, msg'⟩)) ∧
      (¬FitsSelf sys errmsg fs obj str → ∃ halt, run = .error halt) := by
  by_cases hblocked : ∃ name ∈ children fs obj, Blocked sys fs (obj ++ [name])
  · have hself : FitsSelf sys errmsg fs obj str := by
      obtain ⟨name, hname, hb⟩ := hblocked
      exact fun _ hnone => absurd hb (hnone name hname)
    have hobj := htree.blocked_iff.mpr (.inl hblocked)
    rw [hrun, retVal, if_pos hblocked, if_pos rfl, if_pos hobj, cleared_of_blocked htree hobj]
    exact ⟨fun _ => ⟨msg, rfl⟩, fun hnot => absurd hself hnot⟩
  · have hnone : ∀ name ∈ children fs obj, ¬Blocked sys fs (obj ++ [name]) :=
      fun name hname hb => hblocked ⟨name, hname, hb⟩
    have hcall : callName sys obj = removeName := by rw [callName, hkind]
    have hfinish := finish_erase errmsg htree hnone rfl msg
    rw [hcall, ← (remove_of_cleared htree hnone hkind).1] at hfinish
    rw [hrun, retVal, if_neg hblocked, if_neg (by decide)]
    exact hfinish

/-- A call on a directory, when calls with less room clear its entries. -/
theorem clears_of_directory (errmsg : Bool) (htree : IsTree sys fs obj str (depth + 1))
    (hfs : fs.Nodup) (hstr : str ≠ [] ∧ str ≠ ['/']) (hkind : sys.kind obj = .directory)
    (hrm : ∀ fs' name, fs'.Nodup → IsTree sys fs' (obj ++ [name]) (dirobj str name) depth →
      Clears sys errmsg (rmobj sys errmsg depth) fs' (obj ++ [name]) (dirobj str name)) :
    Clears sys errmsg (rmobj sys errmsg (depth + 1)) fs obj str := by
  intro msg
  rw [htree.fits_iff]
  have hloop := removeEntries_run htree hrm hfs (children fs obj) (fun name => mem_children.mp) []
    (nodup_children hfs obj) msg
  rw [clearedAll_nil, List.nil_append, ← removeEntries_readdir,
    show retVal sys fs obj [] = 0 from by simp [retVal]] at hloop
  by_cases hentries : ∀ name ∈ children fs obj,
      Fits sys errmsg fs (obj ++ [name]) (dirobj str name)
  · obtain ⟨msg', hrun⟩ := hloop.1 hentries
    have hend := finish_directory errmsg htree hkind msg'
      (rmobj_of_cleared errmsg htree hkind hstr.2 hrun)
    exact ⟨fun hfits => hend.1 hfits.2, fun hnot => hend.2 fun hself => hnot ⟨hentries, hself⟩⟩
  · obtain ⟨halt, hrun⟩ := hloop.2 hentries
    have hopens := htree.opens [] (by simpa using htree.mem)
    rw [List.append_nil] at hopens
    rw [rmobj_of_directory errmsg depth hkind hstr.2 hopens htree.mem, hrun]
    exact ⟨fun hfits => absurd hfits.1 hentries, fun _ => ⟨halt, rfl⟩⟩

/-- **A call.** With room on the stack a call clears the tree and says whether the object is gone,
unless the text of an error does not fit. -/
theorem rmobj_run (errmsg : Bool) (htree : IsTree sys fs obj str depth) (hfs : fs.Nodup)
    (hstr : str ≠ [] ∧ str ≠ ['/']) : Clears sys errmsg (rmobj sys errmsg depth) fs obj str := by
  induction depth generalizing fs obj str with
  | zero => exact absurd (htree.length_lt_depth [] (by simpa using htree.mem)) (by simp)
  | succ depth ih =>
    by_cases hkind : sys.kind obj = .directory
    · exact clears_of_directory errmsg htree hfs hstr hkind fun fs' name hfs' htree' =>
        ih htree' hfs' (dirobj_ne hstr.1 name)
    · exact clears_of_not_directory errmsg htree hkind

/-- **Removing an object.** A call on a finite tree comes to an end, removes exactly the entries
that are not refused and have nothing refused below them, and returns zero just when the object is
gone, if and only if the texts about the entries that are refused fit into the buffer or the
caller does not want one. -/
theorem removes_iff (htree : IsTree sys fs obj str depth) (hfs : fs.Nodup)
    (hstr : str ≠ [] ∧ str ≠ ['/']) :
    Removes sys errmsg depth fs obj str ↔ Fits sys errmsg fs obj str := by
  obtain ⟨hok, herror⟩ := rmobj_run errmsg htree hfs hstr none
  by_cases hfits : Fits sys errmsg fs obj str
  · obtain ⟨msg', hrun⟩ := hok hfits
    refine iff_of_true ⟨_, _, hrun, fun q => mem_cleared, ?_⟩ hfits
    have hmem : obj ∈ cleared sys fs obj ↔ Blocked sys fs obj := by
      simp [mem_cleared, htree.mem]
    rw [hmem]
    by_cases hblocked : Blocked sys fs obj <;> simp [hblocked]
  · obtain ⟨halt, hrun⟩ := herror hfits
    refine iff_of_false ?_ hfits
    rintro ⟨ret, st, hrun', -⟩
    rw [hrun] at hrun'
    cases hrun'

/-- A directory with a file and a symbolic link, of which the file is refused. -/
def exampleSystem : System where
  kind p := if p = ["d", "f"] then .file else if p = ["d", "l"] then .symlink "/".toList
    else .directory
  opens _ := true
  refusal p := if p = ["d", "f"] then some 1 else none
  strerror _ := []

theorem removes_example :
    Removes exampleSystem false 2 [[], ["d"], ["d", "f"], ["d", "l"]] ["d"] ['d'] := by
  refine (removes_iff ⟨by decide, ?_, fun _ _ => rfl, ?_, ?_⟩ (by decide) (by decide)).mpr ?_
  · intro names name hmem
    cases names with
    | nil =>
      obtain rfl | rfl : name = "f" ∨ name = "l" := by simpa using hmem
      · decide
      · decide
    | cons n names => simp at hmem
  · intro names hmem
    obtain rfl | rfl | rfl : names = [] ∨ names = ["f"] ∨ names = ["l"] := by simpa using hmem
    · decide
    · decide
    · decide
  · intro names hmem
    obtain rfl | rfl | rfl : names = [] ∨ names = ["f"] ∨ names = ["l"] := by simpa using hmem
    · decide
    · decide
    · decide
  · intro h
    cases h

theorem length_failed (sys : System) (call str : List Char) (errno : ℤ) :
    call.length + str.length + 16 ≤ (failed sys call str errno).length := by
  have htext : failedText.length = 16 := by decide
  simp only [failed, List.length_append, List.length_cons, htext]
  omega

/-- A file that is refused. -/
def refusingSystem : System where
  kind _ := .file
  opens _ := true
  refusal _ := some 1
  strerror _ := "Operation not permitted".toList

/-- The file `x` by a path of 1003 characters. -/
theorem not_removes_long_path :
    ¬Removes refusingSystem true 1 [["x"]] ["x"]
      ((List.replicate 501 ['.', '/']).flatten ++ ['x']) := by
  have hdots (n : ℕ) : ((List.replicate n ['.', '/']).flatten ++ ['x']).length = 2 * n + 1 := by
    simp; omega
  have hlen := hdots 501
  generalize (List.replicate 501 ['.', '/']).flatten ++ ['x'] = str at hlen
  have hmem (names : List String) : ["x"] ++ names ∈ [["x"]] ↔ names = [] := by simp
  have htree : IsTree refusingSystem [["x"]] ["x"] str 1 := by
    refine ⟨by decide, fun names name h => ?_, fun _ _ => rfl, fun names h => ?_, fun names h => ?_⟩
    · rw [List.append_assoc, hmem] at h
      simp at h
    · rw [(hmem names).mp h]
      exact hlen ▸ (by decide)
    · rw [(hmem names).mp h]
      decide
  have hstr : str ≠ [] ∧ str ≠ ['/'] := by
    constructor
    · rintro rfl
      exact absurd hlen (by decide)
    · rintro rfl
      exact absurd hlen (by decide)
  have hfits : ¬Fits refusingSystem true [["x"]] ["x"] str := by
    intro h
    have hlt : (failed refusingSystem unlinkName str 1).length < 1024 :=
      h rfl [] 1 (by decide) rfl (by decide)
    have hle := length_failed refusingSystem unlinkName str 1
    have hname : unlinkName.length = 6 := by decide
    omega
  obtain ⟨-, herror⟩ := rmobj_run true htree (by decide) hstr none
  obtain ⟨halt, hrun⟩ := herror hfits
  rintro ⟨ret, st, hrun', -⟩
  rw [hrun] at hrun'
  cases hrun'

end RmObj

end SnowballLtp
