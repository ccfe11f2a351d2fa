import Mathlib.Data.List.Basic
import SnowballLtp.Machine.Bytes

/-!
# The mount that a path is on

`get_mountpoint` and `get_block_device` look through the mount table for the mount that a path is
on. Both compare strings: an entry whose directory is the start of the path is kept if there is none
yet, and takes the place of the one that is kept if it is the start of that. So the shorter one
wins, and the start of a path need not end with a component. A string that takes another's place is
copied into a block that has no byte for its end.

## Main definitions

* `getMountpoint`, `getBlockDevice`.
* `IsAncestor`, `LongestAncestor`: what is looked for.
* `FindsMount`, `FirstLongest`.

## Main results

* `mountLoop_of_first`: the first entry that matches is kept until the copy of another faults.
* `blockLoop_eq`: the two loops agree.
* `findsMount_iff`: when the functions find the mount.
* `home_not_findsMount`.
-/

namespace SnowballLtp

namespace MountUtils

/-! ### The functions -/

def enoent : ℤ := 2
def enodev : ℤ := 19
def einval : ℤ := 22

/-- What is read of an entry of the mount table. -/
structure Mntent where
  mntFsname : List Char
  mntDir : List Char

/-- What the functions ask the system: a path without symbolic links, the entries of `/etc/mtab`,
and the `errno` of a file that cannot be looked at. -/
structure System where
  realpath : List Char → Except ℤ (List Char)
  mtab : Except ℤ (List Mntent)
  stat : List Char → Option ℤ

/-- What a caller gets: a string or `NULL`, and `errno`. -/
structure Returned where
  value : Option (List Char)
  errno : ℤ

/-- The condition `!strncmp(s, t, n)`, on strings as they stand in front of their ends. -/
def strncmp (s t : List Char) (n : ℕ) : Prop := s.take n = t.take n

instance (s t : List Char) (n : ℕ) : Decidable (strncmp s t n) :=
  inferInstanceAs (Decidable (_ = _))

/-- `strcpy` into a block of `size` bytes. The end of the string needs a byte too. -/
def strcpy (size : ℕ) (s : List Char) : Except Fault (List Char) :=
  if s.length + 1 ≤ size then .ok s else .error .outOfBounds

/-- A pass of the loop of `get_mountpoint`, from the directory that is kept. -/
def mountPass (resolvedPath : List Char) (mntDir : Option (List Char)) (entry : Mntent) :
    Except Fault (Option (List Char)) :=
  if strncmp entry.mntDir resolvedPath entry.mntDir.length then
    match mntDir with
    | none => (strcpy (entry.mntDir.length + 1) entry.mntDir).map some
    | some dir =>
      if strncmp entry.mntDir dir entry.mntDir.length then
        (strcpy entry.mntDir.length entry.mntDir).map some
      else .ok mntDir
  else .ok mntDir

/-- A pass of the loop of `get_block_device`, which keeps the device as well. -/
def blockPass (resolvedPath : List Char) (kept : Option (List Char × List Char)) (entry : Mntent) :
    Except Fault (Option (List Char × List Char)) :=
  let copies := fun extra =>
    (strcpy (entry.mntDir.length + extra) entry.mntDir).bind fun dir =>
      (strcpy (entry.mntFsname.length + extra) entry.mntFsname).map fun fsname => some (dir, fsname)
  if strncmp entry.mntDir resolvedPath entry.mntDir.length then
    match kept with
    | none => copies 1
    | some (dir, _) =>
      if strncmp entry.mntDir dir entry.mntDir.length then copies 0 else .ok kept
  else .ok kept

/-- `get_mountpoint`. -/
def getMountpoint (sys : System) (errno : ℤ) (path : Option (List Char)) : Except Fault Returned :=
  match path with
  | none => .ok { value := none, errno := einval }
  | some path =>
    match sys.realpath path, sys.mtab with
    | .error e, _ => .ok { value := none, errno := e }
    | .ok _, .error e => .ok { value := none, errno := e }
    | .ok resolvedPath, .ok table =>
      (table.foldlM (mountPass resolvedPath) none).map fun value => { value, errno }

/-- The device is not returned if there is no such file. -/
def checkDevice (sys : System) (errno : ℤ) (mntFsname : List Char) : Returned :=
  match sys.stat mntFsname with
  | none => { value := some mntFsname, errno }
  | some e =>
    if e = enoent then { value := none, errno := enodev }
    else { value := some mntFsname, errno := e }

/-- `get_block_device`. -/
def getBlockDevice (sys : System) (errno : ℤ) (path : Option (List Char)) :
    Except Fault Returned :=
  match path with
  | none => .ok { value := none, errno := einval }
  | some path =>
    match sys.realpath path, sys.mtab with
    | .error e, _ => .ok { value := none, errno := e }
    | .ok _, .error e => .ok { value := none, errno := e }
    | .ok resolvedPath, .ok table =>
      (table.foldlM (blockPass resolvedPath) none).map fun kept =>
        match kept with
        | none => { value := none, errno }
        | some (_, fsname) => checkDevice sys errno fsname

/-! ### What is looked for -/

/-- The directory is the path itself or one that the path leads through. -/
def IsAncestor (dir path : List Char) : Prop :=
  dir = path ∨ dir = ['/'] ∨ dir ≠ [] ∧ dir ++ ['/'] <+: path

/-- No other entry has a longer directory that the path leads through. -/
structure LongestAncestor (table : List Mntent) (path : List Char) (e : Mntent) : Prop where
  mem : e ∈ table
  isAncestor : IsAncestor e.mntDir path
  le : ∀ f ∈ table, IsAncestor f.mntDir path → f.mntDir.length ≤ e.mntDir.length

/-- The functions return, `get_mountpoint` with the directory of the mount that the path is on, and
`get_block_device` with its device if there is such a file. -/
def FindsMount (sys : System) (errno : ℤ) (path : List Char) (table : List Mntent)
    (resolvedPath : List Char) : Prop :=
  ∃ e mountpoint device, LongestAncestor table resolvedPath e ∧
    getMountpoint sys errno (some path) = .ok mountpoint ∧ mountpoint.value = some e.mntDir ∧
    getBlockDevice sys errno (some path) = .ok device ∧
      (sys.stat e.mntFsname ≠ some enoent → device.value = some e.mntFsname)

/-- The first entry whose directory is the start of the path is the mount that the path is on. The
other entries with such a directory come behind it, and their directories are longer and end within
a component of the path. -/
def FirstLongest (table : List Mntent) (path : List Char) : Prop :=
  ∃ front e back, table = front ++ e :: back ∧ (∀ f ∈ front, ¬f.mntDir <+: path) ∧
    IsAncestor e.mntDir path ∧
    ∀ b ∈ back, b.mntDir <+: path →
      e.mntDir.length < b.mntDir.length ∧ ¬IsAncestor b.mntDir path

/-! ### One loop for both -/

theorem strncmp_iff {s t : List Char} : strncmp s t s.length ↔ s <+: t := by
  rw [strncmp, List.take_length, List.prefix_iff_eq_take]

instance decidableIsPrefix (s t : List Char) : Decidable (s <+: t) :=
  decidable_of_iff _ strncmp_iff

/-- A pass that keeps a whole entry. -/
def entryPass (path : List Char) (kept : Option Mntent) (entry : Mntent) :
    Except Fault (Option Mntent) :=
  if entry.mntDir <+: path then
    match kept with
    | none => .ok (some entry)
    | some e => if entry.mntDir <+: e.mntDir then .error .outOfBounds else .ok kept
  else .ok kept

/-- The strings that `get_block_device` keeps of an entry. -/
def Mntent.both (e : Mntent) : List Char × List Char := (e.mntDir, e.mntFsname)

/-- Passes that agree make loops that agree. -/
theorem foldlM_map {α κ κ' : Type} {g : κ → α → Except Fault κ} {g' : κ' → α → Except Fault κ'}
    (h : κ → κ') (hpass : ∀ k a, g' (h k) a = (g k a).map h) (l : List α) (k : κ) :
    l.foldlM g' (h k) = (l.foldlM g k).map h := by
  induction l generalizing k with
  | nil => rfl
  | cons a l ih =>
    rw [List.foldlM_cons, List.foldlM_cons, hpass]
    cases hk : g k a with
    | error fault => rfl
    | ok k' => exact ih k'

/-- A block with a byte more than the string has room for its end. -/
theorem strcpy_of_room (s : List Char) : strcpy (s.length + 1) s = .ok s :=
  if_pos (Nat.le_refl _)

theorem strcpy_of_no_room (s : List Char) : strcpy s.length s = .error .outOfBounds :=
  if_neg (Nat.not_succ_le_self _)

section Loop

variable {path : List Char} {e : Mntent} {front back : List Mntent}

theorem mountPass_map (kept : Option Mntent) (entry : Mntent) :
    mountPass path (kept.map Mntent.mntDir) entry =
      (entryPass path kept entry).map (Option.map Mntent.mntDir) := by
  by_cases hpath : entry.mntDir <+: path
  · cases kept with
    | none => simp [mountPass, entryPass, strncmp_iff, hpath, strcpy_of_room, Except.map]
    | some e =>
      by_cases hdir : entry.mntDir <+: e.mntDir
      · simp [mountPass, entryPass, strncmp_iff, hpath, hdir, strcpy_of_no_room, Except.map]
      · simp [mountPass, entryPass, strncmp_iff, hpath, hdir, Except.map]
  · cases kept with
    | none => simp [mountPass, entryPass, strncmp_iff, hpath, Except.map]
    | some e => simp [mountPass, entryPass, strncmp_iff, hpath, Except.map]

theorem blockPass_map (kept : Option Mntent) (entry : Mntent) :
    blockPass path (kept.map Mntent.both) entry =
      (entryPass path kept entry).map (Option.map Mntent.both) := by
  by_cases hpath : entry.mntDir <+: path
  · cases kept with
    | none =>
      simp [blockPass, entryPass, strncmp_iff, hpath, strcpy_of_room, Except.map, Except.bind,
        Mntent.both]
    | some e =>
      by_cases hdir : entry.mntDir <+: e.mntDir
      · simp [blockPass, entryPass, strncmp_iff, hpath, hdir, strcpy_of_no_room, Except.map,
          Except.bind, Mntent.both]
      · simp [blockPass, entryPass, strncmp_iff, hpath, hdir, Except.map, Mntent.both]
  · cases kept with
    | none => simp [blockPass, entryPass, strncmp_iff, hpath, Except.map]
    | some e => simp [blockPass, entryPass, strncmp_iff, hpath, Except.map, Mntent.both]

/-- The two loops agree. -/
theorem mountLoop_eq (path : List Char) (table : List Mntent) :
    table.foldlM (mountPass path) none =
      (table.foldlM (entryPass path) none).map (Option.map Mntent.mntDir) :=
  foldlM_map (Option.map Mntent.mntDir) mountPass_map table none

theorem blockLoop_eq (path : List Char) (table : List Mntent) :
    table.foldlM (blockPass path) none =
      (table.foldlM (entryPass path) none).map (Option.map Mntent.both) :=
  foldlM_map (Option.map Mntent.both) blockPass_map table none

/-! ### What the loop keeps -/

/-- Entries that do not match are passed over. -/
theorem loop_front (hfront : ∀ f ∈ front, ¬f.mntDir <+: path) (he : e.mntDir <+: path) :
    (front ++ e :: back).foldlM (entryPass path) none =
      back.foldlM (entryPass path) (some e) := by
  induction front with
  | nil =>
    rw [List.nil_append, List.foldlM_cons, entryPass, if_pos he]
    rfl
  | cons f front ih =>
    obtain ⟨hf, hfront⟩ := List.forall_mem_cons.mp hfront
    rw [List.cons_append, List.foldlM_cons, entryPass, if_neg hf]
    exact ih hfront

/-- An entry is kept as long as none is the start of it. -/
theorem loop_kept (hback : ∀ b ∈ back, ¬b.mntDir <+: e.mntDir) :
    back.foldlM (entryPass path) (some e) = .ok (some e) := by
  induction back with
  | nil => rfl
  | cons b back ih =>
    obtain ⟨hb, hback⟩ := List.forall_mem_cons.mp hback
    have hpass : entryPass path (some e) b = .ok (some e) := by simp [entryPass, hb]
    rw [List.foldlM_cons, hpass]
    exact ih hback

/-- The string of an entry that is the start of it has no room. -/
theorem loop_fault (he : e.mntDir <+: path) (hback : ∃ b ∈ back, b.mntDir <+: e.mntDir) :
    back.foldlM (entryPass path) (some e) = .error .outOfBounds := by
  induction back with
  | nil =>
    obtain ⟨b, hb, -⟩ := hback
    exact absurd hb List.not_mem_nil
  | cons b back ih =>
    rw [List.foldlM_cons]
    by_cases hb : b.mntDir <+: e.mntDir
    · have hpass : entryPass path (some e) b = .error .outOfBounds := by
        simp [entryPass, hb, hb.trans he]
      rw [hpass]
      rfl
    · have hpass : entryPass path (some e) b = .ok (some e) := by simp [entryPass, hb]
      rw [hpass]
      obtain ⟨b', hb', hstart⟩ := hback
      obtain rfl | hmem := List.mem_cons.mp hb'
      · exact absurd hstart hb
      · exact ih ⟨b', hmem, hstart⟩

/-- **The loop** keeps the first entry that matches, or faults. -/
theorem loop_of_first (hfront : ∀ f ∈ front, ¬f.mntDir <+: path) (he : e.mntDir <+: path) :
    (front ++ e :: back).foldlM (entryPass path) none = .ok (some e) ∧
        (∀ b ∈ back, ¬b.mntDir <+: e.mntDir) ∨
      (front ++ e :: back).foldlM (entryPass path) none = .error .outOfBounds := by
  rw [loop_front hfront he]
  by_cases hback : ∃ b ∈ back, b.mntDir <+: e.mntDir
  · exact .inr (loop_fault he hback)
  · have hnone : ∀ b ∈ back, ¬b.mntDir <+: e.mntDir := fun b hb hstart => hback ⟨b, hb, hstart⟩
    exact .inl ⟨loop_kept hnone, hnone⟩

end Loop

/-! ### Finding the mount -/

section Find

variable {sys : System} {errno : ℤ} {path resolvedPath : List Char} {table : List Mntent}

/-- An ancestor of an absolute path is the start of it. -/
theorem IsAncestor.isPrefix {dir : List Char} (habs : path.head? = some '/')
    (h : IsAncestor dir path) : dir <+: path := by
  obtain rfl | rfl | ⟨-, hdir⟩ := h
  · exact List.prefix_refl dir
  · obtain ⟨rest, rfl⟩ : ∃ rest, path = '/' :: rest := List.head?_eq_some_iff.mp habs
    exact ⟨rest, rfl⟩
  · exact (List.prefix_append dir ['/']).trans hdir

/-- A table with an entry that matches has a first one. -/
theorem exists_first (h : ∃ e ∈ table, e.mntDir <+: path) :
    ∃ front e back, table = front ++ e :: back ∧ (∀ f ∈ front, ¬f.mntDir <+: path) ∧
      e.mntDir <+: path := by
  obtain ⟨e, hfind⟩ : ∃ e, table.find? (fun e => decide (e.mntDir <+: path)) = some e := by
    refine Option.isSome_iff_exists.mp (List.find?_isSome.mpr ?_)
    simpa using h
  obtain ⟨he, front, back, rfl, hfront⟩ := List.find?_eq_some_iff_append.mp hfind
  exact ⟨front, e, back, rfl, fun f hf => by simpa using hfront f hf, of_decide_eq_true he⟩

/-- The first entry that matches is the longest ancestor if those behind it are no ancestors. -/
theorem longestAncestor_of_first {front back : List Mntent} {e : Mntent}
    (habs : path.head? = some '/') (hfront : ∀ f ∈ front, ¬f.mntDir <+: path)
    (hanc : IsAncestor e.mntDir path)
    (hback : ∀ b ∈ back, b.mntDir <+: path →
      e.mntDir.length < b.mntDir.length ∧ ¬IsAncestor b.mntDir path) :
    LongestAncestor (front ++ e :: back) path e := by
  refine ⟨by simp, hanc, fun f hf hfanc => ?_⟩
  have hstart := hfanc.isPrefix habs
  obtain hmem | hmem := List.mem_append.mp hf
  · exact absurd hstart (hfront f hmem)
  obtain rfl | hmem := List.mem_cons.mp hmem
  · exact Nat.le_refl _
  · exact absurd hfanc (hback f hmem hstart).2

theorem getMountpoint_eq (hpath : sys.realpath path = .ok resolvedPath)
    (hmtab : sys.mtab = .ok table) :
    getMountpoint sys errno (some path) =
      (table.foldlM (entryPass resolvedPath) none).map fun kept =>
        { value := kept.map Mntent.mntDir, errno } := by
  simp only [getMountpoint, hpath, hmtab, mountLoop_eq]
  cases table.foldlM (entryPass resolvedPath) none with
  | error fault => rfl
  | ok kept => rfl

theorem getBlockDevice_eq (hpath : sys.realpath path = .ok resolvedPath)
    (hmtab : sys.mtab = .ok table) :
    getBlockDevice sys errno (some path) =
      (table.foldlM (entryPass resolvedPath) none).map fun kept =>
        kept.elim { value := none, errno } fun e => checkDevice sys errno e.mntFsname := by
  simp only [getBlockDevice, hpath, hmtab, blockLoop_eq]
  cases table.foldlM (entryPass resolvedPath) none with
  | error fault => rfl
  | ok kept =>
    cases kept with
    | none => rfl
    | some e => rfl

/-- A device that can be looked at is returned. -/
theorem checkDevice_of_exists {mntFsname : List Char} (h : sys.stat mntFsname ≠ some enoent) :
    (checkDevice sys errno mntFsname).value = some mntFsname := by
  rw [checkDevice]
  cases hstat : sys.stat mntFsname with
  | none => rfl
  | some e =>
    have hne : e ≠ enoent := fun he => h (hstat.trans (congrArg some he))
    simp [hne]

/-- **The mount of a path** is found if and only if it is the first entry of the table that matches,
and what matches behind it is longer and no ancestor. -/
theorem findsMount_iff (hpath : sys.realpath path = .ok resolvedPath)
    (habs : resolvedPath.head? = some '/') (hmtab : sys.mtab = .ok table) :
    FindsMount sys errno path table resolvedPath ↔ FirstLongest table resolvedPath := by
  constructor
  · rintro ⟨e', mountpoint, device, hlongest, hmount, hvalue, -, -⟩
    obtain ⟨front, e, back, rfl, hfront, he⟩ :=
      exists_first ⟨e', hlongest.mem, hlongest.isAncestor.isPrefix habs⟩
    rw [getMountpoint_eq hpath hmtab] at hmount
    obtain ⟨hloop, hback⟩ | hloop := loop_of_first hfront he
    · rw [hloop] at hmount
      cases hmount
      have hdir : e.mntDir = e'.mntDir := Option.some.inj hvalue
      refine ⟨front, e, back, rfl, hfront, hdir ▸ hlongest.isAncestor, fun b hb hstart => ?_⟩
      have hlt : e.mntDir.length < b.mntDir.length := by
        by_contra hle
        exact hback b hb (List.prefix_of_prefix_length_le hstart he (Nat.not_lt.mp hle))
      refine ⟨hlt, fun hanc => ?_⟩
      have hle := hlongest.le b (by simp [hb]) hanc
      rw [← hdir] at hle
      omega
    · rw [hloop] at hmount
      cases hmount
  · rintro ⟨front, e, back, rfl, hfront, hanc, hback⟩
    have hloop : (front ++ e :: back).foldlM (entryPass resolvedPath) none = .ok (some e) := by
      rw [loop_front hfront (hanc.isPrefix habs)]
      refine loop_kept fun b hb hstart => ?_
      have hlt := (hback b hb (hstart.trans (hanc.isPrefix habs))).1
      have hle := hstart.length_le
      omega
    have hlongest : LongestAncestor (front ++ e :: back) resolvedPath e :=
      longestAncestor_of_first habs hfront hanc hback
    have hmount : getMountpoint sys errno (some path) =
        .ok { value := some e.mntDir, errno } := by
      rw [getMountpoint_eq hpath hmtab, hloop]
      rfl
    have hdevice : getBlockDevice sys errno (some path) =
        .ok (checkDevice sys errno e.mntFsname) := by
      rw [getBlockDevice_eq hpath hmtab, hloop]
      rfl
    exact ⟨e, _, _, hlongest, hmount, rfl, hdevice, checkDevice_of_exists⟩

end Find

/-- Where no path has symbolic links and every device is there. -/
def systemOf (table : List Mntent) : System where
  realpath path := .ok path
  mtab := .ok table
  stat _ := none

/-- The mounts of `/` and of `/home`. -/
def rootMount : Mntent := { mntFsname := "/dev/sda1".toList, mntDir := "/".toList }

def homeMount : Mntent := { mntFsname := "/dev/sda2".toList, mntDir := "/home".toList }

theorem findsMount_home :
    FindsMount (systemOf [homeMount]) 0 "/home/u".toList [homeMount] "/home/u".toList := by
  refine (findsMount_iff rfl rfl rfl).mpr ⟨[], homeMount, [], rfl, List.forall_mem_nil _, ?_,
    List.forall_mem_nil _⟩
  exact .inr (.inr ⟨by decide, by decide⟩)

/-- With the mount of `/` in front, that of `/home` is not found. -/
theorem home_not_findsMount :
    ¬FindsMount (systemOf [rootMount, homeMount]) 0 "/home/u".toList [rootMount, homeMount]
      "/home/u".toList := by
  rintro ⟨e, mountpoint, device, hlongest, hmount, hvalue, -, -⟩
  have hrun : getMountpoint (systemOf [rootMount, homeMount]) 0 (some "/home/u".toList) =
      .ok { value := some rootMount.mntDir, errno := 0 } := rfl
  rw [hrun] at hmount
  cases hmount
  have hdir : rootMount.mntDir = e.mntDir := Option.some.inj hvalue
  have hle := hlongest.le homeMount (by simp) (.inr (.inr ⟨by decide, by decide⟩))
  rw [← hdir] at hle
  exact absurd hle (by decide)

end MountUtils

end SnowballLtp
