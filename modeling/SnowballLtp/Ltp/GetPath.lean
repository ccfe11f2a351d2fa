import SnowballLtp.Machine.Loop
import SnowballLtp.Machine.Separated
import SnowballLtp.Machine.Snprintf

/-!
# Path of a program

`tst_get_path` looks for a program in the directories of the environment variable `PATH`. A pass of
its loop copies a component to the buffer of the caller, puts the name of the program behind it, and
asks whether the file is there. What does not fit the buffer is cut off, and is not asked for.

## Main definitions

* `tstGetPath`, `getPathPass`: the function and a pass of its loop.
* `joined`: the path that a component stands for.

## Main results

* `tstGetPath_spec`.
-/

namespace SnowballLtp

namespace GetPath

/-- What `file_exist` asks the system: whether a path can be read, and the mode of a file if there
is one. -/
structure Files where
  readable : List Char → Bool
  stat : List Char → Option ℕ

/-- `S_ISREG`. -/
def isReg (mode : ℕ) : Bool := decide (mode &&& 0o170000 = 0o100000)

/-- `file_exist`. -/
def fileExist (files : Files) (path : List Char) : Bool :=
  files.readable path && (files.stat path).any isReg

/-- The value returned, and the memory of the buffer. -/
structure Answer where
  ret : ℤ
  buf : List Char
  deriving DecidableEq, Repr

/-- The loop: what is left of the value, and the memory of the buffer. -/
structure GetPathState where
  start : List Char
  buf : List Char

variable (exist : List Char → Bool) (prog : List Char) (bufLen : ℕ)

/-- The size of the copy of the first component, with its NUL. -/
def copySize (start : List Char) : ℕ :=
  match cut ':' start with
  | (component, some _) => min bufLen (component.length + 1)
  | (_, none) => bufLen

/-- Copy the first component of the value, or a dot when it is empty. -/
def copyComponent (start buf : List Char) : Except Fault (List Char) := do
  let (buf, _) ← snprintf buf 0 (copySize bufLen start) start
  if (cstr buf 0).length = 0 then
    let (buf, _) ← snprintf buf 0 bufLen ['.']
    return buf
  else return buf

/-- Put the name of the program behind the string in the buffer, with a slash unless the last
character `buf[size - 1]` is one. -/
def appendProg (buf : List Char) : Except Fault (List Char × ℕ) :=
  let size := (cstr buf 0).length
  match (cstr buf 0).getLast? with
  | none => .error .outOfBounds
  | some c =>
    if c ≠ '/' then snprintf buf size (bufLen - size) ('/' :: prog)
    else snprintf buf size (bufLen - size) prog

/-- The buffer after a component, and whether the path fits and the file is there. -/
def tryComponent (start buf : List Char) : Except Fault (List Char × Bool) := do
  let buf ← copyComponent bufLen start buf
  let size := (cstr buf 0).length
  let (buf, ret) ← appendProg prog bufLen buf
  return (buf, decide (ret < bufLen - size) && exist (cstr buf 0))

/-- A pass of the loop. -/
def getPathPass (s : GetPathState) : GetPathState ⊕ Except Fault Answer :=
  match tryComponent exist prog bufLen s.start s.buf with
  | .error fault => .inr (.error fault)
  | .ok (buf, found) =>
    if found then .inr (.ok { ret := 0, buf })
    else
      match (cut ':' s.start).2 with
      | some start => .inl { start, buf }
      | none => .inr (.ok { ret := -1, buf })

/-- `tst_get_path`, with the value of `PATH` and the memory of the buffer. -/
def tstGetPath (path : Option (List Char)) (buf : List Char) (fuel : ℕ) :
    Option (Except Fault Answer) :=
  match path with
  | none => some (.ok { ret := -1, buf })
  | some path => iterate (getPathPass exist prog bufLen) fuel { start := path, buf }

/-! ### Paths -/

/-- The directory that a component stands for. -/
def directory (component : List Char) : List Char := if component = [] then ['.'] else component

/-- The path of the program in a directory. -/
def inDirectory (dir : List Char) : List Char :=
  dir ++ if dir.getLast? = some '/' then prog else '/' :: prog

/-- The path that a component stands for. -/
def joined (component : List Char) : List Char := inDirectory prog (directory component)

/-- The path fits the buffer, and the file is there. -/
def Suits (p : List Char) : Prop := p.length < bufLen ∧ exist p = true

instance (p : List Char) : Decidable (Suits exist bufLen p) := inferInstanceAs (Decidable (_ ∧ _))

/-- The first of the paths that suits. -/
def firstPath (components : List (List Char)) : Option (List Char) :=
  (components.map (joined prog)).find? fun p => decide (Suits exist bufLen p)

variable {exist prog bufLen}

/-! ### A component -/

/-- The memory keeps its length, and what stands behind the buffer. -/
def Framed (bufLen : ℕ) (buf buf' : List Char) : Prop :=
  buf'.length = buf.length ∧ buf'.drop bufLen = buf.drop bufLen

theorem Framed.trans {a b c : List Char} (h : Framed bufLen a b) (h' : Framed bufLen b c) :
    Framed bufLen a c :=
  ⟨h'.1.trans h.1, h'.2.trans h.2⟩

/-- A text at the start of the buffer. -/
theorem exists_snprintf_start {buf text : List Char} {size : ℕ} (htext : nul ∉ text)
    (hpos : 0 < size) (hle : size ≤ bufLen) (hbuf : bufLen ≤ buf.length) :
    ∃ buf', snprintf buf 0 size text = .ok (buf', text.length) ∧
      Holds buf' (text.take (size - 1)) ∧ Framed bufLen buf buf' := by
  obtain ⟨buf', heq, hholds, hlen, hdrop⟩ := snprintf_append buf [] size rfl
    List.not_mem_nil htext hpos (by rw [List.length_nil]; omega)
  exact ⟨buf', heq, hholds, hlen, hdrop bufLen (by rw [List.length_nil]; omega)⟩

theorem nul_notMem_dot : nul ∉ ['.'] := by decide

theorem copySize_le (hlen : 2 ≤ bufLen) (start : List Char) :
    0 < copySize bufLen start ∧ copySize bufLen start ≤ bufLen := by
  rw [copySize]
  split <;> omega

/-- What is copied of the value is what fits of the component. -/
theorem take_copySize (start : List Char) :
    start.take (copySize bufLen start - 1) = (cut ':' start).1.take (bufLen - 1) := by
  rw [copySize]
  split
  · next component rest hcut =>
    have hrest : (cut ':' start).2 = some rest := by rw [hcut]
    have hmin : min bufLen (component.length + 1) - 1 = min (bufLen - 1) component.length := by
      omega
    have heq := eq_of_cut_some hrest
    rw [hcut] at heq ⊢
    dsimp only at heq ⊢
    rw [heq, hmin, List.take_append_of_le_length (Nat.min_le_right _ _), ← List.take_eq_take_min]
  · next component hcut =>
    have hnone : (cut ':' start).2 = none := by rw [hcut]
    rw [← eq_of_cut_none hnone]

/-- The directory is copied as far as it fits. -/
theorem exists_copyComponent {start buf : List Char} (hnul : nul ∉ start) (hlen : 2 ≤ bufLen)
    (hbuf : bufLen ≤ buf.length) :
    ∃ buf', copyComponent bufLen start buf = .ok buf' ∧
      Holds buf' ((directory (cut ':' start).1).take (bufLen - 1)) ∧ Framed bufLen buf buf' := by
  obtain ⟨hpos, hle⟩ := copySize_le hlen start
  obtain ⟨buf₁, hcopy, hholds, hframe⟩ := exists_snprintf_start hnul hpos hle hbuf
  rw [take_copySize] at hholds
  have hrun : copyComponent bufLen start buf =
      if (cstr buf₁ 0).length = 0 then (snprintf buf₁ 0 bufLen ['.']).map Prod.fst
      else .ok buf₁ := by
    rw [copyComponent, hcopy]
    rfl
  rw [hrun, hholds.cstr_eq, directory]
  by_cases hempty : (cut ':' start).1 = []
  · obtain ⟨buf₂, hdot, hholds', hframe'⟩ := exists_snprintf_start nul_notMem_dot
      (Nat.lt_of_lt_of_le (by decide) hlen) (Nat.le_refl bufLen) (hframe.1 ▸ hbuf)
    rw [hempty, if_pos (by rw [List.take_nil]; rfl), if_pos rfl, hdot]
    exact ⟨buf₂, rfl, hholds', hframe.trans hframe'⟩
  · have hlength : ¬((cut ':' start).1.take (bufLen - 1)).length = 0 := by
      have hpos := List.length_pos_iff.mpr hempty
      rw [List.length_take]
      omega
    rw [if_neg hlength, if_neg hempty]
    exact ⟨buf₁, rfl, hholds, hframe⟩

/-- The name of the program is put behind a directory, and the value returned tells whether all of
the path fits. -/
theorem exists_appendProg {dir buf : List Char} (hprog : nul ∉ prog) (hne : prog ≠ [])
    (hdir : dir ≠ []) (hlen : 2 ≤ bufLen) (hbuf : bufLen ≤ buf.length)
    (h : Holds buf (dir.take (bufLen - 1))) :
    ∃ buf' ret, appendProg prog bufLen buf = .ok (buf', ret) ∧ Framed bufLen buf buf' ∧
      (ret < bufLen - (dir.take (bufLen - 1)).length ↔ (inDirectory prog dir).length < bufLen) ∧
      ((inDirectory prog dir).length < bufLen → Holds buf' (inDirectory prog dir)) := by
  have hstored : (dir.take (bufLen - 1)).length = min (bufLen - 1) dir.length := List.length_take
  have hpos := List.length_pos_iff.mpr hdir
  -- The text that is put behind what is stored of the directory.
  obtain ⟨c, hc⟩ : ∃ c, (dir.take (bufLen - 1)).getLast? = some c := by
    refine ⟨_, List.getLast?_eq_some_getLast fun hnil => ?_⟩
    rw [hnil, List.length_nil] at hstored
    omega
  have hrun : appendProg prog bufLen buf = snprintf buf (dir.take (bufLen - 1)).length
      (bufLen - (dir.take (bufLen - 1)).length) (if c = '/' then prog else '/' :: prog) := by
    rw [appendProg, h.cstr_eq, hc]
    dsimp only
    split <;> simp_all
  have htext : nul ∉ if c = '/' then prog else '/' :: prog := by
    split
    · exact hprog
    · exact List.not_mem_cons_of_ne_of_not_mem (by decide) hprog
  have htextpos : 0 < (if c = '/' then prog else '/' :: prog).length := by
    split
    · exact List.length_pos_iff.mpr hne
    · exact Nat.succ_pos _
  obtain ⟨buf', heq, hholds, hlen', hdrop⟩ := snprintf_append buf _
    (bufLen - (dir.take (bufLen - 1)).length) h.take_eq h.1 htext (by omega) (by omega)
  refine ⟨buf', _, hrun.trans heq, ⟨hlen', hdrop bufLen (by omega)⟩, ?_⟩
  by_cases hfits : dir.length < bufLen
  · have htake : dir.take (bufLen - 1) = dir := List.take_of_length_le (by omega)
    have hjoined : inDirectory prog dir = dir ++ if c = '/' then prog else '/' :: prog := by
      rw [htake] at hc
      rw [inDirectory, hc]
      simp
    rw [htake] at hholds ⊢
    rw [hjoined, List.length_append]
    refine ⟨by omega, fun hlt => ?_⟩
    rwa [List.take_of_length_le (by omega)] at hholds
  · have hlong : ¬(inDirectory prog dir).length < bufLen := by
      rw [inDirectory, List.length_append]
      omega
    exact ⟨iff_of_false (by omega) hlong, fun hlt => absurd hlt hlong⟩

theorem directory_ne_nil (component : List Char) : directory component ≠ [] := by
  rw [directory]
  split
  · exact List.cons_ne_nil _ _
  · next hne => exact hne

theorem decide_suits (p : List Char) :
    decide (Suits exist bufLen p) = (decide (p.length < bufLen) && exist p) := by
  rw [Bool.eq_iff_iff, decide_eq_true_iff, Suits, Bool.and_eq_true, decide_eq_true_iff]

variable (exist) in
/-- **A component.** The file is found just when the path that the component stands for suits, and
then the path is in the buffer. -/
theorem exists_tryComponent {start buf : List Char} (hnul : nul ∉ start) (hprog : nul ∉ prog)
    (hne : prog ≠ []) (hlen : 2 ≤ bufLen) (hbuf : bufLen ≤ buf.length) :
    ∃ buf', tryComponent exist prog bufLen start buf =
        .ok (buf', decide (Suits exist bufLen (joined prog (cut ':' start).1))) ∧
      Framed bufLen buf buf' ∧
      (Suits exist bufLen (joined prog (cut ':' start).1) →
        cstr buf' 0 = joined prog (cut ':' start).1) := by
  obtain ⟨buf₁, hcopy, hholds, hframe⟩ := exists_copyComponent hnul hlen hbuf
  obtain ⟨buf₂, ret, happend, hframe', hfits, hholds'⟩ := exists_appendProg hprog hne
    (directory_ne_nil _) hlen (hframe.1 ▸ hbuf) hholds
  have hrun : tryComponent exist prog bufLen start buf =
      .ok (buf₂, decide (ret < bufLen - (cstr buf₁ 0).length) && exist (cstr buf₂ 0)) := by
    rw [tryComponent, hcopy]
    dsimp only [bind, Except.bind]
    rw [happend]
    rfl
  refine ⟨buf₂, hrun.trans ?_, hframe.trans hframe', fun h => (hholds' h.1).cstr_eq⟩
  have hstored (hlt : (joined prog (cut ':' start).1).length < bufLen) :
      cstr buf₂ 0 = joined prog (cut ':' start).1 :=
    (hholds' hlt).cstr_eq
  have hfits' : ret < bufLen - ((directory (cut ':' start).1).take (bufLen - 1)).length ↔
      (joined prog (cut ':' start).1).length < bufLen := hfits
  rw [hholds.cstr_eq, decide_eq_decide.mpr hfits', decide_suits]
  by_cases hlt : (joined prog (cut ':' start).1).length < bufLen
  · rw [hstored hlt]
  · rw [decide_eq_false hlt, Bool.false_and, Bool.false_and]

/-! ### The loop -/

/-- What the function should return for some components. -/
def Correct (exist : List Char → Bool) (prog : List Char) (bufLen : ℕ)
    (components : List (List Char)) (answer : Answer) : Prop :=
  (∃ p, firstPath exist prog bufLen components = some p ∧ answer.ret = 0 ∧ cstr answer.buf 0 = p) ∨
    firstPath exist prog bufLen components = none ∧ answer.ret = -1

theorem firstPath_cons_of_suits {c : List Char} (h : Suits exist bufLen (joined prog c))
    (cs : List (List Char)) : firstPath exist prog bufLen (c :: cs) = some (joined prog c) := by
  simp [firstPath, h]

theorem firstPath_cons_of_not_suits {c : List Char} (h : ¬Suits exist bufLen (joined prog c))
    (cs : List (List Char)) :
    firstPath exist prog bufLen (c :: cs) = firstPath exist prog bufLen cs := by
  simp [firstPath, h]

theorem isSome_firstPath_iff {cs : List (List Char)} :
    (firstPath exist prog bufLen cs).isSome ↔ ∃ c ∈ cs, Suits exist bufLen (joined prog c) := by
  simp [firstPath]

/-- **The loop** finds the first path that suits. -/
theorem exists_iterate_getPathPass (hprog : nul ∉ prog) (hne : prog ≠ []) (hlen : 2 ≤ bufLen)
    (start buf : List Char) (hnul : nul ∉ start) (hbuf : bufLen ≤ buf.length) :
    ∃ fuel answer, iterate (getPathPass exist prog bufLen) fuel { start, buf } = some (.ok answer) ∧
      Correct exist prog bufLen (start.splitOn ':') answer ∧ Framed bufLen buf answer.buf := by
  obtain ⟨buf', htry, hframe, hstored⟩ := exists_tryComponent exist hnul hprog hne hlen hbuf
  have hsplit : start.splitOn ':' =
      (cut ':' start).1 :: ((cut ':' start).2.elim [] fun rest => rest.splitOn ':') :=
    splitOn_eq_cut start
  rw [hsplit]
  by_cases hsuits : Suits exist bufLen (joined prog (cut ':' start).1)
  · have hpass : getPathPass exist prog bufLen { start, buf } =
        .inr (.ok { ret := 0, buf := buf' }) := by
      rw [getPathPass, htry, decide_eq_true hsuits]
      rfl
    exact ⟨1, _, iterate_succ_inr hpass,
      .inl ⟨_, firstPath_cons_of_suits hsuits _, rfl, hstored hsuits⟩, hframe⟩
  have hpass : getPathPass exist prog bufLen { start, buf } =
      match (cut ':' start).2 with
      | some start => .inl { start, buf := buf' }
      | none => .inr (.ok { ret := -1, buf := buf' }) := by
    rw [getPathPass, htry, decide_eq_false hsuits]
    rfl
  cases hcut : (cut ':' start).2 with
  | none =>
    rw [hcut] at hpass
    refine ⟨1, _, iterate_succ_inr hpass, .inr ⟨?_, rfl⟩, hframe⟩
    rw [firstPath_cons_of_not_suits hsuits]
    rfl
  | some rest =>
    rw [hcut] at hpass
    have hlt : rest.length < start.length := length_lt_of_cut_some hcut
    have hnul' : nul ∉ rest := notMem_of_cut_some hcut hnul
    obtain ⟨fuel, answer, hrun, hcorrect, hframe'⟩ :=
      exists_iterate_getPathPass hprog hne hlen rest buf' hnul' (hframe.1 ▸ hbuf)
    refine ⟨fuel + 1, answer, (iterate_succ_inl hpass).trans hrun, ?_, hframe.trans hframe'⟩
    rwa [Correct, firstPath_cons_of_not_suits hsuits, Option.elim_some]
termination_by start.length

/-- **Path of a program.** The function returns, it returns zero just when some component stands for
a path that fits the buffer and is there, the buffer then has the first such path, and it returns
minus one otherwise; what stands behind the buffer is left. -/
theorem tstGetPath_spec (exist : List Char → Bool) (prog : List Char) (bufLen : ℕ)
    (path buf : List Char) (hpath : nul ∉ path) (hprog : nul ∉ prog) (hne : prog ≠ [])
    (hlen : 2 ≤ bufLen) (hbuf : bufLen ≤ buf.length) :
    ∃ fuel answer, tstGetPath exist prog bufLen (some path) buf fuel = some (.ok answer) ∧
      (answer.ret = 0 ↔ ∃ c ∈ path.splitOn ':', (joined prog c).length < bufLen ∧
        exist (joined prog c) = true) ∧
      (answer.ret = 0 → firstPath exist prog bufLen (path.splitOn ':') = some (cstr answer.buf 0)) ∧
      (answer.ret ≠ 0 → answer.ret = -1) ∧
      answer.buf.length = buf.length ∧ answer.buf.drop bufLen = buf.drop bufLen := by
  obtain ⟨fuel, answer, hrun, hcorrect, hframe⟩ :=
    exists_iterate_getPathPass hprog hne hlen path buf hpath hbuf
  have hexists : (firstPath exist prog bufLen (path.splitOn ':')).isSome ↔
      ∃ c ∈ path.splitOn ':', (joined prog c).length < bufLen ∧ exist (joined prog c) = true :=
    isSome_firstPath_iff
  rcases hcorrect with ⟨p, hfirst, hret, hstr⟩ | ⟨hfirst, hret⟩
  · refine ⟨fuel, answer, hrun, Iff.trans ?_ hexists,
      fun _ => hfirst.trans (congrArg some hstr.symm), fun h => absurd hret h, hframe.1, hframe.2⟩
    rw [hfirst]
    exact iff_of_true hret rfl
  · have hne : answer.ret ≠ 0 := by
      rw [hret]
      decide
    refine ⟨fuel, answer, hrun, Iff.trans ?_ hexists, fun h => absurd h hne, fun _ => hret,
      hframe.1, hframe.2⟩
    rw [hfirst]
    exact iff_of_false hne nofun

/-- A directory with a regular file that can be read. -/
def oneDirectory : Files where
  readable path := decide (path = ['/', 'b', '/', 'l', 's'])
  stat path := if path = ['/', 'b', '/', 'l', 's'] then some 0o100755 else none

theorem tstGetPath_spec_oneDirectory :
    ∃ fuel answer, tstGetPath (fileExist oneDirectory) ['l', 's'] 6 (some [':', '/', 'b'])
        (List.replicate 8 'x') fuel = some (.ok answer) ∧
      (answer.ret = 0 ↔ ∃ c ∈ [':', '/', 'b'].splitOn ':', (joined ['l', 's'] c).length < 6 ∧
        fileExist oneDirectory (joined ['l', 's'] c) = true) ∧
      (answer.ret = 0 → firstPath (fileExist oneDirectory) ['l', 's'] 6
        ([':', '/', 'b'].splitOn ':') = some (cstr answer.buf 0)) ∧
      (answer.ret ≠ 0 → answer.ret = -1) ∧
      answer.buf.length = (List.replicate 8 'x').length ∧
      answer.buf.drop 6 = (List.replicate 8 'x').drop 6 :=
  tstGetPath_spec (fileExist oneDirectory) ['l', 's'] 6 [':', '/', 'b'] (List.replicate 8 'x')
    (by decide) (by decide) (by decide) (by decide) (by decide)

end GetPath

end SnowballLtp
