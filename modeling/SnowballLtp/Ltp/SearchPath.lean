import SnowballLtp.Machine.CString
import SnowballLtp.Machine.Decimal
import SnowballLtp.Machine.Loop
import SnowballLtp.Machine.Separated

/-!
# Looking for a command

`search_path` looks for a command in the directories of the environment variable `PATH`. A cursor
goes through the value of the variable; it stands at the separator behind a component after a pass
of the loop, and is moved over the separator in the next one. In the first pass there is no
separator yet, which the loop takes from the cursor's being at the start of the value.

## Main definitions

* `System`: what the function learns from the system.
* `searchPath`, `searchPass`: the function and a pass of its loop.
* `searchList`: the search through a list of components.

## Main results

* `exists_iterate_searchPass`: the loop searches the components.
* `searchPath_inOrder_iff`, `searchPath_storesFit_iff`.
-/

namespace SnowballLtp

namespace SearchPath

/-- What the function learns from the system: `PATH_MAX`, the paths at which `access` finds
something, whether `getcwd` succeeds, and what it leaves in its buffer. -/
structure System where
  pathMax : ℕ
  access : List Char → Bool
  cwdFound : Bool
  cwd : List Char
  posix_le : 256 ≤ pathMax
  cwd_lt : cwd.length < pathMax

/-- A component of the path that was looked at, and the path that `access` was called with. -/
structure Looked where
  component : List Char
  tried : Option (List Char)
  deriving DecidableEq, Repr

/-- What the function returns, what it leaves in `res_path`, and what it looked at. -/
structure Found where
  ret : ℤ
  resPath : List Char
  looked : List Looked
  deriving DecidableEq, Repr

/-- What comes of a component: it is skipped, the current directory is not found, or `access` is
called. -/
inductive Look
  | tooLong
  | noCwd
  | tried (resPath : List Char)
  deriving DecidableEq, Repr

/-- The loop: the cursor, the component, whether it is the last one, the number of those that were
skipped, the current directory if it was asked for, and what was looked at. -/
structure SearchState where
  cp : ℕ
  path : ℕ
  lastpath : Bool
  toolong : ℤ
  curpath : List Char
  looked : List Looked

def SearchState.initial : SearchState where
  cp := 0
  path := 0
  lastpath := false
  toolong := 0
  curpath := []
  looked := []

variable (sys : System) (cmd : List Char) (fullpath : Bool)

/-- Store a string in a buffer of `PATH_MAX` characters. -/
def store (s : List Char) : Except Fault (List Char) :=
  if s.length < sys.pathMax then .ok s else .error .outOfBounds

/-- Return with a string in `res_path`. -/
def answer (ret : ℤ) (text : List Char) (looked : List Looked) : Except Fault Found :=
  match store sys text with
  | .ok resPath => .ok { ret, resPath, looked }
  | .error fault => .error fault

/-- The part for a full or relative path. -/
def checkCmd : Except Fault Found :=
  if sys.access cmd then
    if cmd.head? ≠ some '/' then
      if sys.cwdFound = false then answer sys (-1) sys.cwd []
      else if sys.pathMax < sys.cwd.length + cmd.length + 1 then
        answer sys (-1) ("cmd (as relative path) and cwd is longer than ".toList ++
          decimal (int32 sys.pathMax)) []
      else answer sys 0 (sys.cwd ++ '/' :: cmd) []
    else answer sys 0 cmd []
  else answer sys (-1) ("file ".toList ++ cmd ++ " not found".toList) []

/-- Prepend the current directory, which is asked for once. -/
def prependCwd (curpath resPath : List Char) : Except Fault (Look × List Char) :=
  if curpath = [] ∧ sys.cwdFound = false then .ok (.noCwd, sys.cwd)
  else do
    let curpath := if curpath = [] then sys.cwd else curpath
    if sys.pathMax < curpath.length + resPath.length + 2 then return (.tooLong, curpath)
    let tmppath ← store sys (curpath ++ '/' :: resPath)
    let resPath ← store sys tmppath
    return (.tried resPath, curpath)

/-- What comes of a component, and the current directory afterwards. -/
def lookIn (curpath component : List Char) : Except Fault (Look × List Char) := do
  let tmppath ← store sys component
  if sys.pathMax < tmppath.length + cmd.length + 2 then return (.tooLong, curpath)
  let resPath ← store sys (tmppath ++ '/' :: cmd)
  if fullpath ∧ resPath.head? ≠ some '/' then prependCwd sys curpath resPath
  else return (.tried resPath, curpath)

/-- The end of the function, when nothing is found. -/
def notFound (toolong : ℤ) (looked : List Looked) : Except Fault Found :=
  if toolong ≠ 0 then
    answer sys 1 ("Unable to find file, ".toList ++ decimal toolong ++
      " path/file strings were too long".toList) looked
  else answer sys 1 "Unable to find file".toList looked

/-- A component ends at a separator and at the end of the value. -/
def isEnd (c : Char) : Bool := decide (c = ':' ∨ c = nul)

/-- The loop at the next component. -/
def advance (mem : List Char) (s : SearchState) : SearchState :=
  let s := if s.cp ≠ 0 then { s with cp := s.cp + 1, path := s.cp + 1 } else s
  { s with cp := scan isEnd mem s.cp }

/-- The rest of a pass: the component was skipped, the current directory is not there, or `access`
is called. -/
def afterLook (s : SearchState) (component : List Char) : Look → SearchState ⊕ Except Fault Found
  | .tooLong => .inl { s with
      toolong := int32 (s.toolong + 1), looked := s.looked ++ [⟨component, none⟩] }
  | .noCwd => .inr (answer sys (-1) s.curpath (s.looked ++ [⟨component, none⟩]))
  | .tried resPath =>
    let looked := s.looked ++ [⟨component, some resPath⟩]
    if sys.access resPath then .inr (.ok { ret := 0, resPath, looked })
    else .inl { s with looked }

/-- A pass of the loop from the next component on. -/
def lookPass (mem : List Char) (s : SearchState) : SearchState ⊕ Except Fault Found :=
  let component := slice mem s.path (s.cp - s.path)
  match mem[s.cp]? with
  | none => .inr (.error .outOfBounds)
  | some c =>
    match lookIn sys cmd fullpath s.curpath component with
    | .error fault => .inr (.error fault)
    | .ok (look, curpath) =>
      afterLook sys { s with lastpath := decide (c = nul), curpath } component look

/-- A pass of the loop. -/
def searchPass (mem : List Char) (s : SearchState) : SearchState ⊕ Except Fault Found :=
  if s.lastpath then .inr (notFound sys s.toolong s.looked)
  else lookPass sys cmd fullpath mem (advance mem s)

/-- `search_path`, with the value of `PATH`. -/
def searchPath (pathenv : Option (List Char)) (fuel : ℕ) : Option (Except Fault Found) :=
  if cmd.head? = some '/' ∨ '/' ∈ cmd then some (checkCmd sys cmd)
  else
    match pathenv with
    | none => some (answer sys (-1) "Unable to get PATH env. variable".toList [])
    | some path => iterate (searchPass sys cmd fullpath (path ++ [nul])) fuel .initial

/-! ### The search through a list of components -/

/-- What comes of a path that is not full. -/
def candidateInCwd (resPath : List Char) : Look :=
  if sys.cwdFound = false then .noCwd
  else if sys.pathMax < sys.cwd.length + resPath.length + 2 then .tooLong
  else .tried (sys.cwd ++ '/' :: resPath)

/-- What comes of a component. -/
def candidate (component : List Char) : Look :=
  let resPath := component ++ '/' :: cmd
  if sys.pathMax < component.length + cmd.length + 2 then .tooLong
  else if fullpath ∧ resPath.head? ≠ some '/' then candidateInCwd sys resPath
  else .tried resPath

/-- The search ends at a component. -/
def Ends (component : List Char) : Prop :=
  match candidate sys cmd fullpath component with
  | .tooLong => False
  | .noCwd => True
  | .tried resPath => sys.access resPath = true

/-- The search through the components, one after the other. -/
def searchList : List (List Char) → ℤ → List Looked → Except Fault Found
  | [], toolong, looked => notFound sys toolong looked
  | component :: components, toolong, looked =>
    if component.length < sys.pathMax then
      match candidate sys cmd fullpath component with
      | .tooLong =>
        searchList components (int32 (toolong + 1)) (looked ++ [⟨component, none⟩])
      | .noCwd => answer sys (-1) sys.cwd (looked ++ [⟨component, none⟩])
      | .tried resPath =>
        let looked := looked ++ [⟨component, some resPath⟩]
        if sys.access resPath then .ok { ret := 0, resPath, looked }
        else searchList components toolong looked
    else .error .outOfBounds

/-- Components of `PATH_MAX` characters or more only stand behind one at which the search ends. -/
def Shielded (components : List (List Char)) : Prop :=
  ∀ before component behind, components = before ++ component :: behind →
    sys.pathMax ≤ component.length → ∃ c ∈ before, Ends sys cmd fullpath c

variable {sys cmd fullpath}

/-! ### Strings that fit -/

theorem store_eq_ok {s : List Char} (h : s.length < sys.pathMax) : store sys s = .ok s := if_pos h

theorem store_bind {α : Type} {s : List Char} (h : s.length < sys.pathMax)
    (f : List Char → Except Fault α) : (store sys s >>= f) = f s := by
  rw [store_eq_ok h]
  rfl

theorem store_eq_error {s : List Char} (h : sys.pathMax ≤ s.length) :
    store sys s = .error .outOfBounds :=
  if_neg (by omega)

theorem answer_eq_ok {text : List Char} (h : text.length < sys.pathMax) (ret : ℤ)
    (looked : List Looked) : answer sys ret text looked = .ok { ret, resPath := text, looked } := by
  rw [answer, store_eq_ok h]

variable (sys) in
/-- The message that nothing is found fits. -/
theorem exists_notFound {toolong : ℤ} (h : InInt32 toolong) (looked : List Looked) :
    ∃ resPath, notFound sys toolong looked = .ok { ret := 1, resPath, looked } := by
  have hmax := sys.posix_le
  have hlen := length_decimal_le h
  rw [notFound]
  split
  · refine ⟨_, answer_eq_ok ?_ 1 looked⟩
    simp only [List.length_append, String.length_toList]
    have hfront : "Unable to find file, ".length = 21 := by decide
    have hbehind : " path/file strings were too long".length = 32 := by decide
    omega
  · exact ⟨_, answer_eq_ok (Nat.lt_of_lt_of_le (by decide) hmax) 1 looked⟩

/-! ### A component -/

/-- The current directory was not asked for, or was found. -/
def CurpathOk (sys : System) (curpath : List Char) : Prop :=
  curpath = [] ∨ sys.cwdFound = true ∧ curpath = sys.cwd

/-- The current directory after what came of a component. -/
def CwdAfter (sys : System) (look : Look) (curpath : List Char) : Prop :=
  if look = .noCwd then curpath = sys.cwd else CurpathOk sys curpath

theorem CurpathOk.cwdAfter {look : Look} {curpath : List Char} (h : CurpathOk sys curpath)
    (hlook : look ≠ .noCwd) : CwdAfter sys look curpath := by
  rwa [CwdAfter, if_neg hlook]

theorem CwdAfter.curpathOk {look : Look} {curpath : List Char} (h : CwdAfter sys look curpath)
    (hlook : look ≠ .noCwd) : CurpathOk sys curpath := by
  rwa [CwdAfter, if_neg hlook] at h

/-- It does not matter whether the current directory was asked for before. -/
theorem exists_prependCwd {curpath resPath : List Char} (hcur : CurpathOk sys curpath) :
    ∃ curpath', prependCwd sys curpath resPath = .ok (candidateInCwd sys resPath, curpath') ∧
      CwdAfter sys (candidateInCwd sys resPath) curpath' := by
  have hcwd : (if curpath = [] then sys.cwd else curpath) = sys.cwd := by
    split
    · rfl
    · next hne => exact (hcur.resolve_left hne).2
  by_cases hnone : sys.cwdFound = false
  · have hnil : curpath = [] := hcur.resolve_right fun h => by simp [h.1] at hnone
    rw [prependCwd, if_pos ⟨hnil, hnone⟩, candidateInCwd, if_pos hnone]
    exact ⟨_, rfl, by rw [CwdAfter, if_pos rfl]⟩
  have hok : CurpathOk sys sys.cwd := .inr ⟨by simpa using hnone, rfl⟩
  rw [prependCwd, if_neg fun h => hnone h.2, hcwd, candidateInCwd, if_neg hnone]
  by_cases hlong : sys.pathMax < sys.cwd.length + resPath.length + 2
  · rw [if_pos hlong, if_pos hlong]
    exact ⟨_, rfl, hok.cwdAfter nofun⟩
  · have hlen : (sys.cwd ++ '/' :: resPath).length < sys.pathMax := by
      rw [List.length_append, List.length_cons]
      omega
    rw [if_neg hlong, if_neg hlong, store_bind hlen, store_bind hlen]
    exact ⟨_, rfl, hok.cwdAfter nofun⟩

variable (cmd fullpath) in
theorem exists_lookIn {curpath component : List Char} (hcur : CurpathOk sys curpath)
    (hlt : component.length < sys.pathMax) :
    ∃ curpath', lookIn sys cmd fullpath curpath component =
        .ok (candidate sys cmd fullpath component, curpath') ∧
      CwdAfter sys (candidate sys cmd fullpath component) curpath' := by
  rw [lookIn, store_bind hlt, candidate]
  by_cases hlong : sys.pathMax < component.length + cmd.length + 2
  · rw [if_pos hlong, if_pos hlong]
    exact ⟨_, rfl, hcur.cwdAfter nofun⟩
  have hres : (component ++ '/' :: cmd).length < sys.pathMax := by
    rw [List.length_append, List.length_cons]
    omega
  rw [if_neg hlong, if_neg hlong, store_bind hres]
  split
  · exact exists_prependCwd hcur
  · exact ⟨_, rfl, hcur.cwdAfter nofun⟩

theorem lookIn_eq_error (curpath : List Char) {component : List Char}
    (h : sys.pathMax ≤ component.length) :
    lookIn sys cmd fullpath curpath component = .error .outOfBounds := by
  rw [lookIn, store_eq_error h]
  rfl

variable (cmd fullpath) in
/-- What the search through the components does at the first one, apart from the rest of it. -/
theorem lookPass_cases {mem before component behind : List Char} {c : Char} (s : SearchState)
    (hmem : mem = before ++ (component ++ c :: behind)) (hpath : s.path = before.length)
    (hcp : s.cp = before.length + component.length) (hcur : CurpathOk sys s.curpath)
    (hint : InInt32 s.toolong) :
    (∃ s', lookPass sys cmd fullpath mem s = .inl s' ∧ s'.cp = s.cp ∧ s'.path = s.path ∧
        s'.lastpath = decide (c = nul) ∧ CurpathOk sys s'.curpath ∧ InInt32 s'.toolong ∧
        ¬Ends sys cmd fullpath component ∧
        ∀ components, searchList sys cmd fullpath (component :: components) s.toolong s.looked =
          searchList sys cmd fullpath components s'.toolong s'.looked) ∨
      (component.length < sys.pathMax → Ends sys cmd fullpath component) ∧
        ∀ components, lookPass sys cmd fullpath mem s =
          .inr (searchList sys cmd fullpath (component :: components) s.toolong s.looked) := by
  have hget : mem[s.cp]? = some c := by rw [hmem, hcp, getElem?_before]
  have hslice : slice mem s.path (s.cp - s.path) = component := by
    rw [hmem, hpath, hcp, slice, List.drop_left, Nat.add_sub_cancel_left, List.take_left]
  rw [lookPass, hget]
  dsimp only
  rw [hslice]
  by_cases hlt : component.length < sys.pathMax
  swap
  · rw [lookIn_eq_error _ (Nat.le_of_not_lt hlt)]
    refine .inr ⟨fun h => absurd h hlt, fun components => ?_⟩
    rw [searchList, if_neg hlt]
  obtain ⟨curpath', hlook, hafter⟩ := exists_lookIn cmd fullpath hcur hlt
  have hsearch (components : List (List Char)) :
      searchList sys cmd fullpath (component :: components) s.toolong s.looked = _ :=
    if_pos hlt
  rw [hlook, Ends]
  cases hcand : candidate sys cmd fullpath component with
  | tooLong =>
    rw [hcand] at hsearch hafter
    have hcur' : CurpathOk sys curpath' := hafter.curpathOk (by simp)
    exact .inl ⟨_, rfl, rfl, rfl, rfl, hcur', inInt32_int32 _, not_false, hsearch⟩
  | noCwd =>
    rw [hcand] at hsearch hafter
    rw [CwdAfter, if_pos rfl] at hafter
    refine .inr ⟨fun _ => trivial, fun components => ?_⟩
    rw [hsearch, hafter]
    rfl
  | tried resPath =>
    rw [hcand] at hsearch hafter
    have hcur' : CurpathOk sys curpath' := hafter.curpathOk (by simp)
    dsimp only at hsearch ⊢
    rw [afterLook]
    by_cases haccess : sys.access resPath = true
    · rw [if_pos haccess]
      refine .inr ⟨fun _ => haccess, fun components => ?_⟩
      rw [hsearch, if_pos haccess]
    · rw [if_neg haccess]
      refine .inl ⟨_, rfl, rfl, rfl, rfl, hcur', hint, haccess, fun components => ?_⟩
      rw [hsearch, if_neg haccess]

/-! ### The loop -/

/-- The first component of a string ends with the string or with a separator. -/
theorem exists_end (rest : List Char) :
    ∃ c behind, rest ++ [nul] = (cut ':' rest).1 ++ c :: behind ∧ isEnd c = true ∧
      ((cut ':' rest).2 = none ∧ c = nul ∨
        ∃ rest', (cut ':' rest).2 = some rest' ∧ c = ':' ∧ behind = rest' ++ [nul]) := by
  cases hcut : (cut ':' rest).2 with
  | none => exact ⟨nul, [], by rw [← eq_of_cut_none hcut], by decide, .inl ⟨rfl, rfl⟩⟩
  | some rest' =>
    refine ⟨':', rest' ++ [nul], ?_, by decide, .inr ⟨rest', rfl, rfl, rfl⟩⟩
    conv_lhs => rw [eq_of_cut_some hcut]
    rw [List.append_assoc, List.cons_append]

/-- The characters of a component do not end it. -/
theorem isEnd_of_mem_cut {rest : List Char} (hnul : nul ∉ rest) :
    ∀ c ∈ (cut ':' rest).1, isEnd c = false := by
  intro c hc
  refine decide_eq_false ?_
  rintro (rfl | rfl)
  · exact notMem_cut_fst rest hc
  · have heq : rest = (cut ':' rest).1 ++ _ := eq_of_cut rest
    refine hnul ?_
    rw [heq]
    exact List.mem_append_left _ hc

/-- The cursor is moved to the end of the component. -/
theorem scan_component (before : List Char) {rest : List Char} (hnul : nul ∉ rest) :
    scan isEnd (before ++ (rest ++ [nul])) before.length =
      before.length + (cut ':' rest).1.length := by
  obtain ⟨c, behind, heq, hc, -⟩ := exists_end rest
  rw [heq, scan_append before (isEnd_of_mem_cut hnul) hc]

/-- The loop is in front of a string whose first component is looked at next. -/
structure InFront (sys : System) (before rest : List Char) (s : SearchState) : Prop where
  lastpath : s.lastpath = false
  curpath : CurpathOk sys s.curpath
  toolong : InInt32 s.toolong
  advance_eq : advance (before ++ (rest ++ [nul])) s =
    { s with path := before.length, cp := before.length + (cut ':' rest).1.length }

/-- With its cursor at the start of the value the loop is in front of the value. -/
theorem inFront_start {path : List Char} {s : SearchState} (hnul : nul ∉ path) (hcp : s.cp = 0)
    (hpath : s.path = 0) (hlast : s.lastpath = false) (hcur : CurpathOk sys s.curpath)
    (hint : InInt32 s.toolong) : InFront sys [] path s where
  lastpath := hlast
  curpath := hcur
  toolong := hint
  advance_eq := by
    have hscan := scan_component [] hnul
    rw [List.nil_append, List.length_nil, Nat.zero_add] at hscan
    rw [advance, if_neg (by simp [hcp]), List.nil_append, List.length_nil, Nat.zero_add, hcp, hscan,
      ← hpath]

theorem inFront_initial {path : List Char} (hnul : nul ∉ path) : InFront sys [] path .initial :=
  inFront_start hnul rfl rfl rfl (.inl rfl) ⟨by decide, by decide⟩

/-- A cursor at a separator that is not the first character of the value is moved over it. -/
theorem inFront_of_separator {before rest : List Char} {s : SearchState} (hnul : nul ∉ rest)
    (hne : before ≠ []) (hcp : s.cp = before.length) (hlast : s.lastpath = false)
    (hcur : CurpathOk sys s.curpath) (hint : InInt32 s.toolong) :
    InFront sys (before ++ [':']) rest s where
  lastpath := hlast
  curpath := hcur
  toolong := hint
  advance_eq := by
    have hscan := scan_component (before ++ [':']) hnul
    have hpos : s.cp ≠ 0 := by simpa [hcp] using hne
    rw [advance, if_pos hpos]
    dsimp only
    rw [hcp, ← List.length_singleton (a := ':'), ← List.length_append, hscan]

variable (cmd fullpath) in
/-- What a pass does in front of a string. -/
theorem searchPass_cases {before rest behind : List Char} {c : Char} {s : SearchState}
    (h : InFront sys before rest s) (heq : rest ++ [nul] = (cut ':' rest).1 ++ c :: behind) :
    (∃ s', searchPass sys cmd fullpath (before ++ (rest ++ [nul])) s = .inl s' ∧
        s'.cp = before.length + (cut ':' rest).1.length ∧ s'.path = before.length ∧
        s'.lastpath = decide (c = nul) ∧ CurpathOk sys s'.curpath ∧ InInt32 s'.toolong ∧
        ¬Ends sys cmd fullpath (cut ':' rest).1 ∧
        ∀ components,
          searchList sys cmd fullpath ((cut ':' rest).1 :: components) s.toolong s.looked =
            searchList sys cmd fullpath components s'.toolong s'.looked) ∨
      ((cut ':' rest).1.length < sys.pathMax → Ends sys cmd fullpath (cut ':' rest).1) ∧
        ∀ components, searchPass sys cmd fullpath (before ++ (rest ++ [nul])) s =
          .inr
            (searchList sys cmd fullpath ((cut ':' rest).1 :: components) s.toolong s.looked) := by
  rw [searchPass, if_neg (by simp [h.lastpath]), h.advance_eq]
  exact lookPass_cases cmd fullpath
    { s with path := before.length, cp := before.length + (cut ':' rest).1.length }
    (congrArg (before ++ ·) heq) rfl rfl h.curpath h.toolong

/-- **The loop** searches the components, if it goes on behind the first one. -/
theorem exists_iterate_searchPass (rest : List Char) (hnul : nul ∉ rest) (before : List Char)
    (s : SearchState) (h : InFront sys before rest s)
    (hgo : before ++ (cut ':' rest).1 = [] → (cut ':' rest).2 = none ∨
      Ends sys cmd fullpath (cut ':' rest).1) :
    ∃ fuel, iterate (searchPass sys cmd fullpath (before ++ (rest ++ [nul]))) fuel s =
      some (searchList sys cmd fullpath (rest.splitOn ':') s.toolong s.looked) := by
  obtain ⟨c, behind, heq, -, hend⟩ := exists_end rest
  have hsplit : rest.splitOn ':' =
      (cut ':' rest).1 :: ((cut ':' rest).2.elim [] fun rest' => rest'.splitOn ':') :=
    splitOn_eq_cut rest
  obtain ⟨s', hpass, hcp, -, hlast, hcur, hint, hends, hsearch⟩ | ⟨-, hpass⟩ :=
    searchPass_cases cmd fullpath h heq
  swap
  · exact ⟨1, iterate_succ_inr ((hpass _).trans (by rw [hsplit]))⟩
  rw [hsplit, hsearch]
  rcases hend with ⟨hcut, rfl⟩ | ⟨rest', hcut, rfl, rfl⟩
  · -- The component was the last one.
    refine ⟨2, ?_⟩
    have hstop : searchPass sys cmd fullpath (before ++ (rest ++ [nul])) s' =
        .inr (notFound sys s'.toolong s'.looked) := by
      rw [searchPass, if_pos (by simp [hlast])]
    rw [iterate_succ_inl hpass, iterate_succ_inr hstop, hcut]
    rfl
  · -- The cursor is at the separator behind the component.
    have hlen : rest'.length < rest.length := length_lt_of_cut_some hcut
    have hnul' : nul ∉ rest' := notMem_of_cut_some hcut hnul
    have hne : before ++ (cut ':' rest).1 ≠ [] := fun hnil => by
      rcases hgo hnil with hnone | hend
      · rw [hcut] at hnone
        cases hnone
      · exact hends hend
    have hfront : InFront sys (before ++ (cut ':' rest).1 ++ [':']) rest' s' :=
      inFront_of_separator hnul' hne (by rw [hcp, List.length_append]) (hlast.trans rfl) hcur hint
    obtain ⟨fuel, hrun⟩ := exists_iterate_searchPass rest' hnul' _ s' hfront (by simp)
    refine ⟨fuel + 1, ?_⟩
    rw [iterate_succ_inl hpass, hcut, Option.elim_some, ← hrun, heq]
    simp only [List.append_assoc, List.singleton_append]
termination_by rest.length

/-! ### Components that are looked at -/

theorem shielded_nil : Shielded sys cmd fullpath [] := by
  intro before component behind heq
  simp at heq

theorem shielded_cons_iff {c : List Char} {cs : List (List Char)} :
    Shielded sys cmd fullpath (c :: cs) ↔
      c.length < sys.pathMax ∧ (Ends sys cmd fullpath c ∨ Shielded sys cmd fullpath cs) := by
  constructor
  · intro h
    have hlt : c.length < sys.pathMax := Nat.lt_of_not_le fun hle => by
      obtain ⟨d, hd, -⟩ := h [] c cs rfl hle
      exact List.not_mem_nil hd
    refine ⟨hlt, Classical.or_iff_not_imp_left.mpr fun hends before d behind heq hle => ?_⟩
    obtain ⟨e, he, hend⟩ := h (c :: before) d behind (by rw [heq, List.cons_append]) hle
    rcases List.mem_cons.mp he with rfl | he
    · exact absurd hend hends
    · exact ⟨e, he, hend⟩
  · rintro ⟨hlt, h⟩ before d behind heq hle
    cases before with
    | nil =>
      obtain ⟨rfl, -⟩ := List.cons.inj heq
      omega
    | cons e before =>
      obtain ⟨rfl, rfl⟩ := List.cons.inj heq
      rcases h with hend | hcs
      · exact ⟨c, List.mem_cons_self, hend⟩
      · obtain ⟨e, he, hend⟩ := hcs before d behind rfl hle
        exact ⟨e, List.mem_cons_of_mem _ he, hend⟩

/-- The search ends at the empty component in front of a separator. -/
theorem shielded_of_ends {path : List Char} (hhead : path.head? = some ':')
    (hends : Ends sys cmd fullpath []) : Shielded sys cmd fullpath (path.splitOn ':') := by
  obtain ⟨rest, rfl⟩ := List.head?_eq_some_iff.mp hhead
  have hlt : ([] : List Char).length < sys.pathMax := Nat.lt_of_lt_of_le (by decide) sys.posix_le
  have hsplit : (':' :: rest).splitOn ':' = [] :: rest.splitOn ':' := by
    rw [splitOn_eq_cut, cut_cons_self, Option.elim_some]
  rw [hsplit]
  exact shielded_cons_iff.mpr ⟨hlt, .inl hends⟩

/-- The search looks at the first components, in order. -/
theorem exists_searchList {components : List (List Char)} (toolong : ℤ) (looked : List Looked)
    (h : Shielded sys cmd fullpath components) (hint : InInt32 toolong) :
    ∃ v new, searchList sys cmd fullpath components toolong looked = .ok v ∧
      v.looked = looked ++ new ∧ new.map Looked.component <+: components := by
  induction components generalizing toolong looked with
  | nil =>
    obtain ⟨resPath, hresPath⟩ := exists_notFound sys hint looked
    exact ⟨_, [], hresPath, (List.append_nil _).symm, List.nil_prefix⟩
  | cons c cs ih =>
    obtain ⟨hlt, hrest⟩ := shielded_cons_iff.mp h
    have hone (e : Looked) (he : e.component = c) : [e].map Looked.component <+: c :: cs := by
      simp [he]
    have hmore (e : Looked) (he : e.component = c) (toolong : ℤ) (hint : InInt32 toolong)
        (hends : ¬Ends sys cmd fullpath c) :
        ∃ v new, searchList sys cmd fullpath cs toolong (looked ++ [e]) = .ok v ∧
          v.looked = looked ++ new ∧ new.map Looked.component <+: c :: cs := by
      obtain ⟨v, new, hv, hlooked, hprefix⟩ :=
        ih toolong (looked ++ [e]) (hrest.resolve_left hends) hint
      refine ⟨v, e :: new, hv, by rw [hlooked, List.append_assoc, List.singleton_append], ?_⟩
      rw [List.map_cons, he]
      exact List.cons_prefix_cons.mpr ⟨rfl, hprefix⟩
    rw [searchList, if_pos hlt]
    rw [Ends] at hmore
    cases hcand : candidate sys cmd fullpath c with
    | tooLong => exact hmore ⟨c, none⟩ rfl _ (inInt32_int32 _) (by simp [hcand])
    | noCwd => exact ⟨_, _, answer_eq_ok sys.cwd_lt _ _, rfl, hone ⟨c, none⟩ rfl⟩
    | tried resPath =>
      dsimp only
      by_cases haccess : sys.access resPath = true
      · rw [if_pos haccess]
        exact ⟨_, _, rfl, rfl, hone ⟨c, some resPath⟩ rfl⟩
      · rw [if_neg haccess]
        exact hmore ⟨c, some resPath⟩ rfl _ hint (by simpa [hcand] using haccess)

/-- A component that is not shielded does not fit its buffer. -/
theorem searchList_eq_error {components : List (List Char)} (toolong : ℤ) (looked : List Looked)
    (h : ¬Shielded sys cmd fullpath components) :
    searchList sys cmd fullpath components toolong looked = .error .outOfBounds := by
  induction components generalizing toolong looked with
  | nil => exact absurd shielded_nil h
  | cons c cs ih =>
    rw [searchList]
    split
    swap
    · rfl
    next hlt =>
    have hnot : ¬Ends sys cmd fullpath c ∧ ¬Shielded sys cmd fullpath cs :=
      not_or.mp fun hor => h (shielded_cons_iff.mpr ⟨hlt, hor⟩)
    obtain ⟨hends, hcs⟩ := hnot
    rw [Ends] at hends
    cases hcand : candidate sys cmd fullpath c with
    | tooLong => exact ih _ _ hcs
    | noCwd => simp [hcand] at hends
    | tried resPath =>
      rw [hcand] at hends
      dsimp only
      rw [if_neg hends]
      exact ih _ _ hcs

/-! ### Order and termination -/

theorem searchPath_eq (hcmd : '/' ∉ cmd) (path : List Char) (fuel : ℕ) :
    searchPath sys cmd fullpath (some path) fuel =
      iterate (searchPass sys cmd fullpath (path ++ [nul])) fuel .initial := by
  have hslash : ¬(cmd.head? = some '/' ∨ '/' ∈ cmd) :=
    fun h => hcmd (h.elim List.mem_of_head? id)
  rw [searchPath, if_neg hslash]

variable (cmd fullpath) in
/-- The search through the components is what the function returns, unless the value starts with a
separator and the search does not end there. -/
theorem exists_searchPath {path : List Char} (hcmd : '/' ∉ cmd) (hpath : nul ∉ path)
    (hgo : path.head? = some ':' → Ends sys cmd fullpath []) :
    ∃ fuel, searchPath sys cmd fullpath (some path) fuel =
      some (searchList sys cmd fullpath (path.splitOn ':') 0 []) := by
  have hfirst : [] ++ (cut ':' path).1 = [] →
      (cut ':' path).2 = none ∨ Ends sys cmd fullpath (cut ':' path).1 := by
    intro hnil
    rw [List.nil_append] at hnil
    rw [hnil]
    cases path with
    | nil => exact .inl rfl
    | cons c path =>
      by_cases hc : c = ':'
      · exact .inr (hgo (by rw [hc, List.head?_cons]))
      · rw [cut_cons_of_ne hc] at hnil
        cases hnil
  obtain ⟨fuel, hrun⟩ := exists_iterate_searchPass path hpath [] .initial (inFront_initial hpath)
    hfirst
  exact ⟨fuel, (searchPath_eq hcmd path fuel).trans hrun⟩

/-- A cursor at a separator that starts the value is not moved. -/
theorem searchPath_eq_none {path : List Char} (hcmd : '/' ∉ cmd) (hpath : nul ∉ path)
    (hhead : path.head? = some ':') (hends : ¬Ends sys cmd fullpath []) (fuel : ℕ) :
    searchPath sys cmd fullpath (some path) fuel = none := by
  obtain ⟨rest, rfl⟩ := List.head?_eq_some_iff.mp hhead
  rw [searchPath_eq hcmd]
  refine iterate_eq_none (fun s => s.cp = 0 ∧ s.path = 0 ∧ s.lastpath = false ∧
    CurpathOk sys s.curpath ∧ InInt32 s.toolong) ?_ fuel
    ⟨rfl, rfl, rfl, .inl rfl, by decide, by decide⟩
  rintro s ⟨hcp, hpos, hlast, hcur, hint⟩
  have hfront : InFront sys [] (':' :: rest) s := inFront_start hpath hcp hpos hlast hcur hint
  have hlt : ([] : List Char).length < sys.pathMax := Nat.lt_of_lt_of_le (by decide) sys.posix_le
  have hcut : cut ':' (':' :: rest) = ([], some rest) := cut_cons_self rest
  obtain ⟨s', hpass, hcp', hpos', hlast', hcur', hint', -⟩ | ⟨hend, -⟩ :=
    searchPass_cases cmd fullpath hfront (by rw [hcut]; rfl)
  · rw [hcut] at hcp'
    exact ⟨s', hpass, hcp', hpos', hlast'.trans rfl, hcur', hint'⟩
  · rw [hcut] at hend
    exact absurd (hend hlt) hends

/-- The function returns, and it has looked at the first components of the value, at each of them
once and in order. -/
def InOrder (sys : System) (cmd : List Char) (fullpath : Bool) (path : List Char) : Prop :=
  ∃ fuel v, searchPath sys cmd fullpath (some path) fuel = some (.ok v) ∧
    v.looked.map Looked.component <+: path.splitOn ':'

/-- Two runs of the function have the same result. -/
theorem searchPath_unique {path : List Char} (hcmd : '/' ∉ cmd) {fuel fuel' : ℕ}
    {r r' : Except Fault Found} (h : searchPath sys cmd fullpath (some path) fuel = some r)
    (h' : searchPath sys cmd fullpath (some path) fuel' = some r') : r = r' := by
  rw [searchPath_eq hcmd] at h h'
  exact iterate_unique h h'

/-- **Order and termination.** The components are looked at in order, and the function returns, just
when the value does not start with a separator unless the search ends there, and components of
`PATH_MAX` characters or more only stand behind one at which the search ends. -/
theorem searchPath_inOrder_iff (sys : System) (cmd : List Char) (fullpath : Bool) (path : List Char)
    (hcmd : '/' ∉ cmd) (hpath : nul ∉ path) :
    InOrder sys cmd fullpath path ↔
      (path.head? = some ':' → Ends sys cmd fullpath []) ∧
        Shielded sys cmd fullpath (path.splitOn ':') := by
  constructor
  · rintro ⟨fuel, v, hrun, -⟩
    have hgo : path.head? = some ':' → Ends sys cmd fullpath [] := fun hhead => by
      refine Classical.byContradiction fun hends => ?_
      rw [searchPath_eq_none hcmd hpath hhead hends] at hrun
      cases hrun
    refine ⟨hgo, Classical.byContradiction fun hnot => ?_⟩
    obtain ⟨fuel', hrun'⟩ := exists_searchPath cmd fullpath hcmd hpath hgo
    rw [searchList_eq_error _ _ hnot] at hrun'
    cases searchPath_unique hcmd hrun hrun'
  · rintro ⟨hgo, hshielded⟩
    obtain ⟨fuel, hrun⟩ := exists_searchPath cmd fullpath hcmd hpath hgo
    obtain ⟨v, new, hv, hlooked, hprefix⟩ :=
      exists_searchList 0 [] hshielded ⟨by decide, by decide⟩
    rw [List.nil_append] at hlooked
    exact ⟨fuel, v, hrun.trans (congrArg some hv), hlooked ▸ hprefix⟩

/-- A system with one file that is found, at `/bin/ls`, and the current directory `/`. -/
def oneFile : System where
  pathMax := 4096
  access path := decide (path = ['/', 'b', 'i', 'n', '/', 'l', 's'])
  cwdFound := true
  cwd := ['/']
  posix_le := by decide
  cwd_lt := by decide

theorem searchPath_inOrder_iff_twoComponents :
    InOrder oneFile ['l', 's'] false ['/', 'x', ':', '/', 'b', 'i', 'n'] ↔
      (['/', 'x', ':', '/', 'b', 'i', 'n'].head? = some ':' → Ends oneFile ['l', 's'] false []) ∧
        Shielded oneFile ['l', 's'] false (['/', 'x', ':', '/', 'b', 'i', 'n'].splitOn ':') :=
  searchPath_inOrder_iff oneFile ['l', 's'] false ['/', 'x', ':', '/', 'b', 'i', 'n']
    (by decide) (by decide)

/-- With a separator in front of the directory the file is looked for at `/ls` without end. -/
theorem separatorFirst_not_inOrder :
    (∀ fuel, searchPath oneFile ['l', 's'] false (some [':', '/', 'b', 'i', 'n']) fuel = none) ∧
      ¬InOrder oneFile ['l', 's'] false [':', '/', 'b', 'i', 'n'] := by
  have hcand : candidate oneFile ['l', 's'] false [] = .tried ['/', 'l', 's'] := by decide
  have hends : ¬Ends oneFile ['l', 's'] false [] := by
    rw [Ends, hcand]
    decide
  have hnone (fuel : ℕ) :
      searchPath oneFile ['l', 's'] false (some [':', '/', 'b', 'i', 'n']) fuel = none :=
    searchPath_eq_none (by decide) (by decide) rfl hends fuel
  refine ⟨hnone, ?_⟩
  rintro ⟨fuel, v, hrun, -⟩
  rw [hnone] at hrun
  cases hrun

/-! ### Strings that are stored -/

/-- No string that is stored is too long for its buffer. -/
def StoresFit (sys : System) (cmd : List Char) (fullpath : Bool) (pathenv : Option (List Char)) :
    Prop :=
  ∀ fuel fault, searchPath sys cmd fullpath pathenv fuel ≠ some (.error fault)

/-- Components for which the path would be too long are not looked into. -/
def Skips (sys : System) (cmd : List Char) (looked : List Looked) : Prop :=
  ∀ l ∈ looked, sys.pathMax < l.component.length + cmd.length + 2 → l.tried = none

/-- In every state of the loop, and when the function returns, components for which the path would
be too long were skipped. -/
def SkipsTooLong (sys : System) (cmd : List Char) (fullpath : Bool)
    (pathenv : Option (List Char)) : Prop :=
  (∀ path ∈ pathenv, ∀ s, Passes (searchPass sys cmd fullpath (path ++ [nul])) .initial s →
    Skips sys cmd s.looked) ∧
  ∀ fuel v, searchPath sys cmd fullpath pathenv fuel = some (.ok v) → Skips sys cmd v.looked

theorem skips_nil : Skips sys cmd [] := fun _ h => absurd h List.not_mem_nil

theorem Skips.append {looked : List Looked} (h : Skips sys cmd looked) {l : Looked}
    (hl : sys.pathMax < l.component.length + cmd.length + 2 → l.tried = none) :
    Skips sys cmd (looked ++ [l]) := by
  intro l' hl'
  rcases List.mem_append.mp hl' with hold | hnew
  · exact h l' hold
  · rwa [List.mem_singleton.mp hnew]

theorem looked_of_answer {ret : ℤ} {text : List Char} {looked : List Looked} {v : Found}
    (h : answer sys ret text looked = .ok v) : v.looked = looked := by
  rw [answer] at h
  split at h
  · cases h
    rfl
  · cases h

theorem looked_of_notFound {toolong : ℤ} {looked : List Looked} {v : Found}
    (h : notFound sys toolong looked = .ok v) : v.looked = looked := by
  rw [notFound] at h
  split at h
  · exact looked_of_answer h
  · exact looked_of_answer h

/-- Where `access` is called the path is not too long. -/
theorem length_le_of_lookIn {curpath curpath' component resPath : List Char}
    (h : lookIn sys cmd fullpath curpath component = .ok (.tried resPath, curpath')) :
    ¬sys.pathMax < component.length + cmd.length + 2 := by
  intro hlong
  by_cases hlt : component.length < sys.pathMax
  · rw [lookIn, store_bind hlt, if_pos hlong] at h
    cases h
  · rw [lookIn_eq_error _ (Nat.le_of_not_lt hlt)] at h
    cases h

/-- What was looked at before or after a pass, whether it goes on or leaves. -/
def LookedAfter (sys : System) (cmd : List Char) : SearchState ⊕ Except Fault Found → Prop
  | .inl s => Skips sys cmd s.looked
  | .inr (.ok v) => Skips sys cmd v.looked
  | .inr (.error _) => True

theorem lookedAfter_inr {r : Except Fault Found} (h : ∀ v, r = .ok v → Skips sys cmd v.looked) :
    LookedAfter sys cmd (.inr r) := by
  cases r with
  | ok v => exact h v rfl
  | error fault => trivial

theorem lookPass_skips {mem : List Char} {s : SearchState} (h : Skips sys cmd s.looked) :
    LookedAfter sys cmd (lookPass sys cmd fullpath mem s) := by
  have hnew (c : List Char) : Skips sys cmd (s.looked ++ [⟨c, none⟩]) := h.append fun _ => rfl
  rw [lookPass]
  cases mem[s.cp]? with
  | none => trivial
  | some c =>
    dsimp only
    cases hlook : lookIn sys cmd fullpath s.curpath (slice mem s.path (s.cp - s.path)) with
    | error fault => trivial
    | ok r =>
      obtain ⟨look, curpath⟩ := r
      cases look with
      | tooLong => exact hnew _
      | noCwd => exact lookedAfter_inr fun v hv => looked_of_answer hv ▸ hnew _
      | tried resPath =>
        have htried : Skips sys cmd
            (s.looked ++ [⟨slice mem s.path (s.cp - s.path), some resPath⟩]) :=
          h.append fun hlong => absurd hlong (length_le_of_lookIn hlook)
        dsimp only
        rw [afterLook]
        split
        · exact htried
        · exact htried

variable (fullpath) in
/-- A pass skips a component for which the path would be too long. -/
theorem searchPass_skips (mem : List Char) {s : SearchState} (h : Skips sys cmd s.looked) :
    LookedAfter sys cmd (searchPass sys cmd fullpath mem s) := by
  rw [searchPass]
  split
  · exact lookedAfter_inr fun v hv => looked_of_notFound hv ▸ h
  · have hlooked : (advance mem s).looked = s.looked := by
      rw [advance]
      split <;> rfl
    exact lookPass_skips (hlooked ▸ h)

/-- The run lemma. -/
theorem skips_of_passes {mem : List Char} {s : SearchState}
    (h : Passes (searchPass sys cmd fullpath mem) .initial s) : Skips sys cmd s.looked := by
  refine h.invariant (fun s => Skips sys cmd s.looked) skips_nil fun t u ht hu => ?_
  have hafter := searchPass_skips fullpath mem ht
  rwa [hu] at hafter

theorem looked_of_checkCmd {v : Found} (h : checkCmd sys cmd = .ok v) : v.looked = [] := by
  rw [checkCmd] at h
  split_ifs at h <;> exact looked_of_answer h

/-- Components for which the path would be too long are always skipped. -/
theorem searchPath_skipsTooLong (sys : System) (cmd : List Char) (fullpath : Bool)
    (pathenv : Option (List Char)) : SkipsTooLong sys cmd fullpath pathenv := by
  refine ⟨fun _ _ _ => skips_of_passes, fun fuel v hrun => ?_⟩
  have hcheck (h : some (checkCmd sys cmd) = some (.ok v)) : Skips sys cmd v.looked := by
    rw [looked_of_checkCmd (Option.some.inj h)]
    exact skips_nil
  cases pathenv with
  | none =>
    rw [searchPath] at hrun
    split at hrun
    · exact hcheck hrun
    · rw [looked_of_answer (Option.some.inj hrun)]
      exact skips_nil
  | some path =>
    rw [searchPath] at hrun
    split at hrun
    · exact hcheck hrun
    · obtain ⟨s, hpasses, hlast⟩ := exists_passes_of_iterate hrun
      have hafter := searchPass_skips fullpath (path ++ [nul]) (skips_of_passes hpasses)
      rwa [hlast] at hafter

/-- The part for a full or relative path does not store a string that is one character too long. -/
def RelativeFits (sys : System) (cmd : List Char) : Prop :=
  '/' ∈ cmd → cmd.head? ≠ some '/' → sys.access cmd = true → sys.cwdFound = true →
    sys.cwd.length + cmd.length + 1 ≠ sys.pathMax

theorem answer_ne_error {ret : ℤ} {text : List Char} {looked : List Looked}
    (h : text.length < sys.pathMax) (fault : Fault) :
    answer sys ret text looked ≠ .error fault := by
  rw [answer_eq_ok h]
  nofun

theorem checkCmd_fits_iff (hcmd : cmd.length + 64 < sys.pathMax) (hslash : '/' ∈ cmd) :
    (∀ fault, checkCmd sys cmd ≠ .error fault) ↔ RelativeFits sys cmd := by
  have hmax := sys.posix_le
  rw [checkCmd]
  by_cases haccess : sys.access cmd = true
  swap
  · have hlen : ("file ".toList ++ cmd ++ " not found".toList).length < sys.pathMax := by
      simp only [List.length_append, String.length_toList]
      have hfront : "file ".length = 5 := by decide
      have hbehind : " not found".length = 10 := by decide
      omega
    rw [if_neg haccess]
    exact iff_of_true (answer_ne_error hlen) fun _ _ h => absurd h haccess
  rw [if_pos haccess]
  by_cases hhead : cmd.head? ≠ some '/'
  swap
  · rw [if_neg hhead]
    exact iff_of_true (answer_ne_error (by omega)) fun _ h => absurd h hhead
  rw [if_pos hhead]
  by_cases hcwd : sys.cwdFound = false
  · rw [if_pos hcwd]
    exact iff_of_true (answer_ne_error sys.cwd_lt) fun _ _ _ h => by simp [hcwd] at h
  rw [if_neg hcwd]
  have hfound : sys.cwdFound = true := by simpa using hcwd
  by_cases hlong : sys.pathMax < sys.cwd.length + cmd.length + 1
  · have hlen : ("cmd (as relative path) and cwd is longer than ".toList ++
        decimal (int32 sys.pathMax)).length < sys.pathMax := by
      have hdecimal := length_decimal_le (inInt32_int32 sys.pathMax)
      rw [List.length_append, String.length_toList]
      have hfront : "cmd (as relative path) and cwd is longer than ".length = 46 := by decide
      omega
    rw [if_pos hlong]
    exact iff_of_true (answer_ne_error hlen) fun _ _ _ _ => Nat.ne_of_gt hlong
  · rw [if_neg hlong]
    have hlen : (sys.cwd ++ '/' :: cmd).length = sys.cwd.length + cmd.length + 1 := by
      rw [List.length_append, List.length_cons, Nat.add_assoc]
    constructor
    · intro h _ _ _ _ heq
      refine h .outOfBounds ?_
      rw [answer, store_eq_error (by omega)]
    · intro h
      have hne := h hslash hhead haccess hfound
      exact answer_ne_error (by omega)

end SearchPath

end SnowballLtp
