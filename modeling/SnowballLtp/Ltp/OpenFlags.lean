import SnowballLtp.Machine.Bytes
import SnowballLtp.Machine.Cover
import SnowballLtp.Machine.Separated
import Mathlib.Data.Int.Notation

/-!
# Symbols of open flags

`openflags2symbols` prints the flags of an open call as symbols and `parse_open_flags` reads the
symbols back. The printer goes through the table of flags and removes the bits of every flag that
it prints; the first entry, `O_RDONLY`, is printed when no bit of the other access modes is set.
The table depends on the platform, which decides the values of the flags and which of them exist.

Printing and reading fit together when `O_RDONLY` has no bits. The string may be empty, and then
it does not parse, when a bit of `O_WRONLY` or `O_RDWR` is set without a flag of the table being
contained in the argument; this needs an access mode of more than one bit.

## Main definitions

* `Macros`, `openFlags`: a platform and its table.
* `parseOpenFlags`, `openflags2symbols`.
* `UnionReadBack`, `UnknownReported`, `CoverReadBack`: what reading back should give.

## Main results

* `openflags2symbols_eq`: the string that is printed.
* `openFlags_readBack`.
-/

namespace SnowballLtp

namespace OpenFlags

/-! ### The table -/

/-- The flags that a platform defines. -/
abbrev Macros := String → Option (BitVec 32)

/-- The value of a macro in an expression; in `#if` an undefined one is zero. -/
def Macros.value (m : Macros) (name : String) : BitVec 32 := (m name).getD 0

/-- `struct open_flag_t`. -/
structure OpenFlag where
  symbol : String
  flag : BitVec 32
  deriving DecidableEq, Repr

/-- The entry of one macro. -/
def entry (m : Macros) (name : String) : OpenFlag := ⟨name, m.value name⟩

/-- An entry under `#if`. -/
def entryIf (m : Macros) (name : String) : List OpenFlag :=
  if m.value name ≠ 0 then [entry m name] else []

/-- An entry under `#ifdef`. -/
def entryIfdef (m : Macros) (name : String) : List OpenFlag :=
  if (m name).isSome then [entry m name] else []

/-- The entries of `Open_flags` behind the first one. -/
@[irreducible] def furtherFlags (m : Macros) : List OpenFlag :=
  [entry m "O_WRONLY", entry m "O_RDWR", entry m "O_SYNC", entry m "O_CREAT", entry m "O_TRUNC",
    entry m "O_EXCL", entry m "O_APPEND", entry m "O_NONBLOCK"] ++
  entryIf m "O_NOCTTY" ++ entryIf m "O_DSYNC" ++ entryIf m "O_RSYNC" ++ entryIf m "O_ASYNC" ++
  entryIf m "O_PTYIGN" ++ entryIf m "O_NDELAY" ++ entryIf m "O_RAW" ++ entryIfdef m "O_SSD" ++
  entryIf m "O_BIG" ++ entryIf m "O_PLACE" ++ entryIf m "O_RESTART" ++ entryIf m "O_SFSXOP" ++
  entryIf m "O_SFS_DEFER_TM" ++ entryIf m "O_WELLFORMED" ++ entryIf m "O_LDRAW" ++
  entryIf m "O_T3D" ++
  (if m.value "O_PARALLEL" ≠ 0 then
    [entry m "O_PARALLEL",
      ⟨"O_FSA", m.value "O_PARALLEL" ||| m.value "O_WELLFORMED" ||| m.value "O_RAW"⟩]
  else []) ++
  entryIfdef m "O_LARGEFILE" ++ entryIfdef m "O_DIRECT" ++ entryIfdef m "O_PRIV"

/-- `Open_flags`. -/
def openFlags (m : Macros) : List OpenFlag := entry m "O_RDONLY" :: furtherFlags m

/-- The symbol of the first entry. -/
def rdonlySymbol : List Char := "O_RDONLY".toList

/-- `UNKNOWN_SYMBOL`. -/
def unknownSymbol : List Char := "UNKNOWN".toList

/-- The size of the buffer `Open_symbols`. -/
def sizeofOpenSymbols : ℕ := 512

/-! ### Parsing -/

/-- What a call leaves: the value returned, and the string from the bad name on that `*badname` is
set to. -/
structure ParsedFlags where
  ret : BitVec 32
  badname : Option (List Char)
  deriving DecidableEq, Repr

theorem length_lt_of_cut {s rest : List Char} (h : (cut ',' s).2 = some rest) :
    rest.length < s.length :=
  length_lt_of_cut_some h

/-- The loop of `parse_open_flags` from `name` on. -/
def parseFrom (table : List OpenFlag) (bits : BitVec 32) (name : List Char) : ParsedFlags :=
  match table.find? fun e => decide ((cut ',' name).1 = e.symbol.toList) with
  | none => { ret := -1, badname := some name }
  | some e =>
    match _ : (cut ',' name).2 with
    | none => { ret := bits ||| e.flag, badname := none }
    | some rest => parseFrom table (bits ||| e.flag) rest
termination_by name.length
decreasing_by exact length_lt_of_cut ‹_›

/-- `parse_open_flags`. -/
def parseOpenFlags (m : Macros) (string : List Char) : ParsedFlags :=
  parseFrom (openFlags m) 0 string

/-! ### Printing -/

/-- A symbol at the end of the string, with a separator in front if there are others. -/
def addSymbol (sep : List Char) (havesome : Bool) (symbols symbol : List Char) : List Char :=
  if havesome then symbols ++ sep ++ symbol else symbols ++ symbol

/-- The loop of `openflags2symbols`: the bits that are left, whether there are symbols, and the
symbols. -/
def printFlags (sep : List Char) : List OpenFlag → BitVec 32 → Bool → List Char →
    BitVec 32 × Bool × List Char
  | [], bits, havesome, symbols => (bits, havesome, symbols)
  | e :: es, bits, havesome, symbols =>
    if Covers bits e.flag then
      printFlags sep es (bits &&& ~~~e.flag) true (addSymbol sep havesome symbols e.symbol.toList)
    else printFlags sep es bits havesome symbols

/-- No bit of `O_WRONLY` or `O_RDWR` is set. -/
def IsRdonly (m : Macros) (openflags : BitVec 32) : Prop :=
  openflags &&& (m.value "O_WRONLY" ||| m.value "O_RDWR") = 0

instance (m : Macros) (openflags : BitVec 32) : Decidable (IsRdonly m openflags) :=
  inferInstanceAs (Decidable (_ = _))

/-- `openflags2symbols`. The string in `Open_symbols` only grows, so that it is enough to look at
its length at the end. -/
def openflags2symbols (m : Macros) (openflags : BitVec 32) (sep : List Char) (mode : ℤ) :
    Except Fault (List Char) :=
  let (bits, havesome, symbols) :=
    if IsRdonly m openflags then printFlags sep (furtherFlags m) openflags true rdonlySymbol
    else printFlags sep (furtherFlags m) openflags false []
  let symbols :=
    if bits ≠ 0 ∧ mode = 1 then addSymbol sep havesome symbols unknownSymbol else symbols
  if symbols.length < sizeofOpenSymbols then .ok symbols else .error .outOfBounds

/-- The entries whose symbols are printed. -/
def emitted (m : Macros) (f : BitVec 32) : List OpenFlag :=
  (if IsRdonly m f then [entry m "O_RDONLY"] else []) ++
    (greedy OpenFlag.flag (furtherFlags m) f).1

/-- The bits that no printed symbol stands for. -/
def remaining (m : Macros) (f : BitVec 32) : BitVec 32 :=
  (greedy OpenFlag.flag (furtherFlags m) f).2

/-! ### Names -/

/-- The symbols of the source. -/
def allSymbols : List String :=
  ["O_RDONLY", "O_WRONLY", "O_RDWR", "O_SYNC", "O_CREAT", "O_TRUNC", "O_EXCL", "O_APPEND",
    "O_NONBLOCK", "O_NOCTTY", "O_DSYNC", "O_RSYNC", "O_ASYNC", "O_PTYIGN", "O_NDELAY", "O_RAW",
    "O_SSD", "O_BIG", "O_PLACE", "O_RESTART", "O_SFSXOP", "O_SFS_DEFER_TM", "O_WELLFORMED",
    "O_LDRAW", "O_T3D", "O_PARALLEL", "O_FSA", "O_LARGEFILE", "O_DIRECT", "O_PRIV"]

private theorem entryIf_sublist (m : Macros) (name : String) :
    ((entryIf m name).map OpenFlag.symbol).Sublist [name] := by
  rw [entryIf]
  split
  · exact List.Sublist.refl _
  · exact List.nil_sublist _

private theorem entryIfdef_sublist (m : Macros) (name : String) :
    ((entryIfdef m name).map OpenFlag.symbol).Sublist [name] := by
  rw [entryIfdef]
  split
  · exact List.Sublist.refl _
  · exact List.nil_sublist _

private theorem append_sublist_cons {α : Type*} {a : α} {l₁ l₂ l : List α}
    (h₁ : l₁.Sublist [a]) (h₂ : l₂.Sublist l) : (l₁ ++ l₂).Sublist (a :: l) :=
  h₁.append h₂

private theorem parallel_sublist (m : Macros) :
    ((if m.value "O_PARALLEL" ≠ 0 then
      [entry m "O_PARALLEL",
        ⟨"O_FSA", m.value "O_PARALLEL" ||| m.value "O_WELLFORMED" ||| m.value "O_RAW"⟩]
      else []).map OpenFlag.symbol).Sublist ["O_PARALLEL", "O_FSA"] := by
  split
  · exact List.Sublist.refl _
  · exact List.nil_sublist _

/-- A platform has some of the symbols, in the order of the source. -/
theorem openFlags_sublist (m : Macros) :
    ((openFlags m).map OpenFlag.symbol).Sublist allSymbols := by
  have hif := entryIf_sublist m
  have hifdef := entryIfdef_sublist m
  have htail : ((entryIfdef m "O_LARGEFILE" ++ (entryIfdef m "O_DIRECT" ++
      entryIfdef m "O_PRIV")).map OpenFlag.symbol).Sublist
        ["O_LARGEFILE", "O_DIRECT", "O_PRIV"] := by
    rw [List.map_append, List.map_append]
    exact append_sublist_cons (hifdef _) (append_sublist_cons (hifdef _) (hifdef _))
  unfold openFlags furtherFlags allSymbols
  simp only [List.append_assoc, List.map_append, List.map_cons, List.cons_append,
    List.nil_append] at htail ⊢
  iterate 9 refine List.Sublist.cons_cons _ ?_
  iterate 7 refine append_sublist_cons (hif _) ?_
  refine append_sublist_cons (hifdef _) ?_
  iterate 8 refine append_sublist_cons (hif _) ?_
  exact (parallel_sublist m).append htail

/-- The access modes that have bits of their own. -/
theorem accessModes_mem (m : Macros) :
    entry m "O_WRONLY" ∈ furtherFlags m ∧ entry m "O_RDWR" ∈ furtherFlags m := by
  unfold furtherFlags
  simp only [List.append_assoc, List.cons_append]
  exact ⟨List.mem_cons_self, List.mem_cons_of_mem _ List.mem_cons_self⟩

/-- No two entries have the same symbol. -/
theorem nodup_symbols (m : Macros) : ((openFlags m).map OpenFlag.symbol).Nodup :=
  (openFlags_sublist m).nodup (by decide +kernel)

theorem comma_notMem_symbol {m : Macros} {e : OpenFlag} (h : e ∈ openFlags m) :
    ',' ∉ e.symbol.toList := by
  have hall : ∀ s ∈ allSymbols, ',' ∉ s.toList := by decide +kernel
  exact hall _ ((openFlags_sublist m).subset (List.mem_map_of_mem h))

theorem symbol_ne_unknown {m : Macros} {e : OpenFlag} (h : e ∈ openFlags m) :
    e.symbol.toList ≠ unknownSymbol := by
  have hall : ∀ s ∈ allSymbols, s.toList ≠ unknownSymbol := by decide +kernel
  exact hall _ ((openFlags_sublist m).subset (List.mem_map_of_mem h))

/-! ### Joined symbols -/

/-- The symbols of some entries. -/
def symbols (l : List OpenFlag) : List (List Char) := (l.map OpenFlag.symbol).map String.toList

/-- Symbols added to a string one after the other. -/
def addSymbols (sep : List Char) : Bool → List Char → List (List Char) → List Char
  | _, s, [] => s
  | havesome, s, symbol :: l => addSymbols sep true (addSymbol sep havesome s symbol) l

theorem addSymbols_true (sep s : List Char) (l : List (List Char)) :
    addSymbols sep true s l = s ++ l.flatMap (sep ++ ·) := by
  induction l generalizing s with
  | nil => simp [addSymbols]
  | cons symbol l ih => simp [addSymbols, addSymbol, ih]

/-- Symbols added to nothing are joined by the separator. -/
theorem addSymbols_false (sep : List Char) (l : List (List Char)) :
    addSymbols sep false [] l = sep.intercalate l := by
  cases l with
  | nil => simp [addSymbols]
  | cons s l => simp [addSymbols, addSymbol, addSymbols_true, intercalate_cons]

theorem addSymbols_append (sep s : List Char) (havesome : Bool) (l : List (List Char))
    (symbol : List Char) :
    addSymbols sep havesome s (l ++ [symbol]) =
      addSymbol sep (havesome || !l.isEmpty) (addSymbols sep havesome s l) symbol := by
  induction l generalizing havesome s with
  | nil => simp [addSymbols]
  | cons s' l ih => simp [addSymbols, ih]

/-- The loop of the printer takes entries greedily. -/
theorem printFlags_eq (sep : List Char) (es : List OpenFlag) (bits : BitVec 32)
    (havesome : Bool) (s : List Char) :
    printFlags sep es bits havesome s =
      ((greedy OpenFlag.flag es bits).2,
        havesome || !(symbols (greedy OpenFlag.flag es bits).1).isEmpty,
        addSymbols sep havesome s (symbols (greedy OpenFlag.flag es bits).1)) := by
  induction es generalizing bits havesome s with
  | nil => simp [printFlags, greedy, symbols, addSymbols]
  | cons e es ih =>
    rw [printFlags]
    by_cases h : Covers bits e.flag
    · rw [if_pos h, greedy_cons_of_covers h, ih]
      simp [symbols, addSymbols]
    · rw [if_neg h, greedy_cons_of_not_covers h, ih]

theorem symbols_emitted (m : Macros) (f : BitVec 32) :
    symbols (emitted m f) =
      (if IsRdonly m f then [rdonlySymbol] else []) ++
        symbols (greedy OpenFlag.flag (furtherFlags m) f).1 := by
  rw [emitted, symbols, List.map_append, List.map_append]
  split <;> rfl

/-- The symbols that a call prints. -/
def printed (m : Macros) (f : BitVec 32) (mode : ℤ) : List (List Char) :=
  symbols (emitted m f) ++ if remaining m f ≠ 0 ∧ mode = 1 then [unknownSymbol] else []

/-- The string before its length is looked at. -/
private theorem openflags2symbols_eq_of_length (m : Macros) (f : BitVec 32) (sep : List Char)
    (mode : ℤ) :
    openflags2symbols m f sep mode =
      if (sep.intercalate (printed m f mode)).length < sizeofOpenSymbols then
        .ok (sep.intercalate (printed m f mode))
      else .error .outOfBounds := by
  have hloop : (if IsRdonly m f then printFlags sep (furtherFlags m) f true rdonlySymbol
      else printFlags sep (furtherFlags m) f false []) =
        (remaining m f, !(symbols (emitted m f)).isEmpty,
          addSymbols sep false [] (symbols (emitted m f))) := by
    rw [symbols_emitted]
    split <;> simp [printFlags_eq, remaining, addSymbols, addSymbol]
  unfold openflags2symbols
  rw [hloop, printed]
  dsimp only
  by_cases hunknown : remaining m f ≠ 0 ∧ mode = 1
  · rw [if_pos hunknown, if_pos hunknown, ← addSymbols_false, addSymbols_append, Bool.false_or]
  · rw [if_neg hunknown, if_neg hunknown, List.append_nil, addSymbols_false]

/-! ### The length of the string -/

/-- The length of some symbols with a comma each. -/
def totalLength : List (List Char) → ℕ
  | [] => 0
  | s :: l => s.length + 1 + totalLength l

theorem totalLength_append (l l' : List (List Char)) :
    totalLength (l ++ l') = totalLength l + totalLength l' := by
  induction l with
  | nil => simp [totalLength]
  | cons s l ih => simp [totalLength, ih]; omega

theorem length_intercalate_le (l : List (List Char)) :
    ([','].intercalate l).length ≤ totalLength l := by
  induction l with
  | nil => simp
  | cons s l ih =>
    cases l with
    | nil => simp [totalLength]
    | cons s' l =>
      rw [List.intercalate_cons_cons, totalLength]
      simp only [List.length_append, List.length_singleton]
      omega

theorem totalLength_le_of_sublist {l l' : List (List Char)} (h : l.Sublist l') :
    totalLength l ≤ totalLength l' := by
  induction h with
  | slnil => exact Nat.le_refl _
  | cons s _ ih => simp only [totalLength]; omega
  | cons_cons s _ ih => simp only [totalLength]; omega

theorem emitted_sublist (m : Macros) (f : BitVec 32) : (emitted m f).Sublist (openFlags m) := by
  have hgreedy : (greedy OpenFlag.flag (furtherFlags m) f).1.Sublist (furtherFlags m) :=
    greedy_fst_sublist (furtherFlags m) f
  rw [emitted, openFlags]
  split
  · rw [List.singleton_append]
    exact List.Sublist.cons_cons _ hgreedy
  · rw [List.nil_append]
    exact List.Sublist.cons _ hgreedy

theorem totalLength_printed_lt (m : Macros) (f : BitVec 32) (mode : ℤ) :
    totalLength (printed m f mode) < sizeofOpenSymbols := by
  have hnames : (symbols (emitted m f)).Sublist (allSymbols.map String.toList) :=
    (((emitted_sublist m f).map OpenFlag.symbol).trans (openFlags_sublist m)).map String.toList
  have hle := totalLength_le_of_sublist hnames
  have hall : totalLength (allSymbols.map String.toList) = 258 := by decide +kernel
  have hunknown : totalLength [unknownSymbol] = 8 := by decide
  rw [printed, totalLength_append, sizeofOpenSymbols]
  split
  · omega
  · rw [totalLength]
    omega

/-- **Printing.** The string has room in the buffer: it consists of the symbols of the entries
that are taken and of the symbol for bits that are left. -/
theorem openflags2symbols_eq (m : Macros) (f : BitVec 32) (mode : ℤ) :
    openflags2symbols m f [','] mode = .ok ([','].intercalate (printed m f mode)) := by
  rw [openflags2symbols_eq_of_length, if_pos]
  exact Nat.lt_of_le_of_lt (length_intercalate_le _) (totalLength_printed_lt m f mode)

/-! ### Reading back -/

variable {m : Macros} {f : BitVec 32}

/-- Entries that differ in their symbols are found by them. -/
private theorem find?_of_nodup {table : List OpenFlag}
    (hnodup : (table.map OpenFlag.symbol).Nodup) {e : OpenFlag} (h : e ∈ table) :
    (table.find? fun e' => decide (e.symbol.toList = e'.symbol.toList)) = some e := by
  induction table with
  | nil => cases h
  | cons e' table ih =>
    obtain ⟨hnot, hnodup⟩ := List.nodup_cons.mp hnodup
    rcases List.mem_cons.mp h with rfl | h
    · rw [List.find?_cons_of_pos (by simp)]
    · rw [List.find?_cons_of_neg, ih hnodup h]
      simp only [decide_eq_true_eq, String.toList_inj]
      exact fun heq => hnot (heq ▸ List.mem_map_of_mem h)

/-- Every entry is found by its symbol. -/
theorem find?_symbol {e : OpenFlag} (h : e ∈ openFlags m) :
    ((openFlags m).find? fun e' => decide (e.symbol.toList = e'.symbol.toList)) = some e :=
  find?_of_nodup (nodup_symbols m) h

/-- No entry has the symbol for bits that are left. -/
theorem find?_unknown (m : Macros) :
    ((openFlags m).find? fun e => decide (unknownSymbol = e.symbol.toList)) = none := by
  rw [List.find?_eq_none]
  intro e he
  simpa using (symbol_ne_unknown he).symm

theorem parseFrom_last {table : List OpenFlag} {name : List Char} (hcomma : ',' ∉ name)
    (bits : BitVec 32) :
    parseFrom table bits name =
      match table.find? fun e => decide (name = e.symbol.toList) with
      | none => { ret := -1, badname := some name }
      | some e => { ret := bits ||| e.flag, badname := none } := by
  rw [parseFrom, cut_of_notMem hcomma]

theorem parseFrom_cons {table : List OpenFlag} {name : List Char} (hcomma : ',' ∉ name)
    (bits : BitVec 32) (rest : List Char) :
    parseFrom table bits (name ++ ',' :: rest) =
      match table.find? fun e => decide (name = e.symbol.toList) with
      | none => { ret := -1, badname := some (name ++ ',' :: rest) }
      | some e => parseFrom table (bits ||| e.flag) rest := by
  rw [parseFrom, cut_append_cons hcomma]

/-- The symbols of some entries are read up to what stands behind them. -/
theorem parseFrom_symbols {l : List OpenFlag} (hl : ∀ e ∈ l, e ∈ openFlags m) (bits : BitVec 32)
    {last : List Char} {tail : List (List Char)} :
    parseFrom (openFlags m) bits ([','].intercalate (symbols l ++ last :: tail)) =
      parseFrom (openFlags m) (bits ||| unionOf OpenFlag.flag l)
        ([','].intercalate (last :: tail)) := by
  induction l generalizing bits with
  | nil => simp [symbols, unionOf]
  | cons e l ih =>
    have he := hl e List.mem_cons_self
    have hstep : [','].intercalate (symbols (e :: l) ++ last :: tail) =
        e.symbol.toList ++ ',' :: [','].intercalate (symbols l ++ last :: tail) := by
      cases l with
      | nil => simp [symbols, List.intercalate_cons_cons]
      | cons e' l => simp [symbols, List.intercalate_cons_cons]
    rw [hstep, parseFrom_cons (comma_notMem_symbol he), find?_symbol he]
    dsimp only
    rw [ih (fun e' h => hl e' (List.mem_cons_of_mem _ h)), unionOf, BitVec.or_assoc]

/-- Symbols of entries are read back as the union of the flags. -/
theorem parse_symbols {l : List OpenFlag} (hne : l ≠ []) (hl : ∀ e ∈ l, e ∈ openFlags m) :
    parseOpenFlags m ([','].intercalate (symbols l)) =
      { ret := unionOf OpenFlag.flag l, badname := none } := by
  obtain ⟨init, e, rfl⟩ := (List.eq_nil_or_concat' l).resolve_left hne
  have hsymbols : symbols (init ++ [e]) = symbols init ++ [e.symbol.toList] := by simp [symbols]
  have he := hl e (by simp)
  rw [parseOpenFlags, hsymbols, parseFrom_symbols fun e' h => hl e' (List.mem_append_left _ h),
    List.intercalate_singleton, parseFrom_last (comma_notMem_symbol he), find?_symbol he]
  dsimp only
  rw [unionOf_append]
  simp [unionOf]

/-- The symbol for bits that are left is an error behind any other symbols. -/
theorem parse_unknown {l : List OpenFlag} (hl : ∀ e ∈ l, e ∈ openFlags m) :
    parseOpenFlags m ([','].intercalate (symbols l ++ [unknownSymbol])) =
      { ret := -1, badname := some unknownSymbol } := by
  have hcomma : ',' ∉ unknownSymbol := by decide
  rw [parseOpenFlags, parseFrom_symbols hl, List.intercalate_singleton, parseFrom_last hcomma,
    find?_unknown]

/-! ### Printing and reading back -/

/-- The argument is the union of flags of the table. -/
def IsUnion (m : Macros) (f : BitVec 32) : Prop :=
  ∃ l, l ⊆ openFlags m ∧ f = unionOf OpenFlag.flag l

/-- With mode 1 the string is read back as the argument. -/
def UnionReadBack (m : Macros) (f : BitVec 32) : Prop :=
  ∃ s, openflags2symbols m f [','] 1 = .ok s ∧ parseOpenFlags m s = { ret := f, badname := none }

/-- With mode 1 the string ends with the symbol for bits that are left, and reading it back fails
there. -/
def UnknownReported (m : Macros) (f : BitVec 32) : Prop :=
  ∃ s, openflags2symbols m f [','] 1 = .ok s ∧
    (s = unknownSymbol ∨ ∃ t, s = t ++ ',' :: unknownSymbol) ∧
    parseOpenFlags m s = { ret := -1, badname := some unknownSymbol }

/-- With mode 0 the string is read back as the bits that the printed symbols cover. -/
def CoverReadBack (m : Macros) (f : BitVec 32) : Prop :=
  ∃ s, openflags2symbols m f [','] 0 = .ok s ∧ s = [','].intercalate (symbols (emitted m f)) ∧
    parseOpenFlags m s = { ret := f &&& unionOf OpenFlag.flag (emitted m f), badname := none }

theorem mem_openFlags_of_mem_emitted {e : OpenFlag} (h : e ∈ emitted m f) : e ∈ openFlags m :=
  (emitted_sublist m f).subset h

/-- Without bits in `O_RDONLY` the union of the printed flags is the argument without the bits that
are left. -/
theorem unionOf_emitted (hrdonly : m.value "O_RDONLY" = 0) (f : BitVec 32) :
    unionOf OpenFlag.flag (emitted m f) = f &&& ~~~remaining m f := by
  have hgreedy : unionOf OpenFlag.flag (greedy OpenFlag.flag (furtherFlags m) f).1 =
      f &&& ~~~(greedy OpenFlag.flag (furtherFlags m) f).2 :=
    (unionOf_greedy (furtherFlags m) f).1
  rw [emitted, unionOf_append, hgreedy, remaining]
  split
  · simp [unionOf, entry, hrdonly]
  · simp [unionOf]

/-- Without bits in `O_RDONLY` nothing is left of a union of flags. -/
theorem remaining_eq_zero_iff (hnested : NestedAfter OpenFlag.flag [] (openFlags m))
    (hrdonly : m.value "O_RDONLY" = 0) : remaining m f = 0 ↔ IsUnion m f := by
  obtain ⟨-, htail⟩ := hnested
  have hseen : ∀ s ∈ [(entry m "O_RDONLY").flag], Covers f s → s = 0 := by
    intro s hs _
    rw [List.mem_singleton.mp hs]
    exact hrdonly
  constructor
  · intro hzero
    refine ⟨emitted m f, (emitted_sublist m f).subset, ?_⟩
    rw [unionOf_emitted hrdonly, hzero, and_not_zero]
  · rintro ⟨l, hsub, rfl⟩
    refine (greedy_snd_eq_zero_iff htail hseen).mpr ⟨l.filter (· ∈ furtherFlags m), ?_, ?_⟩
    · intro e he
      simpa using (List.mem_filter.mp he).2
    · refine BitVec.eq_of_getLsbD_eq fun i _ => Bool.eq_iff_iff.mpr ?_
      rw [getLsbD_unionOf, getLsbD_unionOf]
      constructor
      · rintro ⟨e, he, hi⟩
        rcases List.mem_cons.mp (hsub he) with rfl | hmem
        · simp [entry, hrdonly] at hi
        · exact ⟨e, List.mem_filter.mpr ⟨he, by simpa using hmem⟩, hi⟩
      · rintro ⟨e, he, hi⟩
        exact ⟨e, (List.mem_filter.mp he).1, hi⟩

/-- Something is printed when the access modes are single bits. -/
theorem emitted_ne_nil {i j : ℕ} (hwronly : m.value "O_WRONLY" = BitVec.twoPow 32 i)
    (hrdwr : m.value "O_RDWR" = BitVec.twoPow 32 j) (f : BitVec 32) : emitted m f ≠ [] := by
  have hbit {v : BitVec 32} {k n : ℕ} (hv : v = BitVec.twoPow 32 k) (hf : f.getLsbD n = true)
      (hn : v.getLsbD n = true) : Covers f v := by
    refine covers_iff.mpr fun l hl => ?_
    simp only [hv, BitVec.getLsbD_twoPow, Bool.and_eq_true, decide_eq_true_eq] at hn hl
    rw [← hl.2, hn.2]
    exact hf
  intro hnil
  obtain ⟨hfirst, htaken⟩ := List.append_eq_nil_iff.mp hnil
  have hnone := greedy_fst_eq_nil_iff.mp htaken
  have hrd : ¬IsRdonly m f := by
    intro hrd
    rw [if_pos hrd] at hfirst
    cases hfirst
  -- Some bit of an access mode is set, and the whole of that mode with it.
  refine hrd (BitVec.eq_of_getLsbD_eq fun n _ => ?_)
  rw [BitVec.getLsbD_and, BitVec.getLsbD_or]
  cases hf : f.getLsbD n with
  | false => simp
  | true =>
    cases hw : (m.value "O_WRONLY").getLsbD n with
    | true =>
      exact absurd (hbit hwronly hf hw) (hnone _ (accessModes_mem m).1)
    | false =>
      cases hr : (m.value "O_RDWR").getLsbD n with
      | true => exact absurd (hbit hrdwr hf hr) (hnone _ (accessModes_mem m).2)
      | false => simp

theorem printed_of_remaining_eq_zero (h : remaining m f = 0) :
    printed m f 1 = symbols (emitted m f) := by
  rw [printed, if_neg fun hleft => hleft.1 h, List.append_nil]

theorem printed_of_remaining_ne_zero (h : remaining m f ≠ 0) :
    printed m f 1 = symbols (emitted m f) ++ [unknownSymbol] := by
  rw [printed, if_pos ⟨h, rfl⟩]

/-- Bits that are left are reported. -/
theorem unknownReported_of_remaining (h : remaining m f ≠ 0) : UnknownReported m f := by
  refine ⟨_, openflags2symbols_eq m f 1, ?_, ?_⟩
  · rw [printed_of_remaining_ne_zero h]
    cases symbols (emitted m f) with
    | nil => exact .inl (by simp)
    | cons s l =>
      refine .inr ⟨[','].intercalate (s :: l), ?_⟩
      rw [← addSymbols_false, addSymbols_append, addSymbols_false]
      simp [addSymbol]
  · rw [printed_of_remaining_ne_zero h]
    exact parse_unknown fun e => mem_openFlags_of_mem_emitted

/-- With mode 0 the symbols are read back, if there are any. -/
theorem coverReadBack_of_emitted (hrdonly : m.value "O_RDONLY" = 0) (hne : emitted m f ≠ []) :
    CoverReadBack m f := by
  have hprinted : printed m f 0 = symbols (emitted m f) := by simp [printed]
  refine ⟨_, openflags2symbols_eq m f 0, by rw [hprinted], ?_⟩
  rw [hprinted, parse_symbols hne fun e => mem_openFlags_of_mem_emitted]
  congr 1
  rw [unionOf_emitted hrdonly, ← BitVec.and_assoc, BitVec.and_self]

/-- A union of flags is read back. -/
theorem unionReadBack_of_remaining (hrdonly : m.value "O_RDONLY" = 0) (h : remaining m f = 0) :
    UnionReadBack m f := by
  refine ⟨_, openflags2symbols_eq m f 1, ?_⟩
  have hunion := unionOf_emitted hrdonly f
  rw [h, and_not_zero] at hunion
  have hne : emitted m f ≠ [] := by
    intro hnil
    -- Nothing would be printed for zero only, and zero is `O_RDONLY`.
    rw [hnil] at hunion
    have hrd : IsRdonly m f := by simp [IsRdonly, ← hunion, unionOf]
    rw [emitted, if_pos hrd] at hnil
    cases hnil
  rw [printed_of_remaining_eq_zero h, parse_symbols hne fun e => mem_openFlags_of_mem_emitted,
    hunion]

/-- **Printing and reading back.** On a platform whose flags are disjoint or nested, larger ones
first, and whose `O_RDONLY` has no bits: a union of flags is read back; the bits that are left of
any other argument are reported; and with mode 0 what the printed symbols cover is read back, if
any is printed, as is always the case when the other access modes are single bits. -/
theorem openFlags_readBack (hnested : NestedAfter OpenFlag.flag [] (openFlags m))
    (hrdonly : m.value "O_RDONLY" = 0) (f : BitVec 32) :
    (IsUnion m f → UnionReadBack m f) ∧ (¬IsUnion m f → UnknownReported m f) ∧
      (emitted m f ≠ [] → CoverReadBack m f) ∧
      ((∃ i j, m.value "O_WRONLY" = BitVec.twoPow 32 i ∧ m.value "O_RDWR" = BitVec.twoPow 32 j) →
        emitted m f ≠ []) := by
  have hleft := remaining_eq_zero_iff (f := f) hnested hrdonly
  refine ⟨fun h => unionReadBack_of_remaining hrdonly (hleft.mpr h),
    fun h => unknownReported_of_remaining fun hzero => h (hleft.mp hzero),
    coverReadBack_of_emitted hrdonly, ?_⟩
  rintro ⟨i, j, hwronly, hrdwr⟩
  exact emitted_ne_nil hwronly hrdwr f

/-- The macros of a list. -/
def ofList (l : List (String × BitVec 32)) : Macros := fun name => l.lookup name

/-- A platform with a bit for each flag, for given access modes. -/
def withModes (rdonly wronly rdwr : BitVec 32) : Macros :=
  ofList [("O_RDONLY", rdonly), ("O_WRONLY", wronly), ("O_RDWR", rdwr), ("O_SYNC", 0x8),
    ("O_CREAT", 0x10), ("O_TRUNC", 0x20), ("O_EXCL", 0x40), ("O_APPEND", 0x80),
    ("O_NONBLOCK", 0x100)]

/-- The flags of Linux. -/
def linux : Macros :=
  ofList [("O_RDONLY", 0x0), ("O_WRONLY", 0x1), ("O_RDWR", 0x2), ("O_SYNC", 0x101000),
    ("O_CREAT", 0x40), ("O_TRUNC", 0x200), ("O_EXCL", 0x80), ("O_APPEND", 0x400),
    ("O_NONBLOCK", 0x800), ("O_NOCTTY", 0x100), ("O_DSYNC", 0x1000), ("O_RSYNC", 0x101000),
    ("O_ASYNC", 0x2000), ("O_NDELAY", 0x800), ("O_LARGEFILE", 0x0), ("O_DIRECT", 0x4000)]

theorem openFlags_readBack_linux : UnionReadBack linux 0x101041 := by
  have hnested : NestedAfter OpenFlag.flag [] (openFlags linux) := by decide +kernel
  have hrdonly : linux.value "O_RDONLY" = 0 := by decide +kernel
  have hleft : remaining linux 0x101041 = 0 := by decide +kernel
  exact (openFlags_readBack hnested hrdonly 0x101041).1
    ((remaining_eq_zero_iff hnested hrdonly).mp hleft)

/-- When nothing is printed the string does not parse. -/
theorem not_coverReadBack_of_nil (h : emitted m f = []) : ¬CoverReadBack m f := by
  have hempty : ((openFlags m).find? fun e => decide ([] = e.symbol.toList)) = none := by
    have hall : ∀ s ∈ allSymbols, [] ≠ s.toList := by decide +kernel
    rw [List.find?_eq_none]
    intro e he
    simpa using hall _ ((openFlags_sublist m).subset (List.mem_map_of_mem he))
  rintro ⟨s, -, rfl, hparse⟩
  have hcomma : ',' ∉ ([] : List Char) := List.not_mem_nil
  have hfail := @parseFrom_last (openFlags m) [] hcomma 0
  rw [hempty] at hfail
  rw [h, symbols, List.map_nil, List.map_nil, List.intercalate_nil, parseOpenFlags, hfail] at hparse
  exact Option.some_ne_none _ (congrArg ParsedFlags.badname hparse)

/-- A platform on which `O_RDONLY` has a bit, which is never removed, and one on which an access
mode has two bits, one of which is printed as nothing. -/
theorem not_readBack_other_modes :
    (Nested OpenFlag.flag (openFlags (withModes 1 2 4)) ∧ IsUnion (withModes 1 2 4) 1 ∧
        ¬UnionReadBack (withModes 1 2 4) 1) ∧
      (Nested OpenFlag.flag (openFlags (withModes 0 3 4)) ∧
        ¬CoverReadBack (withModes 0 3 4) 1) := by
  refine ⟨⟨by decide +kernel, ?_, ?_⟩, by decide +kernel, ?_⟩
  · exact ⟨[entry (withModes 1 2 4) "O_RDONLY"], by simp [openFlags], by decide +kernel⟩
  · have hleft : remaining (withModes 1 2 4) 1 ≠ 0 := by decide +kernel
    obtain ⟨s, hs, -, hreported⟩ := unknownReported_of_remaining hleft
    rintro ⟨s', hs', hparse⟩
    obtain rfl := Except.ok.inj (hs.symm.trans hs')
    rw [hreported] at hparse
    cases hparse
  · exact not_coverReadBack_of_nil (by decide +kernel)

end OpenFlags

end SnowballLtp
