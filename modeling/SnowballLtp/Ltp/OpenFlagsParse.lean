import SnowballLtp.Ltp.OpenFlags
import SnowballLtp.Machine.FlagList

/-!
# Parsing open flags in place

`parse_open_flags` goes through the string in the memory of the caller: it ends the string behind
one name after the other and restores the character that was there. Here the memory is a part of
the model, so that its contents on return can be stated; `parseOpenFlags` is the same function on
the characters alone.

## Main definitions

* `parseOpenFlagsAt`.
* `IsSymbolList`: a list of symbols of the table.

## Main results

* `parseOpenFlagsAt_ret`: both models return the same value.
* `parseOpenFlagsAt_spec`: what a call returns and leaves, for every string.
-/

namespace SnowballLtp

namespace OpenFlags

open FlagList

/-- The flag of a name in the table. -/
def flagOf (m : Macros) (name : List Char) : Option (BitVec 32) :=
  ((openFlags m).find? fun e => decide (name = e.symbol.toList)).map OpenFlag.flag

/-- `parse_open_flags` of the string at a position of the memory; `badname` has the value of
`*badname` if there is such. -/
def parseOpenFlagsAt (fuel : ℕ) (m : Macros) (mem : List Char) (string : ℕ) (badname : Option ℕ) :
    Option (Except Fault Parsed) :=
  iterate (flagPass ',' (flagOf m) badname) fuel { mem, token := string, cc := string, mask := 0 }

variable {m : Macros} {s : List Char}

/-! ### The functional model -/

private theorem parseFrom_ret (m : Macros) (bits : BitVec 32) (pos : ℕ) (s : List Char) :
    (parseFrom (openFlags m) bits s).ret =
      (leave [] none (judge (flagOf m) pos bits (s.splitOn ','))).ret := by
  induction hn : s.length using Nat.strongRecOn generalizing s bits pos with
  | _ n ih =>
    subst hn
    have hsep : ',' ∉ (cut ',' s).1 := notMem_cut_fst s
    have heq : s = (cut ',' s).1 ++ ((cut ',' s).2.elim [] fun rest => ',' :: rest) := eq_of_cut s
    have hsplit : s.splitOn ',' =
        (cut ',' s).1 :: ((cut ',' s).2.elim [] fun rest => rest.splitOn ',') := splitOn_eq_cut s
    generalize (cut ',' s).1 = t at hsep heq hsplit
    cases hcut : (cut ',' s).2 with
    | none =>
      rw [hcut, Option.elim_none] at hsplit
      rw [hcut, Option.elim_none, List.append_nil] at heq
      subst heq
      rw [hsplit, parseFrom_last hsep, judge, flagOf]
      cases (openFlags m).find? fun e => decide (s = e.symbol.toList) <;> rfl
    | some s' =>
      rw [hcut, Option.elim_some] at hsplit heq
      subst heq
      rw [hsplit, parseFrom_cons hsep, judge, flagOf]
      cases (openFlags m).find? fun e => decide (t = e.symbol.toList) with
      | none => rfl
      | some e =>
        refine ih s'.length ?_ _ _ s' rfl
        rw [List.length_append, List.length_cons]
        omega

/-- **Both models** return the same value. -/
theorem parseOpenFlagsAt_ret (m : Macros) {fuel : ℕ} (hnul : nul ∉ s) (hfuel : s.length < fuel)
    (before rest : List Char) (badname : Option ℕ) :
    ∃ r, parseOpenFlagsAt fuel m (before ++ (s ++ nul :: rest)) before.length badname =
        some (.ok r) ∧ r.ret = (parseOpenFlags m s).ret := by
  refine ⟨_, iterate_flagPass (by decide) hnul hfuel, ?_⟩
  rw [parseOpenFlags, parseFrom_ret m 0 before.length s]
  cases judge (flagOf m) before.length 0 (s.splitOn ',') <;> rfl

/-! ### Every string -/

/-- The string is the list of the symbols of some entries. -/
def IsSymbolList (m : Macros) (es : List OpenFlag) (s : List Char) : Prop :=
  es ≠ [] ∧ (∀ e ∈ es, e ∈ openFlags m) ∧ s = [','].intercalate (symbols es)

/-- The names that are found are the symbols of the table. -/
theorem recognises_flagOf (m : Macros) :
    Recognises (flagOf m) fun t => t ∈ symbols (openFlags m) := by
  intro t
  rw [flagOf, Ne, Option.map_eq_none_iff, List.find?_eq_none]
  simp [symbols, eq_comm]

theorem flagOf_symbol {e : OpenFlag} (h : e ∈ openFlags m) :
    flagOf m e.symbol.toList = some e.flag := by
  rw [flagOf, find?_symbol h, Option.map_some]

/-- The tokens of a list of symbols. -/
theorem splitOn_of_isSymbolList {es : List OpenFlag} (h : IsSymbolList m es s) :
    s.splitOn ',' = symbols es := by
  obtain ⟨hne, hmem, rfl⟩ := h
  refine List.splitOn_intercalate ',' ?_ (by simpa [symbols] using hne)
  simp only [symbols, List.map_map, List.mem_map, forall_exists_index, and_imp,
    forall_apply_eq_imp_iff₂, Function.comp_apply]
  exact fun e he => comma_notMem_symbol (hmem e he)

private theorem exists_symbols_eq (ts : List (List Char))
    (h : ∀ t ∈ ts, t ∈ symbols (openFlags m)) :
    ∃ es, (∀ e ∈ es, e ∈ openFlags m) ∧ ts = symbols es := by
  induction ts with
  | nil => exact ⟨[], fun e he => absurd he List.not_mem_nil, rfl⟩
  | cons t ts ih =>
    obtain ⟨es, hes, rfl⟩ := ih fun u hu => h u (List.mem_cons_of_mem _ hu)
    obtain ⟨a, ha, rfl⟩ := List.mem_map.mp (h t List.mem_cons_self)
    obtain ⟨e, he, rfl⟩ := List.mem_map.mp ha
    exact ⟨e :: es, List.forall_mem_cons.mpr ⟨he, hes⟩, rfl⟩

/-- A string whose tokens are symbols is a list of symbols. -/
theorem exists_isSymbolList (h : ∀ t ∈ s.splitOn ',', t ∈ symbols (openFlags m)) :
    ∃ es, IsSymbolList m es s := by
  obtain ⟨es, hes, hsplit⟩ := exists_symbols_eq _ h
  refine ⟨es, ?_, hes, ?_⟩
  · rintro rfl
    exact List.splitOn_ne_nil ',' s hsplit
  · rw [← hsplit, List.intercalate_splitOn]

theorem unionOf_symbols {es : List OpenFlag} (h : ∀ e ∈ es, e ∈ openFlags m) :
    unionOf (bitsOf (flagOf m)) (symbols es) = unionOf OpenFlag.flag es := by
  induction es with
  | nil => rfl
  | cons e es ih =>
    have he : flagOf m e.symbol.toList = some e.flag := flagOf_symbol (h e List.mem_cons_self)
    have hes := ih fun e' he' => h e' (List.mem_cons_of_mem _ he')
    rw [symbols, List.map_cons, List.map_cons, unionOf, unionOf, bitsOf, he, Option.getD_some]
    exact congrArg (e.flag ||| ·) hes

/-- **Every string.** On a list of symbols of the table the call returns the union of their flags;
on any other string it returns `-1` and the position of the first token that is not a symbol. The
memory is unchanged. -/
theorem parseOpenFlagsAt_spec (m : Macros) {fuel : ℕ} (before s rest : List Char) (badname : ℕ)
    (hnul : nul ∉ s) (hfuel : s.length < fuel) :
    ∃ r, parseOpenFlagsAt fuel m (before ++ (s ++ nul :: rest)) before.length (some badname) =
        some (.ok r) ∧ r.mem = before ++ (s ++ nul :: rest) ∧
      (∀ es, IsSymbolList m es s → r.ret = unionOf OpenFlag.flag es ∧ r.bad = some badname) ∧
      ((¬∃ es, IsSymbolList m es s) → r.ret = -1 ∧
        ∃ n, FirstBad (fun t => t ∈ symbols (openFlags m)) (s.splitOn ',') n ∧
          r.bad = some (before.length + n)) := by
  obtain ⟨r, hrun, hmem, hgood, hbad⟩ := exists_parsed (show ',' ≠ nul by decide)
    (recognises_flagOf m) hnul hfuel before rest (some badname)
  refine ⟨r, hrun, hmem, fun es h => ?_, fun h => ?_⟩
  · have hsplit := splitOn_of_isSymbolList h
    obtain ⟨-, hes, -⟩ := h
    rw [hsplit, unionOf_symbols hes] at hgood
    refine hgood fun t ht => ?_
    obtain ⟨a, ha, rfl⟩ := List.mem_map.mp ht
    obtain ⟨e, he, rfl⟩ := List.mem_map.mp ha
    exact List.mem_map_of_mem (List.mem_map_of_mem (hes e he))
  · exact hbad fun hall => h (exists_isSymbolList hall)

theorem parseOpenFlagsAt_spec_linux :
    ∃ r, parseOpenFlagsAt 16 linux ("O_RDWR,,O_SYNC".toList ++ [nul]) 0 (some 100) =
        some (.ok r) ∧ r.mem = "O_RDWR,,O_SYNC".toList ++ [nul] ∧
      (∀ es, IsSymbolList linux es "O_RDWR,,O_SYNC".toList →
        r.ret = unionOf OpenFlag.flag es ∧ r.bad = some 100) ∧
      ((¬∃ es, IsSymbolList linux es "O_RDWR,,O_SYNC".toList) → r.ret = -1 ∧
        ∃ n, FirstBad (fun t => t ∈ symbols (openFlags linux))
          ("O_RDWR,,O_SYNC".toList.splitOn ',') n ∧
          r.bad = some (0 + n)) :=
  parseOpenFlagsAt_spec linux [] "O_RDWR,,O_SYNC".toList [] 100 (by decide) (by decide)

end OpenFlags

end SnowballLtp
