import SnowballLtp.Ltp.LioMethods
import SnowballLtp.Machine.FlagList
import SnowballLtp.Machine.ScanInt

/-!
# Parsing an I/O method

`lio_parse_io_arg2` reads a list of tokens, in place. A token of the table stands for its bits, and
an integer of either sign for the bits of an `int`. The bits of all of them are returned, and `-1`
when a token is neither. The number `-1` has every bit, so that this is also what a list returns
whose tokens have all the bits together.

## Main definitions

* `lioParseIoArg2`.
* `Valid`, `BitsOf`: what a token should be, and the bits that it stands for.
* `ParsesMethod`: what a call should return and leave.

## Main results

* `exists_lioParseIoArg2`: what a call returns and leaves.
* `lioParseIoArg2_parsesMethod_iff`.
-/

namespace SnowballLtp

namespace Lio

open FlagList

/-- `Lio_info2`. -/
def info2 : List InfoType :=
  [⟨"sync", ioSync, "sync i/o (read/write)"⟩,
    ⟨"async", ioAsync, "async i/o (reada/writea/aio_read/aio_write)"⟩,
    ⟨"slistio", ioSlistio, "single stride sync listio"⟩,
    ⟨"alistio", ioAlistio, "single stride async listio"⟩,
    ⟨"syncv", ioSyncv, "single buffer sync readv/writev"⟩,
    ⟨"syncp", ioSyncp, "pread/pwrite"⟩,
    ⟨"active", waitActive, "spin on status/control values"⟩,
    ⟨"recall", waitRecall, "use recall(2)/aio_suspend(3) to wait for i/o to complete"⟩,
    ⟨"sigactive", waitSigactive, "spin waiting for signal"⟩,
    ⟨"sigpause", waitSigpause, "call pause(2) to wait for signal"⟩,
    ⟨"random", random, "set random bit"⟩,
    ⟨"randomall", random ||| ioTypes ||| waitTypes,
      "all random i/o types and wait methods (except nowait)"⟩]

/-- The bits of a token: those of the table, and otherwise the number that is stored by a single
conversion. -/
def tokenBits (token : List Char) : Option (BitVec 32) :=
  match info2.find? fun info => decide (token = info.token.toList) with
  | some info => some info.bits
  | none =>
    let (ret, tmp) := sscanfIntChar token
    if ret = 1 then tmp.map (BitVec.ofInt 32) else none

/-- `lio_parse_io_arg2` of the string at a position of the memory, or of a null pointer. -/
def lioParseIoArg2 (fuel : ℕ) (mem : List Char) (string badtoken : Option ℕ) :
    Option (Except Fault Parsed) :=
  match string with
  | none => some (.ok { mem, ret := -1, bad := badtoken })
  | some string =>
    iterate (flagPass ',' tokenBits badtoken) fuel { mem, token := string, cc := string, mask := 0 }

/-! ### Tokens -/

/-- The token is one of the table. -/
def IsInfoToken (t : List Char) : Prop := ∃ info ∈ info2, t = info.token.toList

/-- A token should be one of the table or an integer. -/
def Valid (t : List Char) : Prop := IsInfoToken t ∨ ∃ x, IsInteger t x

/-- The bits that a token stands for. -/
def BitsOf (t : List Char) (bits : BitVec 32) : Prop :=
  (∃ info ∈ info2, t = info.token.toList ∧ bits = info.bits) ∨
    ∃ x, IsInteger t x ∧ bits = BitVec.ofInt 32 (int32 (clampLong x))

/-- No token of the table is a number. -/
private theorem sscanfIntChar_token :
    ∀ info ∈ info2, (sscanfIntChar info.token.toList).1 ≠ 1 := by decide +kernel

private theorem find?_token : ∀ info ∈ info2,
    (info2.find? fun i => decide (info.token.toList = i.token.toList)).map InfoType.bits =
      some info.bits := by decide +kernel

variable {t s : List Char} {bits : BitVec 32}

private theorem find?_eq_none_iff :
    (info2.find? fun info => decide (t = info.token.toList)) = none ↔ ¬IsInfoToken t := by
  rw [List.find?_eq_none]
  simp [IsInfoToken]

/-- An integer is no token of the table. -/
theorem not_isInfoToken_of_isInteger {x : ℤ} (h : IsInteger t x) : ¬IsInfoToken t := by
  rintro ⟨info, hinfo, rfl⟩
  have hone := sscanfIntChar_eq_one_iff.mpr ⟨x, h, rfl⟩
  exact sscanfIntChar_token info hinfo (by rw [hone])

/-- The bits that are looked up. -/
theorem tokenBits_eq_some_iff : tokenBits t = some bits ↔ BitsOf t bits := by
  constructor
  · rw [tokenBits]
    cases hfind : info2.find? fun info => decide (t = info.token.toList) with
    | some info =>
      intro h
      have ht := List.find?_some hfind
      exact .inl ⟨info, List.mem_of_find?_eq_some hfind, of_decide_eq_true ht,
        (Option.some.inj h).symm⟩
    | none =>
      dsimp only
      intro h
      split at h
      · next hret =>
        have hone : sscanfIntChar t = (1, (sscanfIntChar t).2) := Prod.ext hret rfl
        obtain ⟨x, hx, htmp⟩ := sscanfIntChar_eq_one_iff.mp hone
        rw [htmp, Option.map_some, Option.some.injEq] at h
        exact .inr ⟨x, hx, h.symm⟩
      · cases h
  · rintro (⟨info, hinfo, rfl, rfl⟩ | ⟨x, hx, rfl⟩)
    · have htoken := find?_token info hinfo
      rw [tokenBits]
      cases hfind : info2.find? fun i => decide (info.token.toList = i.token.toList) with
      | some i =>
        rw [hfind] at htoken
        exact htoken
      | none =>
        rw [hfind] at htoken
        cases htoken
    · rw [tokenBits, find?_eq_none_iff.mpr (not_isInfoToken_of_isInteger hx),
        sscanfIntChar_eq_one_iff.mpr ⟨x, hx, rfl⟩]
      rfl

/-- The tokens that are found are the valid ones. -/
theorem recognises_tokenBits : Recognises tokenBits Valid := by
  intro t
  rw [Option.ne_none_iff_exists']
  simp only [tokenBits_eq_some_iff]
  constructor
  · rintro ⟨b, ⟨info, hinfo, rfl, -⟩ | ⟨x, hx, -⟩⟩
    · exact .inl ⟨info, hinfo, rfl⟩
    · exact .inr ⟨x, hx⟩
  · rintro (⟨info, hinfo, rfl⟩ | ⟨x, hx⟩)
    · exact ⟨_, .inl ⟨info, hinfo, rfl, rfl⟩⟩
    · exact ⟨_, .inr ⟨x, hx, rfl⟩⟩

theorem bitsOf_unique {b : BitVec 32} (h : BitsOf t bits) : BitsOf t b ↔ b = bits := by
  rw [← tokenBits_eq_some_iff, tokenBits_eq_some_iff.mpr h, Option.some.injEq, eq_comm]

/-! ### What a call should do -/

/-- The bits of some tokens, one after the other. -/
def ListBits (ts : List (List Char)) (bs : List (BitVec 32)) : Prop := List.Forall₂ BitsOf ts bs

/-- What a call should return and leave: `-1` just when some token is not valid, and then the first
such token is known; otherwise the bits of all tokens. The memory is unchanged. -/
def ParsesMethod (before s rest : List Char) (r : Parsed) : Prop :=
  (r.ret = -1 ↔ ∃ t ∈ s.splitOn ',', ¬Valid t) ∧
    ((∃ t ∈ s.splitOn ',', ¬Valid t) →
      ∃ n, FirstBad Valid (s.splitOn ',') n ∧ r.bad = some (before.length + n)) ∧
    ((∀ t ∈ s.splitOn ',', Valid t) →
      ∃ bs, ListBits (s.splitOn ',') bs ∧ r.ret = unionOf id bs) ∧
    r.mem = before ++ (s ++ nul :: rest)

/-- Some bit of an `int` is in no token. -/
def LacksBit (s : List Char) : Prop :=
  ∃ i < 32, ∀ t ∈ s.splitOn ',', ∀ b, BitsOf t b → b.getLsbD i = false

/-- The bits of valid tokens. -/
theorem listBits_of_valid {ts : List (List Char)} (h : ∀ t ∈ ts, Valid t) :
    ∃ bs, ListBits ts bs ∧ unionOf (bitsOf tokenBits) ts = unionOf id bs := by
  induction ts with
  | nil => exact ⟨[], .nil, rfl⟩
  | cons t ts ih =>
    obtain ⟨bs, hbs, hunion⟩ := ih fun u hu => h u (List.mem_cons_of_mem _ hu)
    obtain ⟨b, hb⟩ := Option.ne_none_iff_exists'.mp
      ((recognises_tokenBits t).mpr (h t List.mem_cons_self))
    refine ⟨b :: bs, .cons (tokenBits_eq_some_iff.mp hb) hbs, ?_⟩
    rw [unionOf, unionOf, hunion, bitsOf, hb]
    rfl

private theorem getLsbD_neg_one : ∀ i < 32, (-1 : BitVec 32).getLsbD i = true := by decide

/-- Valid tokens have all bits together when no bit is lacking. -/
theorem unionOf_ne_neg_one_iff (h : ∀ t ∈ s.splitOn ',', Valid t) :
    unionOf (bitsOf tokenBits) (s.splitOn ',') ≠ -1 ↔ LacksBit s := by
  have hbits {u : List Char} (hu : u ∈ s.splitOn ',') : BitsOf u (bitsOf tokenBits u) := by
    obtain ⟨b, hb⟩ := Option.ne_none_iff_exists'.mp ((recognises_tokenBits u).mpr (h u hu))
    rw [bitsOf, hb]
    exact tokenBits_eq_some_iff.mp hb
  constructor
  · refine fun hne => Classical.byContradiction fun hall => hne ?_
    refine BitVec.eq_of_getLsbD_eq fun i hi => ?_
    rw [getLsbD_neg_one i hi]
    refine Classical.byContradiction fun hbit => hall ⟨i, hi, fun u hu b hb => ?_⟩
    rw [(bitsOf_unique (hbits hu)).mp hb]
    exact Bool.eq_false_iff.mpr fun hset => hbit (getLsbD_unionOf.mpr ⟨u, hu, hset⟩)
  · rintro ⟨i, hi, hlack⟩ heq
    obtain ⟨u, hu, hset⟩ := getLsbD_unionOf.mp (heq ▸ getLsbD_neg_one i hi)
    rw [hlack u hu _ (hbits hu)] at hset
    cases hset

/-! ### What a call does -/

/-- **Every string.** The call returns, the memory is unchanged, and what is returned is the bits of
all tokens, or `-1` with the first token that is not valid. -/
theorem exists_lioParseIoArg2 {fuel : ℕ} (hnul : nul ∉ s) (hfuel : s.length < fuel)
    (before rest : List Char) (badtoken : Option ℕ) :
    ∃ r, lioParseIoArg2 fuel (before ++ (s ++ nul :: rest)) (some before.length) badtoken =
        some (.ok r) ∧ r.mem = before ++ (s ++ nul :: rest) ∧
      ((∀ t ∈ s.splitOn ',', Valid t) →
        r.ret = unionOf (bitsOf tokenBits) (s.splitOn ',') ∧ r.bad = badtoken) ∧
      ((¬∀ t ∈ s.splitOn ',', Valid t) → r.ret = -1 ∧
        ∃ n, FirstBad Valid (s.splitOn ',') n ∧ r.bad = badtoken.map fun _ => before.length + n) :=
  exists_parsed (by decide) recognises_tokenBits hnul hfuel before rest badtoken

/-- **Failure and the bits of the tokens.** The call does what it should when some token is not
valid and when some bit is in no token; otherwise it returns `-1` for a valid list. -/
theorem lioParseIoArg2_parsesMethod_iff {fuel : ℕ} (before s rest : List Char) (badtoken : ℕ)
    (hnul : nul ∉ s) (hfuel : s.length < fuel) :
    ∃ r, lioParseIoArg2 fuel (before ++ (s ++ nul :: rest)) (some before.length) (some badtoken) =
        some (.ok r) ∧
      (ParsesMethod before s rest r ↔ (∃ t ∈ s.splitOn ',', ¬Valid t) ∨ LacksBit s) := by
  obtain ⟨r, hrun, hmem, hgood, hbad⟩ :=
    exists_lioParseIoArg2 hnul hfuel before rest (some badtoken)
  refine ⟨r, hrun, ?_⟩
  by_cases hvalid : ∀ t ∈ s.splitOn ',', Valid t
  · have hnone : ¬∃ t ∈ s.splitOn ',', ¬Valid t := fun ⟨t, ht, hnot⟩ => hnot (hvalid t ht)
    obtain ⟨hret, -⟩ := hgood hvalid
    rw [or_iff_right hnone, ← unionOf_ne_neg_one_iff hvalid, ← hret]
    constructor
    · rintro ⟨hiff, -⟩ hneg
      exact hnone (hiff.mp hneg)
    · intro hne
      obtain ⟨bs, hbs, hunion⟩ := listBits_of_valid hvalid
      refine ⟨⟨fun h => absurd h hne, fun h => absurd h hnone⟩, fun h => absurd h hnone,
        fun _ => ⟨bs, hbs, hret.trans hunion⟩, hmem⟩
  · have hsome : ∃ t ∈ s.splitOn ',', ¬Valid t := by
      simpa only [not_forall, exists_prop] using hvalid
    obtain ⟨hret, hfirst⟩ := hbad hvalid
    refine ⟨fun _ => .inl hsome, fun _ => ⟨⟨fun _ => hsome, fun _ => hret⟩, fun _ => hfirst,
      fun h => absurd h hvalid, hmem⟩⟩

theorem lioParseIoArg2_parsesMethod_iff_numbers :
    ∃ r, lioParseIoArg2 10 ("sync,0x10".toList ++ [nul]) (some 0) (some 100) = some (.ok r) ∧
      (ParsesMethod [] "sync,0x10".toList [] r ↔
        (∃ t ∈ "sync,0x10".toList.splitOn ',', ¬Valid t) ∨ LacksBit "sync,0x10".toList) :=
  lioParseIoArg2_parsesMethod_iff [] "sync,0x10".toList [] 100 (by decide) (by decide)

/-- The number `-1` is valid, and what is returned for it is the value for a failure. -/
theorem minusOne_not_parsesMethod :
    ∃ r, lioParseIoArg2 3 ("-1".toList ++ [nul]) (some 0) (some 100) = some (.ok r) ∧
      r.ret = -1 ∧ (∀ t ∈ "-1".toList.splitOn ',', Valid t) ∧
      ¬ParsesMethod [] "-1".toList [] r := by
  have hdigit : digitValue '1' < 10 := by decide
  have hinteger : IsInteger ['-', '1'] (-1) :=
    ⟨[], ['1'], 1, fun c hc => absurd hc List.not_mem_nil,
      .decimal (by decide) (List.forall_mem_singleton.mpr hdigit), .inr (.inr ⟨rfl, rfl⟩)⟩
  have hvalid : ∀ t ∈ ['-', '1'].splitOn ',', Valid t := by
    intro t ht
    have hsplit : ['-', '1'].splitOn ',' = [['-', '1']] := by decide
    rw [hsplit, List.mem_singleton] at ht
    exact ht ▸ .inr ⟨-1, hinteger⟩
  refine ⟨{ mem := ['-', '1', nul], ret := -1, bad := some 100 }, by decide +kernel, rfl, hvalid,
    ?_⟩
  rintro ⟨hiff, -⟩
  obtain ⟨t, ht, hnot⟩ := hiff.mp rfl
  exact hnot (hvalid t ht)

end Lio

end SnowballLtp
