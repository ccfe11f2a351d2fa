import SnowballLtp.Machine.CInt
import Mathlib.Logic.Function.Basic

/-!
# Data whose content follows from its place in the file

`dataasciigen` and `databingen` fill a buffer that stands at an offset of a file, `dataasciichk`
and `databinchk` check one. The byte they produce and expect depends on its place in the file
alone, which is what lets several processes write pieces of one file: whoever writes a place
last, it holds the same byte. This content of a place is the abstract description of both tools,
`asciiContent` and `binContent`; the loops of generators and checkers are shown to follow it.

## Main definitions

* `dataasciigen`, `dataasciichk`, `databingen`, `databinchk`.
* `File`, `Tool`, `Tool.content`: a file, one of the two tools, the byte it means for a place.

## Main results

* `Tool.gen_spec`, `Tool.chk_spec`.
* `Tool.chk_after_writes`.
-/

namespace SnowballLtp

namespace DataFill

/-- A null terminated list of characters in an address space of 32 bits. -/
structure CharList where
  bytes : List UInt8
  ne_nil : bytes ≠ []
  terminated : 0 ∉ bytes
  length_lt : bytes.length < 4294967296

/-- `CHARS`. -/
def chars : List UInt8 :=
  "ABCDEFGHIJKLMNOPQRSTUVWXYZabcdefghjiklmnopqrstuvwxyz\n".toList.map Char.toUInt8

/-- The array behind `charlist`, with its terminator. -/
def charlist : Option CharList → List UInt8
  | none => chars ++ [0]
  | some listofchars => listofchars.bytes ++ [0]

/-- `chars_size`: for the default list the size of the array, terminator included. -/
def charsSize : Option CharList → ℤ
  | none => (chars ++ [0]).length
  | some listofchars => int32 listofchars.bytes.length

/-- The character at place `cnt` of the file. -/
def charAt (listofchars : Option CharList) (cnt : ℤ) : Except Fault UInt8 :=
  match crem cnt (charsSize listofchars) with
  | .ok ind => cell (charlist listofchars) ind
  | .error fault => .error fault

/-- The loop of a generator: `n` bytes, the first one for `cnt` and at index `chr`. -/
def fillLoop (byteAt : ℤ → Except Fault UInt8) :
    ℕ → ℤ → ℤ → List UInt8 → Except Fault (List UInt8)
  | 0, _, _, buffer => .ok buffer
  | n + 1, cnt, chr, buffer =>
    match byteAt cnt with
    | .ok byte =>
      match store buffer chr [byte] with
      | .ok buffer => fillLoop byteAt n (cnt + 1) (chr + 1) buffer
      | .error fault => .error fault
    | .error fault => .error fault

/-- A byte that differs from the expected one. -/
structure Mismatch where
  cnt : ℤ
  exp : ℤ
  act : ℤ
  deriving DecidableEq, Repr

/-- The loop of a checker: `n` bytes, the first one for `cnt` and at index `chr`. -/
def checkLoop (expected : ℤ → Except Fault ℤ) (value : UInt8 → ℤ) (buffer : List UInt8) :
    ℕ → ℤ → ℤ → Except Fault (Option Mismatch)
  | 0, _, _ => .ok none
  | n + 1, cnt, chr =>
    match expected cnt, cell buffer chr with
    | .ok exp, .ok byte =>
      if value byte ≠ exp then .ok (some { cnt, exp, act := value byte })
      else checkLoop expected value buffer n (cnt + 1) (chr + 1)
    | .error fault, _ => .error fault
    | _, .error fault => .error fault

/-- The text of a checker that found nothing. -/
def allMatch (bsize : ℤ) : String := s!"all {bsize} bytes match desired pattern"

/-- The text of a checker that found a difference. -/
def mismatchText (offset exp act : ℤ) : String :=
  s!"data mismatch at offset {offset}, exp:{octal exp}, act:{octal act}"

/-- `dataasciigen`: the return value and the buffer. -/
def dataasciigen (listofchars : Option CharList) (buffer : List UInt8) (bsize offset : ℤ) :
    Except Fault (ℤ × List UInt8) :=
  let total := int32 (offset + bsize)
  (fillLoop (charAt listofchars) (total - offset).toNat offset 0 buffer).map fun buffer =>
    (bsize, buffer)

/-- `dataasciichk`: the return value and the error text. -/
def dataasciichk (signedChar : Bool) (listofchars : Option CharList) (buffer : List UInt8)
    (bsize offset : ℤ) : Except Fault (ℤ × String) :=
  let total := int32 (offset + bsize)
  let exp := fun cnt => (charAt listofchars cnt).map (charValue signedChar)
  (checkLoop exp (charValue signedChar) buffer (total - offset).toNat offset 0).map fun
    | some m => (m.cnt, mismatchText m.cnt m.exp m.act)
    | none => (-1, allMatch bsize)

/-- The byte of the counting pattern; the mask keeps the low seven bits of the remainder. -/
def counting (offset ind : ℤ) : ℤ := (int32 (offset + ind)).tmod 8 % 128

/-- The byte of the random pattern: the low seven bits of a draw, and bit six set. -/
def randomByte (draw : ℤ) : UInt8 := UInt8.ofInt (draw % 128) ||| 64

/-- `databingen`; `rand` gives the successive draws of the call. -/
def databingen (rand : ℕ → ℤ) (mode : Char) (buffer : List UInt8) (bsize offset : ℤ) :
    Except Fault (List UInt8) :=
  match mode with
  | 'c' => memset buffer 0 0xf0 bsize
  | 'C' => fillLoop (fun ind => .ok (UInt8.ofInt (counting offset ind))) bsize.toNat 0 0 buffer
  | 'o' => memset buffer 0 0xff bsize
  | 'z' => memset buffer 0 0 bsize
  | 'r' => fillLoop (fun ind => .ok (randomByte (rand ind.toNat))) bsize.toNat 0 0 buffer
  | _ => memset buffer 0 0x55 bsize

/-- What a checker of `databinchk` returns at its end. -/
def binVerdict (bsize offset : ℤ) : Option Mismatch → ℤ × Option String
  | some m => (int32 (offset + m.cnt), some (mismatchText (int32 (offset + m.cnt)) m.exp m.act))
  | none => (-1, some (allMatch bsize))

/-- The final loop of `databinchk`, over unsigned characters. -/
def checkBits (expbits : ℤ) (buffer : List UInt8) (bsize offset : ℤ) :
    Except Fault (ℤ × Option String) :=
  (checkLoop (fun _ => .ok expbits) (charValue false) buffer bsize.toNat 0 0).map
    (binVerdict bsize offset)

/-- `databinchk`: the return value and the error text, if one was written. -/
def databinchk (signedChar : Bool) (mode : Char) (buffer : List UInt8) (bsize offset : ℤ) :
    Except Fault (ℤ × Option String) :=
  match mode with
  | 'c' => checkBits 0xf0 buffer bsize offset
  | 'C' =>
    (checkLoop (fun cnt => .ok (counting offset cnt)) (charValue signedChar) buffer
      bsize.toNat 0 0).map (binVerdict bsize offset)
  | 'o' => checkBits 0xff buffer bsize offset
  | 'z' => checkBits 0 buffer bsize offset
  | 'r' => .ok (-1, none)
  | _ => checkBits 0x55 buffer bsize offset

/-! ### The loops -/

/-- The bytes of a content for `len` places from `offset` on. -/
def stretch (content : ℕ → UInt8) (offset len : ℕ) : List UInt8 :=
  (List.range' offset len).map content

@[simp] theorem length_stretch (content : ℕ → UInt8) (offset len : ℕ) :
    (stretch content offset len).length = len := by
  simp [stretch]

theorem getElem?_stretch (content : ℕ → UInt8) (offset : ℕ) {len i : ℕ} (h : i < len) :
    (stretch content offset len)[i]? = some (content (offset + i)) := by
  simp [stretch, h]

theorem stretch_succ (content : ℕ → UInt8) (offset len : ℕ) :
    stretch content offset (len + 1) = content offset :: stretch content (offset + 1) len := by
  simp [stretch, List.range'_succ]

/-- A content seen from a place on. -/
theorem stretch_shift (content : ℕ → UInt8) (offset len : ℕ) :
    stretch (fun i => content (offset + i)) 0 len = stretch content offset len := by
  refine List.ext_getElem? fun i => ?_
  by_cases hi : i < len
  · rw [getElem?_stretch _ _ hi, getElem?_stretch _ _ hi, Nat.zero_add]
  · rw [List.getElem?_eq_none (by simpa using hi), List.getElem?_eq_none (by simpa using hi)]

section Loops

variable {content : ℕ → UInt8} {buffer : List UInt8} {n cnt chr : ℕ}

/-- A generator whose bytes follow the content stores them one after the other. -/
theorem fillLoop_eq_ok (byteAt : ℤ → Except Fault UInt8) (content : ℕ → UInt8)
    (buffer : List UInt8) (n cnt chr : ℕ)
    (hbyte : ∀ o, cnt ≤ o → o < cnt + n → byteAt o = .ok (content o))
    (hlen : chr + n ≤ buffer.length) :
    fillLoop byteAt n cnt chr buffer = .ok (overwrite buffer chr (stretch content cnt n)) := by
  induction n generalizing cnt chr buffer with
  | zero => simp [fillLoop, stretch, overwrite]
  | succ n ih =>
    have hone : chr + [content cnt].length ≤ buffer.length := by
      rw [List.length_singleton]; omega
    have hrest : fillLoop byteAt n (cnt + 1 : ℕ) (chr + 1 : ℕ)
        (overwrite buffer chr [content cnt]) = _ :=
      ih _ _ _ (fun o hlow hhigh => hbyte o (by omega) (by omega))
        (by rw [length_overwrite hone]; omega)
    have hjoin := overwrite_overwrite_append buffer [content cnt]
      (stretch content (cnt + 1) n) chr
      (by rw [List.length_append, List.length_singleton, length_stretch]; omega)
    rw [List.length_singleton, List.singleton_append, ← stretch_succ] at hjoin
    rw [hjoin] at hrest
    rw [fillLoop, hbyte cnt (Nat.le_refl _) (by omega)]
    simp only [store_eq_ok _ _ _ hone]
    exact hrest

/-- A checker that expects the content stops at the first byte that differs from it. -/
theorem checkLoop_spec (expected : ℤ → Except Fault ℤ) {value : UInt8 → ℤ}
    (content : ℕ → UInt8) (buffer : List UInt8) (n cnt chr : ℕ)
    (hvalue : ∀ a b, value a = value b → a = b)
    (hexp : ∀ o, cnt ≤ o → o < cnt + n → expected o = .ok (value (content o)))
    (hlen : chr + n ≤ buffer.length) :
    (checkLoop expected value buffer n cnt chr = .ok none ∧
      ∀ i < n, buffer[chr + i]? = some (content (cnt + i))) ∨
    ∃ m i, checkLoop expected value buffer n cnt chr = .ok (some m) ∧ i < n ∧
      m.cnt = (cnt + i : ℕ) ∧ buffer[chr + i]? ≠ some (content (cnt + i)) ∧
      ∀ j < i, buffer[chr + j]? = some (content (cnt + j)) := by
  induction n generalizing cnt chr with
  | zero => exact .inl ⟨rfl, fun i hi => absurd hi (Nat.not_lt_zero i)⟩
  | succ n ih =>
    obtain ⟨byte, hbyte⟩ : ∃ byte, buffer[chr]? = some byte :=
      ⟨_, List.getElem?_eq_getElem (by omega)⟩
    have hpass : checkLoop expected value buffer (n + 1) cnt chr =
        if value byte ≠ value (content cnt) then
          .ok (some { cnt, exp := value (content cnt), act := value byte })
        else checkLoop expected value buffer n (cnt + 1 : ℕ) (chr + 1 : ℕ) := by
      rw [checkLoop, hexp cnt (Nat.le_refl _) (by omega), cell_eq_ok hbyte]
      rfl
    by_cases hsame : byte = content cnt
    · rw [if_neg (by rw [hsame]; exact fun h => h rfl)] at hpass
      have hfirst : buffer[chr + 0]? = some (content (cnt + 0)) := hsame ▸ hbyte
      rcases ih (cnt + 1) (chr + 1)
        (fun o hlow hhigh => hexp o (by omega) (by omega)) (by omega) with
        ⟨hnone, hall⟩ | ⟨m, i, hsome, hi, hm, hdiff, hbefore⟩
      · refine .inl ⟨hpass.trans hnone, fun i hi => ?_⟩
        cases i with
        | zero => exact hfirst
        | succ i => simpa only [Nat.add_right_comm _ 1, Nat.add_assoc] using hall i (by omega)
      · refine .inr ⟨m, i + 1, hpass.trans hsome, by omega, by rw [hm]; congr 1; omega, ?_,
          fun j hj => ?_⟩
        · simpa only [Nat.add_right_comm _ 1, Nat.add_assoc] using hdiff
        · cases j with
          | zero => exact hfirst
          | succ j => simpa only [Nat.add_right_comm _ 1, Nat.add_assoc] using hbefore j (by omega)
    · rw [if_pos fun h => hsame (hvalue _ _ h)] at hpass
      refine .inr ⟨_, 0, hpass, by omega, rfl, ?_, fun j hj => absurd hj (Nat.not_lt_zero j)⟩
      rw [Nat.add_zero, hbyte]
      exact fun h => hsame (Option.some.inj h)

end Loops

/-! ### The content of a place -/

/-- The byte `dataasciigen` means for a place of the file. -/
def asciiContent (listofchars : Option CharList) (o : ℕ) : UInt8 :=
  (charlist listofchars)[((o : ℤ).tmod (charsSize listofchars)).toNat]?.getD 0

/-- The byte `databingen` means for a place of the file. -/
def binContent (mode : Char) (o : ℕ) : UInt8 :=
  match mode with
  | 'c' => 0xf0
  | 'C' => UInt8.ofNat (o % 8)
  | 'o' => 0xff
  | 'z' => 0
  | _ => 0x55

private theorem int32_natAbs_le {x : ℕ} (hpos : 0 < x) (hlt : x < 4294967296) :
    int32 x ≠ 0 ∧ (int32 x).natAbs ≤ x := by
  rw [int32]
  omega

private theorem charsSize_bounds (listofchars : Option CharList) :
    charsSize listofchars ≠ 0 ∧
      (charsSize listofchars).natAbs ≤ (charlist listofchars).length := by
  cases listofchars with
  | none => simp [charsSize, charlist]; omega
  | some l =>
    have hpos : 0 < l.bytes.length := List.length_pos_iff.mpr l.ne_nil
    obtain ⟨hne, hle⟩ := int32_natAbs_le hpos l.length_lt
    simp only [charsSize, charlist, List.length_append, List.length_singleton]
    exact ⟨hne, by omega⟩

/-- The index stays inside the list, whatever the offset. -/
theorem charAt_eq_ok (listofchars : Option CharList) (o : ℕ) :
    charAt listofchars o = .ok (asciiContent listofchars o) := by
  obtain ⟨hne, hle⟩ := charsSize_bounds listofchars
  have hlow := Int.tmod_nonneg (charsSize listofchars) (Int.natCast_nonneg o)
  have hhigh : (o : ℤ).tmod (charsSize listofchars) < (charlist listofchars).length := by
    rw [Int.tmod_eq_emod_of_nonneg (Int.natCast_nonneg o)]
    have := Int.emod_lt o hne
    omega
  obtain ⟨ind, hind⟩ := Int.eq_ofNat_of_zero_le hlow
  have hcell : (charlist listofchars)[ind]? = some (asciiContent listofchars o) := by
    rw [asciiContent, hind, Int.toNat_natCast, List.getElem?_eq_getElem (by omega)]
    rfl
  rw [charAt, crem_eq_ok hne]
  simp only [hind]
  exact cell_eq_ok hcell

private theorem counting_eq {offset ind : ℕ} (h : offset + ind < 2147483648) :
    counting offset ind = ((offset + ind) % 8 : ℕ) := by
  have hsum : int32 ((offset : ℤ) + ind) = (offset + ind : ℕ) := by
    rw [int32_eq_self ⟨by omega, by omega⟩]
    push_cast
    rfl
  rw [counting, hsum, Int.tmod_eq_emod_of_nonneg (Int.natCast_nonneg _)]
  omega

private theorem ofInt_natCast {n : ℕ} (h : n < 256) : UInt8.ofInt n = UInt8.ofNat n := by
  rw [UInt8.ofInt]
  congr 1
  omega

/-- A checker that knows the content returns the first place that differs from it, or -1. -/
def Reports (content : ℕ → UInt8) (offset : ℕ) (buffer : List UInt8) (ret : ℤ) : Prop :=
  (ret = -1 ∧ ∀ i < buffer.length, buffer[i]? = some (content (offset + i))) ∨
  ∃ i < buffer.length, ret = (offset + i : ℕ) ∧ buffer[i]? ≠ some (content (offset + i)) ∧
    ∀ j < i, buffer[j]? = some (content (offset + j))

/-- One of the two tools, with what it is asked to write. -/
inductive Tool
  | ascii (listofchars : Option CharList)
  | bin (mode : Char)

namespace Tool

/-- The byte the tool means for a place of the file. -/
def content : Tool → ℕ → UInt8
  | ascii listofchars => asciiContent listofchars
  | bin mode => binContent mode

/-- The generator of the tool: the buffer it leaves. -/
def gen (rand : ℕ → ℤ) : Tool → List UInt8 → ℤ → ℤ → Except Fault (List UInt8)
  | ascii listofchars, buffer, bsize, offset =>
    (dataasciigen listofchars buffer bsize offset).map Prod.snd
  | bin mode, buffer, bsize, offset => databingen rand mode buffer bsize offset

/-- The checker of the tool: the value it returns. -/
def chk (signedChar : Bool) : Tool → List UInt8 → ℤ → ℤ → Except Fault ℤ
  | ascii listofchars, buffer, bsize, offset =>
    (dataasciichk signedChar listofchars buffer bsize offset).map Prod.fst
  | bin mode, buffer, bsize, offset =>
    (databinchk signedChar mode buffer bsize offset).map Prod.fst

/-- Everything but random data can be checked. -/
def Checkable : Tool → Prop
  | ascii _ => True
  | bin mode => mode ≠ 'r'

end Tool

section Tools

variable {buffer : List UInt8} {offset : ℕ}

private theorem dataasciigen_eq_ok (listofchars : Option CharList)
    (hend : offset + buffer.length < 2147483648) :
    dataasciigen listofchars buffer buffer.length offset =
      .ok (buffer.length, stretch (asciiContent listofchars) offset buffer.length) := by
  have htotal : (int32 ((offset : ℤ) + buffer.length) - offset).toNat = buffer.length := by
    rw [int32_eq_self ⟨by omega, by omega⟩]
    omega
  have hfill := fillLoop_eq_ok _ (asciiContent listofchars) buffer buffer.length offset 0
    (fun o _ _ => charAt_eq_ok listofchars o) (by omega)
  rw [overwrite_all (length_stretch _ _ _)] at hfill
  simp only [dataasciigen, htotal]
  rw [show ((0 : ℕ) : ℤ) = 0 from rfl] at hfill
  rw [hfill]
  rfl

private theorem memset_all (x : UInt8) (content : ℕ → UInt8) (h : ∀ o, content o = x) :
    memset buffer 0 x buffer.length = .ok (stretch content offset buffer.length) := by
  have hset := memset_eq_ok buffer 0 buffer.length x (by omega)
  rw [overwrite_all List.length_replicate] at hset
  have hsame : stretch content offset buffer.length = List.replicate buffer.length x :=
    List.eq_replicate_iff.mpr ⟨length_stretch _ _ _, fun b hb => by
      obtain ⟨o, -, rfl⟩ := List.mem_map.mp hb
      exact h o⟩
  rw [hsame]
  exact hset

private theorem databingen_eq_ok (rand : ℕ → ℤ) {mode : Char} (hmode : mode ≠ 'r')
    (hend : offset + buffer.length < 2147483648) :
    databingen rand mode buffer buffer.length offset =
      .ok (stretch (binContent mode) offset buffer.length) := by
  unfold databingen
  split
  case h_2 =>
    have hfill := fillLoop_eq_ok (fun ind => .ok (UInt8.ofInt (counting offset ind)))
      (fun ind => binContent 'C' (offset + ind)) buffer buffer.length 0 0
      (fun o _ ho => by
        rw [counting_eq (by omega), ofInt_natCast (by omega)]
        rfl)
      (by omega)
    rw [overwrite_all (length_stretch _ _ _), stretch_shift] at hfill
    exact hfill
  case h_5 => exact absurd rfl hmode
  all_goals exact memset_all _ _ fun o => by simp_all [binContent]

theorem charValue_ofNat (signedChar : Bool) {n : ℕ} (h : n < 128) :
    charValue signedChar (UInt8.ofNat n) = n := by
  have hn : (UInt8.ofNat n).toNat = n := UInt8.toNat_ofNat_of_lt' (by rw [UInt8.size]; omega)
  rw [charValue, if_neg (by omega), hn]

private theorem dataasciichk_reports (signedChar : Bool) (listofchars : Option CharList)
    (hend : offset + buffer.length < 2147483648) :
    ∃ ret text, dataasciichk signedChar listofchars buffer buffer.length offset =
        .ok (ret, text) ∧ Reports (asciiContent listofchars) offset buffer ret := by
  have htotal : (int32 ((offset : ℤ) + buffer.length) - offset).toNat = buffer.length := by
    rw [int32_eq_self ⟨by omega, by omega⟩]
    omega
  have hloop := checkLoop_spec (fun cnt => (charAt listofchars cnt).map (charValue signedChar))
    (asciiContent listofchars) buffer buffer.length offset 0
    (fun _ _ h => charValue_injective signedChar h)
    (fun o _ _ => by rw [charAt_eq_ok]; rfl) (by omega)
  rw [show ((0 : ℕ) : ℤ) = 0 from rfl] at hloop
  simp only [Nat.zero_add] at hloop
  simp only [dataasciichk, htotal]
  obtain ⟨hnone, hall⟩ | ⟨m, i, hsome, hi, hm, hdiff, hbefore⟩ := hloop
  · rw [hnone]
    exact ⟨-1, _, rfl, .inl ⟨rfl, hall⟩⟩
  · rw [hsome]
    exact ⟨m.cnt, _, rfl, .inr ⟨i, hi, hm, hdiff, hbefore⟩⟩

/-- The loops of `databinchk` count from the start of the buffer. -/
private theorem binVerdict_reports {expected : ℤ → Except Fault ℤ} {value : UInt8 → ℤ}
    {content : ℕ → UInt8} (hend : offset + buffer.length < 2147483648)
    (hvalue : ∀ a b, value a = value b → a = b)
    (hexp : ∀ i < buffer.length, expected (i : ℕ) = .ok (value (content (offset + i)))) :
    ∃ ret text, (checkLoop expected value buffer (buffer.length : ℤ).toNat 0 0).map
        (binVerdict buffer.length offset) = .ok (ret, text) ∧
      Reports content offset buffer ret := by
  have hloop := checkLoop_spec expected (fun i => content (offset + i)) buffer buffer.length 0 0
    hvalue (fun o _ ho => hexp o (by omega)) (by omega)
  rw [show ((0 : ℕ) : ℤ) = 0 from rfl] at hloop
  simp only [Nat.zero_add] at hloop
  rw [Int.toNat_natCast]
  obtain ⟨hnone, hall⟩ | ⟨m, i, hsome, hi, hm, hdiff, hbefore⟩ := hloop
  · rw [hnone]
    exact ⟨-1, _, rfl, .inl ⟨rfl, hall⟩⟩
  · rw [hsome]
    refine ⟨_, _, rfl, .inr ⟨i, hi, ?_, hdiff, hbefore⟩⟩
    rw [hm, int32_eq_self ⟨by omega, by omega⟩]
    push_cast
    rfl

private theorem databinchk_reports (signedChar : Bool) {mode : Char} (hmode : mode ≠ 'r')
    (hend : offset + buffer.length < 2147483648) :
    ∃ ret text, databinchk signedChar mode buffer buffer.length offset = .ok (ret, text) ∧
      Reports (binContent mode) offset buffer ret := by
  unfold databinchk
  split
  case h_2 =>
    refine binVerdict_reports hend (fun _ _ h => charValue_injective signedChar h) fun i hi => ?_
    rw [counting_eq (by omega), binContent, charValue_ofNat signedChar (by omega)]
  case h_5 => exact absurd rfl hmode
  all_goals
    refine binVerdict_reports hend (fun _ _ h => charValue_injective false h) fun i hi => ?_
    simp_all [binContent, charValue]

namespace Tool

/-- **Generators follow the content.** -/
theorem gen_spec (rand : ℕ → ℤ) {tool : Tool} (htool : tool.Checkable)
    (hend : offset + buffer.length < 2147483648) :
    tool.gen rand buffer buffer.length offset =
      .ok (stretch tool.content offset buffer.length) := by
  cases tool with
  | ascii listofchars =>
    rw [gen, dataasciigen_eq_ok listofchars hend]
    rfl
  | bin mode => exact databingen_eq_ok rand htool hend

/-- **Checkers compare with the content.** -/
theorem chk_spec (signedChar : Bool) {tool : Tool} (htool : tool.Checkable)
    (buffer : List UInt8) (offset : ℕ) (hend : offset + buffer.length < 2147483648) :
    ∃ ret, tool.chk signedChar buffer buffer.length offset = .ok ret ∧
      Reports tool.content offset buffer ret := by
  cases tool with
  | ascii listofchars =>
    obtain ⟨ret, text, hrun, hret⟩ := dataasciichk_reports signedChar listofchars hend
    exact ⟨ret, by rw [chk, hrun]; rfl, hret⟩
  | bin mode =>
    obtain ⟨ret, text, hrun, hret⟩ := databinchk_reports signedChar htool hend
    exact ⟨ret, by rw [chk, hrun]; rfl, hret⟩

end Tool

end Tools

/-! ### Writes into one file -/

/-- The bytes of a file, by offset. -/
abbrev File := ℕ → UInt8

namespace File

/-- The file after the bytes of `data` were written at `offset`. -/
def write (f : File) (offset : ℕ) (data : List UInt8) : File := fun o =>
  if h : offset ≤ o ∧ o < offset + data.length then data.get ⟨o - offset, by omega⟩ else f o

/-- The window of `len` bytes at `offset`. -/
def read (f : File) (offset len : ℕ) : List UInt8 := stretch f offset len

/-- A place of a file that one of the bytes has been changed at. -/
def change (f : File) (o : ℕ) (byte : UInt8) : File := Function.update f o byte

end File

/-- A write of a buffer at an offset; before the generator is called the buffer is arbitrary. -/
structure Write where
  offset : ℕ
  buffer : List UInt8
  rand : ℕ → ℤ

/-- The place lies inside the write. -/
def Write.Covers (w : Write) (o : ℕ) : Prop := w.offset ≤ o ∧ o < w.offset + w.buffer.length

/-- One write: the generator fills the buffer, which then goes to its place in the file. -/
def Tool.write (tool : Tool) (f : File) (w : Write) : Except Fault File :=
  (tool.gen w.rand w.buffer w.buffer.length w.offset).map (f.write w.offset)

/-- Writes one after the other. -/
def Tool.writes (tool : Tool) : File → List Write → Except Fault File
  | f, [] => .ok f
  | f, w :: ws =>
    match tool.write f w with
    | .ok f => tool.writes f ws
    | .error fault => .error fault

/-- A place holds its content once a write has covered it, and keeps it. -/
private theorem Tool.write_spec {tool : Tool} (htool : tool.Checkable) (f : File) (w : Write)
    (hend : w.offset + w.buffer.length < 2147483648) :
    ∃ g, tool.write f w = .ok g ∧
      ∀ o, w.Covers o ∨ f o = tool.content o → g o = tool.content o := by
  refine ⟨_, by rw [Tool.write, Tool.gen_spec w.rand htool hend]; rfl, fun o ho => ?_⟩
  simp only [File.write, length_stretch, List.get_eq_getElem]
  split_ifs with hcover
  · have hcell := getElem?_stretch tool.content w.offset
      (show o - w.offset < w.buffer.length by omega)
    rw [Nat.add_sub_cancel' hcover.1] at hcell
    exact (List.getElem?_eq_some_iff.mp hcell).2
  · exact ho.resolve_left hcover

private theorem Tool.writes_spec {tool : Tool} (htool : tool.Checkable) (f : File)
    (ws : List Write) (hends : ∀ w ∈ ws, w.offset + w.buffer.length < 2147483648) :
    ∃ g, tool.writes f ws = .ok g ∧
      ∀ o, (∃ w ∈ ws, w.Covers o) ∨ f o = tool.content o → g o = tool.content o := by
  induction ws generalizing f with
  | nil => exact ⟨f, rfl, fun o ho => ho.resolve_left (by simp)⟩
  | cons w ws ih =>
    obtain ⟨g, hg, hheld⟩ := Tool.write_spec htool f w (hends w List.mem_cons_self)
    obtain ⟨g', hg', hheld'⟩ := ih g fun v hv => hends v (List.mem_cons_of_mem _ hv)
    refine ⟨g', by rw [Tool.writes, hg]; exact hg', fun o ho => hheld' o ?_⟩
    rcases ho with ⟨v, hv, hcover⟩ | hsame
    · rcases List.mem_cons.mp hv with rfl | hv
      · exact .inr (hheld o (.inl hcover))
      · exact .inl ⟨v, hv, hcover⟩
    · exact .inr (hheld o (.inr hsame))

/-- A window that holds its content everywhere passes, and a window that differs from it at one
place only is reported with that place. -/
private theorem Tool.chk_read {tool : Tool} (htool : tool.Checkable) (signedChar : Bool) (f : File)
    {offset len : ℕ} (hend : offset + len < 2147483648) :
    ((∀ o, offset ≤ o → o < offset + len → f o = tool.content o) →
      tool.chk signedChar (f.read offset len) len offset = .ok (-1)) ∧
    ∀ o, offset ≤ o → o < offset + len → f o ≠ tool.content o →
      (∀ p, offset ≤ p → p < o → f p = tool.content p) →
      tool.chk signedChar (f.read offset len) len offset = .ok o := by
  have hlen : (f.read offset len).length = len := length_stretch f offset len
  have hread : ∀ i < len, (f.read offset len)[i]? = some (f (offset + i)) :=
    fun i hi => getElem?_stretch f offset hi
  obtain ⟨ret, hret, hreports⟩ := Tool.chk_spec signedChar htool
    (f.read offset len) offset (by omega)
  rw [hlen] at hret
  rw [hret]
  obtain ⟨rfl, hall⟩ | ⟨i, hi, rfl, hdiff, hbefore⟩ := hreports
  · refine ⟨fun _ => rfl, fun o hlow hhigh hne => absurd ?_ hne⟩
    have hsame := hall (o - offset) (by omega)
    rw [hread _ (by omega), Nat.add_sub_cancel' hlow] at hsame
    exact Option.some.inj hsame
  · rw [hlen] at hi
    rw [hread i hi] at hdiff
    refine ⟨fun hsame => absurd (congrArg some (hsame _ (by omega) (by omega))) hdiff, ?_⟩
    intro o hlow hhigh hne hfirst
    -- the reported place is the first one, so neither lies in front of the other
    rcases Nat.lt_trichotomy o (offset + i) with hlt | rfl | hgt
    · have hsame := hbefore (o - offset) (by omega)
      rw [hread _ (by omega), Nat.add_sub_cancel' hlow] at hsame
      exact absurd (Option.some.inj hsame) hne
    · rfl
    · exact absurd (congrArg some (hfirst _ (by omega) hgt)) hdiff

/-- **Concurrent writers are verifiable.** After any writes of one tool into a file, a check of a
window that they cover finds nothing, and once a single byte of the window is changed it returns
the place of that byte. -/
theorem Tool.chk_after_writes {tool : Tool} (htool : tool.Checkable) (signedChar : Bool)
    (f : File) (ws : List Write) (hends : ∀ w ∈ ws, w.offset + w.buffer.length < 2147483648)
    {offset len : ℕ} (hend : offset + len < 2147483648)
    (hcovered : ∀ o, offset ≤ o → o < offset + len → ∃ w ∈ ws, w.Covers o) :
    ∃ g, tool.writes f ws = .ok g ∧
      tool.chk signedChar (g.read offset len) len offset = .ok (-1) ∧
      ∀ o byte, offset ≤ o → o < offset + len → byte ≠ g o →
        tool.chk signedChar ((g.change o byte).read offset len) len offset = .ok o := by
  obtain ⟨g, hg, hheld⟩ := Tool.writes_spec htool f ws hends
  have hwindow : ∀ o, offset ≤ o → o < offset + len → g o = tool.content o :=
    fun o hlow hhigh => hheld o (.inl (hcovered o hlow hhigh))
  refine ⟨g, hg, (Tool.chk_read htool signedChar g hend).1 hwindow, ?_⟩
  intro o byte hlow hhigh hbyte
  refine (Tool.chk_read htool signedChar (g.change o byte) hend).2 o hlow hhigh ?_ ?_
  · rw [File.change, Function.update_self, ← hwindow o hlow hhigh]
    exact hbyte
  · intro p hp hpo
    rw [File.change, Function.update_of_ne (by omega)]
    exact hwindow p hp (by omega)

theorem Tool.chk_after_writes_overlapping :
    ∃ g, (Tool.ascii none).writes (fun _ => 0)
        [⟨0, [1, 2, 3], fun _ => 0⟩, ⟨2, [4, 5], fun _ => 0⟩] = .ok g ∧
      (Tool.ascii none).chk true (g.read 1 3) (3 : ℕ) (1 : ℕ) = .ok (-1) ∧
      ∀ o byte, 1 ≤ o → o < 1 + 3 → byte ≠ g o →
        (Tool.ascii none).chk true ((g.change o byte).read 1 3) (3 : ℕ) (1 : ℕ) = .ok o := by
  refine @Tool.chk_after_writes (.ascii none) trivial true _ _ ?_ _ _ (by decide)
    fun o hlow hhigh => ?_
  · simp
  · rcases Nat.lt_or_ge o 3 with h | h
    · exact ⟨⟨0, [1, 2, 3], fun _ => 0⟩, by simp, by simp [Write.Covers]; omega⟩
    · exact ⟨⟨2, [4, 5], fun _ => 0⟩, by simp, by simp [Write.Covers]; omega⟩

end DataFill

end SnowballLtp
