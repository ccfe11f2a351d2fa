import Mathlib.Data.Nat.Bitwise
import SnowballLtp.Machine.Bytes

/-!
# Bit-fields of a record in memory

A record of 32-bit words lies at the start of a memory object, its words in little-endian order.
A bit-field is a run of bits of one word: writing it keeps the low `width` bits of the value and
leaves every other bit of the word alone, so fields that share no bit do not disturb each other.

## Main definitions

* `getBits`, `setBits`, `word`, `wordBytes`.
* `BitField`, `BitField.get`, `BitField.put`, `BitField.Apart`, `putAll`.

## Main results

* `BitField.get_put_self`, `BitField.get_put_of_apart`.
* `get_putAll`: fields written one after the other.
* `BitField.get_congr`: a field is a function of the bytes of its word.
-/

namespace SnowballLtp

/-! ### Bits of a word -/

/-- The `width` bits from `shift` on. -/
def getBits (w shift width : ℕ) : ℕ := (w >>> shift) % 2 ^ width

/-- The word with the low bits of `v` in the `width` bits from `shift` on. -/
def setBits (w shift width v : ℕ) : ℕ :=
  w % 2 ^ shift ||| (v % 2 ^ width) <<< shift |||
    (w >>> (shift + width)) <<< (shift + width)

theorem testBit_getBits (w shift width i : ℕ) :
    (getBits w shift width).testBit i = (decide (i < width) && w.testBit (shift + i)) := by
  simp [getBits, Nat.testBit_mod_two_pow]

theorem testBit_setBits (w shift width v i : ℕ) :
    (setBits w shift width v).testBit i =
      if shift ≤ i ∧ i < shift + width then v.testBit (i - shift) else w.testBit i := by
  simp only [setBits, Nat.testBit_or, Nat.testBit_mod_two_pow, Nat.testBit_shiftLeft,
    Nat.testBit_shiftRight]
  rcases Nat.lt_or_ge i shift with hlow | hlow
  · simp [hlow, show ¬ shift ≤ i by omega, show ¬ shift + width ≤ i by omega]
  · rcases Nat.lt_or_ge i (shift + width) with hmid | hmid
    · simp [hlow, hmid, show ¬ i < shift by omega, show ¬ shift + width ≤ i by omega,
        show i - shift < width by omega]
    · simp [hmid, show ¬ i < shift by omega, show ¬ i < shift + width by omega,
        show ¬ i - shift < width by omega, show shift + width + (i - (shift + width)) = i by omega]

theorem getBits_setBits_self (w shift width v : ℕ) :
    getBits (setBits w shift width v) shift width = v % 2 ^ width := by
  refine Nat.eq_of_testBit_eq fun i => ?_
  rw [testBit_getBits, testBit_setBits, Nat.testBit_mod_two_pow]
  by_cases hi : i < width
  · rw [if_pos (by omega), Nat.add_sub_cancel_left]
  · simp [hi]

theorem getBits_setBits_of_apart {w shift width shift' width' v : ℕ}
    (h : shift + width ≤ shift' ∨ shift' + width' ≤ shift) :
    getBits (setBits w shift width v) shift' width' = getBits w shift' width' := by
  refine Nat.eq_of_testBit_eq fun i => ?_
  rw [testBit_getBits, testBit_getBits, testBit_setBits]
  by_cases hi : i < width'
  · rw [if_neg (by omega)]
  · simp [hi]

/-- The bits of a field below `2 ^ bits` are those of the word's low bits. -/
theorem getBits_mod_two_pow {w shift width bits : ℕ} (h : shift + width ≤ bits) :
    getBits (w % 2 ^ bits) shift width = getBits w shift width := by
  refine Nat.eq_of_testBit_eq fun i => ?_
  rw [testBit_getBits, testBit_getBits, Nat.testBit_mod_two_pow]
  by_cases hi : i < width
  · simp [hi, show shift + i < bits by omega]
  · simp [hi]

/-! ### Words of an object -/

/-- The number that the bytes of a little-endian word stand for. -/
def ofBytes : List UInt8 → ℕ
  | [] => 0
  | b :: bs => b.toNat + 256 * ofBytes bs

/-- Word `i` of an object. -/
def word (obj : List UInt8) (i : ℕ) : ℕ := ofBytes (slice obj (4 * i) 4)

/-- The bytes of a word, its low 32 bits. -/
def wordBytes (w : ℕ) : List UInt8 :=
  [UInt8.ofNat w, UInt8.ofNat (w / 256), UInt8.ofNat (w / 65536), UInt8.ofNat (w / 16777216)]

@[simp] theorem length_wordBytes (w : ℕ) : (wordBytes w).length = 4 := rfl

theorem ofBytes_wordBytes (w : ℕ) : ofBytes (wordBytes w) = w % 2 ^ 32 := by
  simp only [ofBytes, wordBytes, UInt8.toNat_ofNat']
  omega

/-! ### Bit-fields -/

/-- A run of bits of a word. -/
structure BitField where
  word : ℕ
  shift : ℕ
  width : ℕ
  fits : shift + width ≤ 32

namespace BitField

/-- The value of the field. -/
def get (f : BitField) (obj : List UInt8) : ℕ :=
  getBits (SnowballLtp.word obj f.word) f.shift f.width

/-- The object with the low bits of `v` in the field. -/
def put (f : BitField) (obj : List UInt8) (v : ℕ) : List UInt8 :=
  overwrite obj (4 * f.word)
    (wordBytes (setBits (SnowballLtp.word obj f.word) f.shift f.width v))

/-- The field lies inside an object of `len` bytes. -/
def Inside (f : BitField) (len : ℕ) : Prop := 4 * f.word + 4 ≤ len

/-- The fields share no bit. -/
def Apart (f g : BitField) : Prop :=
  f.word ≠ g.word ∨ f.shift + f.width ≤ g.shift ∨ g.shift + g.width ≤ f.shift

instance (f g : BitField) : Decidable (f.Apart g) := inferInstanceAs (Decidable (_ ∨ _))

variable {f g : BitField} {obj obj' : List UInt8} {v : ℕ}

theorem length_put (h : f.Inside obj.length) : (f.put obj v).length = obj.length :=
  length_overwrite (by rw [length_wordBytes]; exact h)

theorem get_put_self (h : f.Inside obj.length) : f.get (f.put obj v) = v % 2 ^ f.width := by
  have hfit : 4 * f.word + (wordBytes
      (setBits (SnowballLtp.word obj f.word) f.shift f.width v)).length ≤ obj.length := h
  have hslice := slice_overwrite_self hfit
  rw [length_wordBytes] at hslice
  rw [get, put, SnowballLtp.word, hslice, ofBytes_wordBytes, getBits_mod_two_pow f.fits,
    getBits_setBits_self]

theorem get_put_of_apart (h : f.Inside obj.length) (hapart : f.Apart g) :
    g.get (f.put obj v) = g.get obj := by
  have hfit : 4 * f.word + (wordBytes
      (setBits (SnowballLtp.word obj f.word) f.shift f.width v)).length ≤ obj.length := h
  by_cases hword : f.word = g.word
  · have hslice := slice_overwrite_self hfit
    rw [length_wordBytes] at hslice
    have hbits := hapart.resolve_left (not_not_intro hword)
    rw [get, put, ← hword, SnowballLtp.word, hslice, ofBytes_wordBytes,
      getBits_mod_two_pow g.fits, getBits_setBits_of_apart hbits, get, hword]
  · rw [get, put, SnowballLtp.word,
      slice_overwrite_of_apart _ _ hfit (by rw [length_wordBytes]; omega), get, SnowballLtp.word]

/-- A field is a function of the bytes in front of `len`. -/
theorem get_congr {len : ℕ} (h : f.Inside len) (hsame : slice obj 0 len = slice obj' 0 len) :
    f.get obj = f.get obj' := by
  rw [slice_eq_slice_iff] at hsame
  have hword : slice obj (4 * f.word) 4 = slice obj' (4 * f.word) 4 := by
    rw [slice_eq_slice_iff]
    intro i hi
    have hin : 4 * f.word + 4 ≤ len := h
    simpa only [Nat.zero_add] using hsame (4 * f.word + i) (by omega)
  rw [get, get, SnowballLtp.word, hword, SnowballLtp.word]

end BitField

/-- The object after fields have been written one after the other. -/
def putAll (obj : List UInt8) (fields : List (BitField × ℕ)) : List UInt8 :=
  fields.foldl (fun obj fv => fv.1.put obj fv.2) obj

section PutAll

variable {obj : List UInt8} {fields : List (BitField × ℕ)} {g : BitField}

theorem length_putAll (h : ∀ fv ∈ fields, fv.1.Inside obj.length) :
    (putAll obj fields).length = obj.length := by
  induction fields generalizing obj with
  | nil => rfl
  | cons fv fields ih =>
    have hput := BitField.length_put (v := fv.2) (h fv List.mem_cons_self)
    refine (ih fun gw hgw => ?_).trans hput
    rw [hput]
    exact h gw (List.mem_cons_of_mem _ hgw)

private theorem get_putAll_of_apart (h : ∀ fv ∈ fields, fv.1.Inside obj.length)
    (hapart : ∀ fv ∈ fields, fv.1.Apart g) : g.get (putAll obj fields) = g.get obj := by
  induction fields generalizing obj with
  | nil => rfl
  | cons fv fields ih =>
    have hput := BitField.length_put (v := fv.2) (h fv List.mem_cons_self)
    refine (ih (fun gw hgw => ?_) fun gw hgw => hapart gw (List.mem_cons_of_mem _ hgw)).trans ?_
    · rw [hput]
      exact h gw (List.mem_cons_of_mem _ hgw)
    · exact BitField.get_put_of_apart (h fv List.mem_cons_self) (hapart fv List.mem_cons_self)

/-- Fields that share no bits hold what was written to them. -/
theorem get_putAll (h : ∀ fv ∈ fields, fv.1.Inside obj.length)
    (hapart : fields.Pairwise fun fv gw => gw.1.Apart fv.1) :
    ∀ fv ∈ fields, fv.1.get (putAll obj fields) = fv.2 % 2 ^ fv.1.width := by
  induction fields generalizing obj with
  | nil => exact fun _ hfv => absurd hfv List.not_mem_nil
  | cons fv fields ih =>
    have hput := BitField.length_put (v := fv.2) (h fv List.mem_cons_self)
    have hrest : ∀ gw ∈ fields, gw.1.Inside (fv.1.put obj fv.2).length := fun gw hgw => by
      rw [hput]
      exact h gw (List.mem_cons_of_mem _ hgw)
    obtain ⟨hhead, htail⟩ := List.pairwise_cons.mp hapart
    intro gw hgw
    rcases List.mem_cons.mp hgw with rfl | hgw
    · exact (get_putAll_of_apart hrest hhead).trans
        (BitField.get_put_self (h gw List.mem_cons_self))
    · exact ih hrest htail gw hgw

end PutAll

end SnowballLtp
