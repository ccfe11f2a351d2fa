import SnowballLtp.Machine.OneBit
import SnowballLtp.Ltp.RandomBit

/-!
# I/O methods

A method of the I/O library is a mask: bits for the types of I/O, bits for the ways of waiting for
asynchronous I/O, and flags. For both groups the header has two masks, which are different on Linux:
`LIO_IO_TYPES` has the types that are not asynchronous and `LIO_IO_ATYPES` all of them, and
`LIO_WAIT_TYPES` has one way of waiting and `LIO_WAIT_ATYPES` has them all.

`lio_random_methods` chooses from, and clears, the bits of the small masks only. The other bits of
the large masks stay beside the choice.

## Main definitions

* `lioParseIoArg1`, `lioRandomMethods`.
* `ChoosesMethod`: what a random method should be.

## Main results

* `lioRandomMethods_spec`: what a random method is.
* `choosesMethod_iff`.
-/

namespace SnowballLtp

namespace Lio

open RandomRange

/-! ### The masks -/

def ioSync : BitVec 32 := 0o1
def ioAsync : BitVec 32 := 0o2
def ioSlistio : BitVec 32 := 0o4
def ioAlistio : BitVec 32 := 0o10
def ioSyncv : BitVec 32 := 0o20
def ioSyncp : BitVec 32 := 0o40

def ioTypes : BitVec 32 := 0o61
def ioAtypes : BitVec 32 := 0o77

def ioAsyncTypes : BitVec 32 := ioAsync ||| ioSlistio ||| ioAlistio

def waitNone : BitVec 32 := 0o10000
def waitActive : BitVec 32 := 0o20000
def waitRecall : BitVec 32 := 0o40000
def waitSigpause : BitVec 32 := 0o100000
def waitSigactive : BitVec 32 := 0o200000
def waitCbsuspend : BitVec 32 := 0o400000
def waitSigsuspend : BitVec 32 := 0o1000000

def waitAtypes : BitVec 32 := 0o1760000
def waitTypes : BitVec 32 := 0o20000

def waitCbtypes : BitVec 32 := waitCbsuspend
def waitSigtypes : BitVec 32 := waitSigpause ||| waitSigactive ||| waitSigsuspend

/-- `LIO_RANDOM`. -/
def random : BitVec 32 := 0o10000000

/-- `LIO_USE_SIGNAL`. -/
def useSignal : BitVec 32 := 0o20000000

/-! ### Parsing -/

/-- `struct lio_info_type`. -/
structure InfoType where
  token : String
  bits : BitVec 32
  desc : String

/-- `Lio_info1`. -/
def info1 : List InfoType :=
  [⟨"s", ioSync, "sync i/o"⟩,
    ⟨"p", ioAsync ||| waitSigactive, "async i/o using a loop to wait for a signal"⟩,
    ⟨"b", ioAsync ||| waitSigpause, "async i/o using pause"⟩,
    ⟨"a", ioAsync ||| waitRecall, "async i/o using recall/aio_suspend"⟩,
    ⟨"r", random ||| ioTypes ||| waitTypes, "random sync i/o types and wait methods"⟩,
    ⟨"R", random ||| ioAtypes ||| waitAtypes, "random i/o types and wait methods"⟩,
    ⟨"l", ioSlistio ||| waitRecall, "single stride sync listio"⟩,
    ⟨"L", ioAlistio ||| waitRecall, "single stride async listio using recall"⟩,
    ⟨"X", ioAlistio ||| waitSigpause, "single stride async listio using pause"⟩,
    ⟨"v", ioSyncv, "single buffer sync readv/writev"⟩,
    ⟨"P", ioSyncp, "sync pread/pwrite"⟩]

/-- `lio_parse_io_arg1`. -/
def lioParseIoArg1 (string : List Char) : BitVec 32 :=
  match info1.find? fun info => decide (string = info.token.toList) with
  | some info => 0 ||| info.bits
  | none => -1

/-! ### A random method -/

/-- The bits of a mask that are cleared before a choice. -/
def cleared : BitVec 32 := ioTypes ||| waitTypes ||| random

/-- `lio_random_methods`, for the values that `lrand48` has in the two choices. An `int` is
converted to a `long` and back. -/
def lioRandomMethods (fuel : ℕ) (lrandIo lrandWait : ℤ) (currMask : BitVec 64) :
    Option (Except Fault (BitVec 32)) :=
  let mask := (currMask &&& (~~~cleared).signExtend 64).setWidth 32
  match randomBit fuel lrandIo (currMask &&& ioTypes.signExtend 64) with
  | some (.ok io) =>
    let mask := mask ||| io.setWidth 32
    match randomBit fuel lrandWait (currMask &&& waitTypes.signExtend 64) with
    | some (.ok wait) => some (.ok (mask ||| wait.setWidth 32))
    | some (.error fault) => some (.error fault)
    | none => none
  | some (.error fault) => some (.error fault)
  | none => none

/-! ### What is chosen -/

section Choice

variable {fuel : ℕ} {l l' : ℤ} {m r io wait : BitVec 32}

theorem signExtend_and_eq (m : BitVec 32) {c : BitVec 32} (hc : c.msb = false) :
    m.signExtend 64 &&& c.signExtend 64 = (m &&& c).setWidth 64 := by
  rw [← BitVec.signExtend_and]
  refine BitVec.signExtend_eq_setWidth_of_msb_false ?_
  rw [BitVec.msb_and, hc, Bool.and_false]

theorem setWidth_signExtend (x : BitVec 32) : (x.signExtend 64).setWidth 32 = x := by
  refine BitVec.eq_of_getLsbD_eq fun i hi => ?_
  have hi64 : i < 64 := by omega
  simp only [BitVec.getLsbD_setWidth, BitVec.getLsbD_signExtend, hi, hi64, decide_true,
    Bool.true_and, if_true]

/-- **A random method** keeps the bits that are not cleared, beside a choice from each of the small
masks. -/
theorem lioRandomMethods_spec (m : BitVec 32) (hl : Lrand48 l) (hl' : Lrand48 l')
    (hfuel : 64 < fuel) :
    ∃ io wait, Picks io (m &&& ioTypes) ∧ Picks wait (m &&& waitTypes) ∧
      lioRandomMethods fuel l l' (m.signExtend 64) =
        some (.ok (m &&& ~~~cleared ||| io ||| wait)) := by
  have hio := signExtend_and_eq m (show ioTypes.msb = false by decide)
  have hwait := signExtend_and_eq m (show waitTypes.msb = false by decide)
  obtain ⟨io, hiorun, hiopick⟩ := exists_randomBit ((m &&& ioTypes).setWidth 64) hl hfuel
  obtain ⟨wait, hwaitrun, hwaitpick⟩ := exists_randomBit ((m &&& waitTypes).setWidth 64) hl' hfuel
  refine ⟨io.setWidth 32, wait.setWidth 32, hiopick.setWidth (by decide),
    hwaitpick.setWidth (by decide), ?_⟩
  have hkept : (m.signExtend 64 &&& (~~~cleared).signExtend 64).setWidth 32 = m &&& ~~~cleared := by
    rw [← BitVec.signExtend_and]
    exact setWidth_signExtend _
  simp only [lioRandomMethods, hio, hwait, hiorun, hwaitrun, hkept]

/-- What a random method should be: a type of I/O and a way of waiting, of those that there are to
choose from. -/
structure ChoosesMethod (m r : BitVec 32) : Prop where
  random : r &&& random = 0#32
  io : Picks (r &&& ioAtypes) (m &&& ioAtypes)
  wait : Picks (r &&& waitAtypes) (m &&& waitAtypes)
  others : r &&& ~~~(ioAtypes ||| waitAtypes ||| Lio.random) =
    m &&& ~~~(ioAtypes ||| waitAtypes ||| Lio.random)

/-- The bits of the group that are not in the pool leave nothing to choose, or are nothing. -/
def NothingBeside (m group pool : BitVec 32) : Prop :=
  m &&& (group &&& ~~~pool) = 0#32 ∨
    m &&& pool = 0#32 ∧ ∃ i, i < 32 ∧ m &&& (group &&& ~~~pool) = BitVec.twoPow 32 i

instance (m group pool : BitVec 32) : Decidable (NothingBeside m group pool) :=
  inferInstanceAs (Decidable (_ ∨ _ ∧ _))

theorem result_and (m kept io wait c : BitVec 32) :
    (m &&& kept ||| io ||| wait) &&& c = m &&& (kept &&& c) ||| io &&& c ||| wait &&& c := by
  rw [BitVec.and_or_distrib_right, BitVec.and_or_distrib_right, BitVec.and_assoc]

/-- A group of which the pool has been chosen from. -/
theorem picks_group_iff {group pool chosen : BitVec 32} (hchosen : Picks chosen (m &&& pool))
    (hpool : group &&& ~~~pool ||| pool = group) (hdisj : group &&& ~~~pool &&& pool = 0#32)
    (hr : r &&& group = m &&& (group &&& ~~~pool) ||| chosen) :
    Picks (r &&& group) (m &&& group) ↔ NothingBeside m group pool := by
  have hmask : m &&& group = m &&& (group &&& ~~~pool) ||| m &&& pool := by
    rw [← BitVec.and_or_distrib_left, hpool]
  rw [hr, hmask]
  refine picks_or_iff ?_ hchosen
  calc m &&& (group &&& ~~~pool) &&& (m &&& pool)
      = m &&& m &&& (group &&& ~~~pool &&& pool) := by ac_rfl
    _ = 0#32 := by rw [hdisj, BitVec.and_zero]

theorem choosesMethod_result_iff (hio : Picks io (m &&& ioTypes))
    (hwait : Picks wait (m &&& waitTypes)) :
    ChoosesMethod m (m &&& ~~~cleared ||| io ||| wait) ↔
      NothingBeside m ioAtypes ioTypes ∧ NothingBeside m waitAtypes waitTypes := by
  have hiogroup : Picks ((m &&& ~~~cleared ||| io ||| wait) &&& ioAtypes) (m &&& ioAtypes) ↔
      NothingBeside m ioAtypes ioTypes := by
    refine picks_group_iff hio (by decide) (by decide) ?_
    rw [result_and, hio.and_of_covers (by decide), hwait.and_of_apart (by decide), BitVec.or_zero,
      show ~~~cleared &&& ioAtypes = ioAtypes &&& ~~~ioTypes by decide]
  have hwaitgroup : Picks ((m &&& ~~~cleared ||| io ||| wait) &&& waitAtypes) (m &&& waitAtypes) ↔
      NothingBeside m waitAtypes waitTypes := by
    refine picks_group_iff hwait (by decide) (by decide) ?_
    rw [result_and, hwait.and_of_covers (by decide), hio.and_of_apart (by decide), BitVec.or_zero,
      show ~~~cleared &&& waitAtypes = waitAtypes &&& ~~~waitTypes by decide]
  refine ⟨fun h => ⟨hiogroup.mp h.io, hwaitgroup.mp h.wait⟩, fun h => ⟨?_, hiogroup.mpr h.1,
    hwaitgroup.mpr h.2, ?_⟩⟩
  · rw [result_and, hio.and_of_apart (by decide), hwait.and_of_apart (by decide), BitVec.or_zero,
      BitVec.or_zero, show ~~~cleared &&& random = 0#32 by decide, BitVec.and_zero]
  · rw [result_and, hio.and_of_apart (by decide), hwait.and_of_apart (by decide), BitVec.or_zero,
      BitVec.or_zero, show ~~~cleared &&& ~~~(ioAtypes ||| waitAtypes ||| random) =
        ~~~(ioAtypes ||| waitAtypes ||| random) by decide]

/-- **The methods from which one is chosen.** -/
theorem choosesMethod_iff (m : BitVec 32) (hl : Lrand48 l) (hl' : Lrand48 l')
    (hfuel : 64 < fuel) :
    (∃ r, lioRandomMethods fuel l l' (m.signExtend 64) = some (.ok r) ∧ ChoosesMethod m r) ↔
      NothingBeside m ioAtypes ioTypes ∧ NothingBeside m waitAtypes waitTypes := by
  obtain ⟨io, wait, hio, hwait, hrun⟩ := lioRandomMethods_spec m hl hl' hfuel
  rw [← choosesMethod_result_iff hio hwait]
  constructor
  · rintro ⟨r, hr, h⟩
    rw [hrun, Option.some.injEq, Except.ok.injEq] at hr
    exact hr ▸ h
  · exact fun h => ⟨_, hrun, h⟩

/-- The synchronous types are in the pool, and so is the one way of waiting. -/
theorem choosesMethod_r :
    ∃ r, lioRandomMethods 65 7 8 ((lioParseIoArg1 ['r']).signExtend 64) = some (.ok r) ∧
      ChoosesMethod (lioParseIoArg1 ['r']) r :=
  (choosesMethod_iff (lioParseIoArg1 ['r']) ⟨by decide, by decide⟩ ⟨by decide, by decide⟩
    (by decide)).mpr ⟨by decide, by decide⟩

/-- The asynchronous types and the other ways of waiting stay beside the choice. -/
theorem not_choosesMethod_R :
    ¬∃ r, lioRandomMethods 65 0 0 ((lioParseIoArg1 ['R']).signExtend 64) = some (.ok r) ∧
      ChoosesMethod (lioParseIoArg1 ['R']) r := by
  rintro ⟨r, hr, h⟩
  have hzero : Lrand48 0 := ⟨by decide, by decide⟩
  obtain ⟨io, wait, hio, hwait, hrun⟩ :=
    lioRandomMethods_spec (lioParseIoArg1 ['R']) hzero hzero (show 64 < 65 by decide)
  rw [hrun, Option.some.injEq, Except.ok.injEq] at hr
  have hbeside := ((choosesMethod_result_iff hio hwait).mp (hr ▸ h)).1
  exact absurd hbeside (by decide)

end Choice

end Lio

end SnowballLtp
