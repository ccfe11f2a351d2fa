import Mathlib.Data.List.Basic
import Mathlib.Algebra.Ring.Int.Defs

/-!
# Buffer lists

The data of `struct buflist` and the functions of `dma_test_lib.c` that create, fill and check a
buffer list. The functions that talk to the DMA engine are in `SnowballLtp.Dma.Transfer`.

`list_size` is the array as it lies in memory, its terminator `-1` included; every loop of the
source runs over `Buflist.entries`, the part in front of the first `-1`. The payload and the end
padding of a buffer are one array, so the content of the buffers of one side is a function of
the buffer index and the byte index. What `kmalloc` returns is arbitrary, so a buffer list starts
with arbitrary contents.

## Main definitions

* `Side`, `Region`, `Event`: what is mapped for the device, and the trace of the calls made.
* `Buflist`, `Buflist.entries`.
* `dmatestBuflistCreate`, `dmatestBuflistAlloc`, `dmatestBuflistPayloadCheck`,
  `dmatestBuflistResetNbrFinished`, `dmatestBuflistGetNbrFinished`.

## Main results

* `Buflist.entries_of_listSize`: a list of positive sizes is read back by the loops.
* `payloadCheckErr_eq_zero_iff`: what the check compares.
-/

namespace SnowballLtp.Dma

/-- `EINVAL`. -/
def einval : ℤ := 22

/-- The values of the type `int`. -/
def IsInt (x : ℤ) : Prop := -2 ^ 31 ≤ x ∧ x < 2 ^ 31

/-- The operator `|` of the type `int`. -/
def orInt (x y : ℤ) : ℤ := (BitVec.ofInt 32 x ||| BitVec.ofInt 32 y).toInt

theorem isInt_orInt (x y : ℤ) : IsInt (orInt x y) :=
  ⟨BitVec.le_toInt _, BitVec.toInt_lt⟩

private theorem ofInt_eq_zero_iff {x : ℤ} (hx : IsInt x) : BitVec.ofInt 32 x = 0#32 ↔ x = 0 := by
  obtain ⟨hlo, hhi⟩ := hx
  rw [← BitVec.toInt_inj, BitVec.toInt_ofInt, BitVec.toInt_zero,
    Int.bmod_eq_of_le (by omega) (by omega)]

theorem orInt_eq_zero_iff {x y : ℤ} (hx : IsInt x) (hy : IsInt y) :
    orInt x y = 0 ↔ x = 0 ∧ y = 0 := by
  rw [← ofInt_eq_zero_iff hx, ← ofInt_eq_zero_iff hy, ← BitVec.or_eq_zero_iff,
    ← BitVec.toInt_inj, BitVec.toInt_zero, orInt]

/-- What the loops `err |= ...` compute. -/
theorem foldl_orInt_eq_zero_iff {l : List ℤ} {x : ℤ} (hx : IsInt x) (hl : ∀ y ∈ l, IsInt y) :
    l.foldl orInt x = 0 ↔ x = 0 ∧ ∀ y ∈ l, y = 0 := by
  induction l generalizing x with
  | nil => simp
  | cons y l ih =>
    obtain ⟨hy, hl⟩ := List.forall_mem_cons.mp hl
    rw [List.foldl_cons, ih (isInt_orInt x y) hl, orInt_eq_zero_iff hx hy, List.forall_mem_cons,
      and_assoc]

/-- The macro `ALIGN`, for a power of two `a`. -/
def align (x a : ℤ) : ℤ := (x + (a - 1)) / a * a

/-- `TX_ALIGN`. -/
def txAlign : ℤ := 1

/-- `DEFAULT_TIMEOUT`, in milliseconds. -/
def defaultTimeout : ℤ := 10000

/-- `DMA_PREP_INTERRUPT`. -/
def dmaPrepInterrupt : BitVec 32 := 1#32

/-- `DMA_CTRL_ACK`: the engine may reclaim a descriptor once it has completed. -/
def dmaCtrlAck : BitVec 32 := 2#32

/-- The two sides of a transfer. -/
inductive Side where
  | src
  | dst
  deriving DecidableEq, Repr

/-- A stretch of memory handed to `dma_map_single`: the payload of buffer `i`, or the end padding
behind it. -/
inductive Region where
  | payload (side : Side) (i : ℕ)
  | endPadding (side : Side) (i : ℕ)
  deriving DecidableEq, Repr

/-- The content of the buffers of one side, by buffer index and byte index. -/
abbrev Buffers := ℕ → ℕ → UInt8

/-- The calls and runs that the trace of a transfer records, in the order they are made. -/
inductive Event where
  /-- The work item `work_start` runs. -/
  | workStart
  | dmaMapSingle (r : Region)
  | dmaUnmapSingle (r : Region)
  | dmaMapSg (side : Side)
  | dmaUnmapSg (side : Side)
  /-- `desc[i]->tx_submit(desc[i])`. -/
  | txSubmit (i : ℕ)
  | scheduleDelayedWork
  | cancelDelayedWork
  | dmaAsyncIssuePending
  /-- The engine calls `transmit_cb` for descriptor `i`. -/
  | transmitCb (i : ℕ)
  /-- The watchdog `timed_out` runs `transfer_timedout`. -/
  | transferTimedout
  /-- `dmatest_buflist_payload_check` runs with `inFlight` descriptors of the list not completed,
  and returns `err`. -/
  | payloadCheck (inFlight : ℕ) (err : ℤ)
  | queueWork
  | complete
  deriving DecidableEq, Repr

/-- The functions that `buflist->callback` may point to. -/
inductive Callback where
  | tcWorker
  deriving DecidableEq, Repr

/-- `struct buflist`. -/
structure Buflist where
  /-- The cells of `list_size`, the terminator included. -/
  listSize : List ℤ
  listBufDst : Buffers
  listBufSrc : Buffers
  sglDstLen : ℕ
  sglSrcLen : ℕ
  dmaEngineFlags : BitVec 32
  isDmaPrepared : Bool
  listLen : ℕ
  /-- `none` is the null pointer. -/
  callback : Option Callback
  finishedJobs : ℕ
  sentJobs : ℕ
  timeoutLen : ℤ
  endPadding : ℕ

namespace Buflist

/-- A buffer list whose structure is zeroed, the memory behind it holding anything. -/
def zeroed (src dst : Buffers) : Buflist where
  listSize := []
  listBufDst := dst
  listBufSrc := src
  sglDstLen := 0
  sglSrcLen := 0
  dmaEngineFlags := 0
  isDmaPrepared := false
  listLen := 0
  callback := none
  finishedJobs := 0
  sentJobs := 0
  timeoutLen := 0
  endPadding := 0

variable (bf : Buflist)

/-- The sizes that the loops `for (i = 0; list_size[i] != -1; i++)` run over. -/
def entries : List ℤ := bf.listSize.takeWhile fun v => v != -1

/-- The number of buffers of the list. -/
def nbrBufs : ℕ := bf.entries.length

/-- The size of buffer `i`, as a number of bytes. -/
def sizeAt (i : ℕ) : ℕ := (bf.entries.getD i 0).toNat

variable {bf}

/-- A list of positive sizes followed by the terminator is what the loops run over. -/
theorem entries_of_listSize {sizes : List ℤ} (hsizes : ∀ v ∈ sizes, 1 ≤ v)
    (h : bf.listSize = sizes ++ [-1]) : bf.entries = sizes := by
  have hne : ∀ v ∈ sizes, (v != -1) = true := by
    intro v hv
    have hpos := hsizes v hv
    simp only [bne_iff_ne, ne_eq]
    omega
  rw [entries, h, List.takeWhile_append_of_pos hne]
  simp

end Buflist

/-! ### Creating and filling a list -/

/-- Create a buffer list of `length` buffers. `granted` tells whether `dma_request_channel`
returned a channel; `list_size` holds no entry yet. -/
def dmatestBuflistCreate (bf : Buflist) (length endPadding : ℕ) (dmaEngineFlags : BitVec 32)
    (timeout : ℤ) (granted : Bool) : Except ℤ Buflist :=
  if granted then
    .ok { bf with
      isDmaPrepared := false
      dmaEngineFlags := dmaEngineFlags
      listLen := length
      finishedJobs := 0
      sentJobs := 0
      listSize := []
      endPadding := endPadding
      timeoutLen := timeout
      callback := none }
  else
    .error (-einval)

/-- The byte of the pattern at offset `j` of buffer `b`: `(u8) (j + b)`. -/
def pattern (b j : ℕ) : UInt8 := UInt8.ofNat (j + b)

/-- One side of `dmatest_buflist_alloc`: the payload byte `j` of buffer `b` is `fill b j`, the end
padding `0xBE`, and the memory behind it is as `kmalloc` returned it. -/
def allocSide (bf : Buflist) (fill old : Buffers) : Buffers := fun b j =>
  if b < bf.nbrBufs then
    if j < bf.sizeAt b then fill b j
    else if j < bf.sizeAt b + bf.endPadding then 0xBE
    else old b j
  else old b j

/-- Allocate the buffers and write the pattern into the source, `0xAA` into the destination and
`0xBE` into the end padding of both. The end paddings are mapped once, here. -/
def dmatestBuflistAlloc (bf : Buflist) : List Event × Buflist :=
  ((List.range bf.nbrBufs).flatMap fun i =>
      if bf.endPadding = 0 then []
      else [.dmaMapSingle (.endPadding .dst i), .dmaMapSingle (.endPadding .src i)],
    { bf with
      listBufSrc := allocSide bf pattern bf.listBufSrc
      listBufDst := allocSide bf (fun _ _ => 0xAA) bf.listBufDst })

/-! ### Checking a list -/

/-- `memcmp (list_buf_dst[i], list_buf_src[i], list_size[i]) != 0`. -/
def payloadDiffers (bf : Buflist) (i : ℕ) : Bool :=
  (List.range (bf.sizeAt i)).any fun j => bf.listBufDst i j != bf.listBufSrc i j

/-- The calls of `dmatest_buflist_payload_check` that unmap the buffers. -/
def payloadCheckUnmaps (bf : Buflist) : List Event :=
  (if bf.sglSrcLen = 0 then [] else [.dmaUnmapSg .src]) ++
  (if bf.sglDstLen = 0 then [] else [.dmaUnmapSg .dst]) ++
  (List.range bf.nbrBufs).flatMap fun i =>
    (if bf.sglSrcLen = 0 then [.dmaUnmapSingle (.payload .src i)] else []) ++
    (if bf.sglDstLen = 0 then [.dmaUnmapSingle (.payload .dst i)] else [])

/-- The value that `dmatest_buflist_payload_check` returns. -/
def payloadCheckErr (bf : Buflist) : ℤ :=
  (List.range bf.nbrBufs).foldl (fun err i => if payloadDiffers bf i then -1 else err) 0

/-- Unmap the buffers and compare every destination with its source. -/
def dmatestBuflistPayloadCheck (bf : Buflist) : List Event × ℤ :=
  (payloadCheckUnmaps bf, payloadCheckErr bf)

theorem payloadDiffers_eq_false_iff {bf : Buflist} {i : ℕ} :
    payloadDiffers bf i = false ↔ ∀ j < bf.sizeAt i, bf.listBufDst i j = bf.listBufSrc i j := by
  simp [payloadDiffers]

private theorem foldl_differs_of_ne_zero {p : ℕ → Bool} (l : List ℕ) {err : ℤ} (h : err = -1) :
    l.foldl (fun err i => if p i then -1 else err) err = -1 := by
  induction l generalizing err with
  | nil => exact h
  | cons i l ih =>
    rw [List.foldl_cons]
    exact ih (by split_ifs <;> [rfl; exact h])

private theorem foldl_differs {p : ℕ → Bool} (l : List ℕ) :
    l.foldl (fun err i => if p i then -1 else err) (0 : ℤ) = if l.any p then -1 else 0 := by
  induction l with
  | nil => rfl
  | cons i l ih =>
    rw [List.foldl_cons, List.any_cons]
    cases hp : p i with
    | true => simpa using foldl_differs_of_ne_zero l rfl
    | false => simpa using ih

/-- The check returns `-1` when some destination differs from its source, and `0` otherwise. -/
theorem payloadCheckErr_eq (bf : Buflist) :
    payloadCheckErr bf = if (List.range bf.nbrBufs).any (payloadDiffers bf) then -1 else 0 :=
  foldl_differs _

/-- The check accepts exactly when every destination payload equals its source payload. -/
theorem payloadCheckErr_eq_zero_iff {bf : Buflist} :
    payloadCheckErr bf = 0 ↔
      ∀ b < bf.nbrBufs, ∀ j < bf.sizeAt b, bf.listBufDst b j = bf.listBufSrc b j := by
  have hany : (List.range bf.nbrBufs).any (payloadDiffers bf) = false ↔
      ∀ b < bf.nbrBufs, payloadDiffers bf b = false := by
    simp
  simp only [← payloadDiffers_eq_false_iff, ← hany, payloadCheckErr_eq]
  cases (List.range bf.nbrBufs).any (payloadDiffers bf) <;> simp

/-! ### The counters -/

/-- `dmatest_buflist_reset_nbr_finished`. -/
def dmatestBuflistResetNbrFinished (bf : Buflist) : Buflist :=
  { bf with finishedJobs := 0, sentJobs := 0 }

/-- `dmatest_buflist_get_nbr_finished`. -/
def dmatestBuflistGetNbrFinished (bf : Buflist) : ℕ := bf.finishedJobs

end SnowballLtp.Dma
