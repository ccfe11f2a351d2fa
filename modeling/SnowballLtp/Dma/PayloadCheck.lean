import Mathlib.Tactic.Tauto
import SnowballLtp.Dma.Buflist

/-!
# What the payload check accepts

`dmatest_buflist_alloc` writes a pattern into the payload of the sources, `0xAA` into the payload
of the destinations and `0xBE` into the end padding of both. `dmatest_buflist_payload_check`
compares the payload of each destination with its source, not with the pattern, and does not look
at the end padding. It tells the right transfers from the wrong ones except for three kinds of
contents: a source that was overwritten together with its destination, an end padding that was
overwritten by a transfer right otherwise, and a source overwritten behind a right transfer.

## Main definitions

* `SrcIntact`, `DstIntact`, `PaddingIntact`, `PayloadsAgree`.

## Main results

* `srcIntact_dmatestBuflistAlloc`: what the allocation writes.
* `payloadCheck_correct_iff`: the contents for which the check is right.
-/

namespace SnowballLtp.Dma

/-- The payload of every source is the pattern. -/
def SrcIntact (bf : Buflist) : Prop :=
  ∀ b < bf.nbrBufs, ∀ j < bf.sizeAt b, bf.listBufSrc b j = pattern b j

/-- The payload of every destination is the pattern. -/
def DstIntact (bf : Buflist) : Prop :=
  ∀ b < bf.nbrBufs, ∀ j < bf.sizeAt b, bf.listBufDst b j = pattern b j

/-- Every byte of the end padding, of the sources and of the destinations, is `0xBE`. -/
def PaddingIntact (bf : Buflist) : Prop :=
  ∀ b < bf.nbrBufs, ∀ j, bf.sizeAt b ≤ j → j < bf.sizeAt b + bf.endPadding →
    bf.listBufSrc b j = 0xBE ∧ bf.listBufDst b j = 0xBE

/-- The payload of every destination is that of its source. -/
def PayloadsAgree (bf : Buflist) : Prop :=
  ∀ b < bf.nbrBufs, ∀ j < bf.sizeAt b, bf.listBufDst b j = bf.listBufSrc b j

variable {bf : Buflist}

/-! ### What the allocation writes -/

theorem allocSide_of_lt {fill old : Buffers} {b j : ℕ} (hb : b < bf.nbrBufs)
    (hj : j < bf.sizeAt b) : allocSide bf fill old b j = fill b j := by
  rw [allocSide, if_pos hb, if_pos hj]

theorem srcIntact_dmatestBuflistAlloc (bf : Buflist) : SrcIntact (dmatestBuflistAlloc bf).2 :=
  fun _ hb _ hj => allocSide_of_lt hb hj

theorem listBufDst_dmatestBuflistAlloc {b j : ℕ} (hb : b < bf.nbrBufs) (hj : j < bf.sizeAt b) :
    (dmatestBuflistAlloc bf).2.listBufDst b j = 0xAA := by
  change allocSide bf (fun _ _ => 0xAA) bf.listBufDst b j = 0xAA
  rw [allocSide_of_lt hb hj]

/-! ### What the check compares -/

theorem dmatestBuflistPayloadCheck_eq_zero_iff :
    (dmatestBuflistPayloadCheck bf).2 = 0 ↔ PayloadsAgree bf :=
  payloadCheckErr_eq_zero_iff

theorem SrcIntact.payloadsAgree_iff (h : SrcIntact bf) : PayloadsAgree bf ↔ DstIntact bf := by
  refine forall₂_congr fun b hb => forall₂_congr fun j hj => ?_
  rw [h b hb j hj]

theorem DstIntact.payloadsAgree_iff (h : DstIntact bf) : PayloadsAgree bf ↔ SrcIntact bf := by
  refine forall₂_congr fun b hb => forall₂_congr fun j hj => ?_
  rw [h b hb j hj, eq_comm]

/-- The buffer list filled by `dmatest_buflist_alloc`, after a transfer has left `src` and `dst`
in the buffers. -/
def transferred (bf : Buflist) (src dst : Buffers) : Buflist :=
  { (dmatestBuflistAlloc bf).2 with listBufSrc := src, listBufDst := dst }

/-- **What the check accepts.** Whatever the transfer left in the buffers, the check accepts
exactly the intact destinations and end paddings if and only if the contents are of none of three
kinds: sources overwritten with what the destinations hold, a right transfer behind which the end
padding was overwritten, and a right transfer behind which the sources were. -/
theorem payloadCheck_correct_iff (bf₀ : Buflist) (src dst : Buffers) :
    ((dmatestBuflistPayloadCheck (transferred bf₀ src dst)).2 = 0 ↔
      DstIntact (transferred bf₀ src dst) ∧ PaddingIntact (transferred bf₀ src dst)) ↔
      ¬ (¬ SrcIntact (transferred bf₀ src dst) ∧ PayloadsAgree (transferred bf₀ src dst)) ∧
      ¬ (SrcIntact (transferred bf₀ src dst) ∧ DstIntact (transferred bf₀ src dst) ∧
        ¬ PaddingIntact (transferred bf₀ src dst)) ∧
      ¬ (¬ SrcIntact (transferred bf₀ src dst) ∧ DstIntact (transferred bf₀ src dst) ∧
        PaddingIntact (transferred bf₀ src dst)) := by
  generalize transferred bf₀ src dst = bf
  rw [dmatestBuflistPayloadCheck_eq_zero_iff]
  by_cases hsrc : SrcIntact bf
  · rw [hsrc.payloadsAgree_iff]
    by_cases hdst : DstIntact bf <;> by_cases hpad : PaddingIntact bf <;> simp [hsrc, hdst, hpad]
  · have hdst : DstIntact bf → ¬ PayloadsAgree bf := fun hd => mt hd.payloadsAgree_iff.mp hsrc
    tauto

/-- Two buffers of two bytes, each with one byte of end padding. -/
def twoBuffers : Buflist :=
  { Buflist.zeroed (fun _ _ => 0) (fun _ _ => 0) with listSize := [2, 2, -1], endPadding := 1 }

/-- A transfer in the wrong direction is accepted. -/
theorem payloadCheck_reversed :
    ¬ ∀ src dst : Buffers, (dmatestBuflistPayloadCheck (transferred twoBuffers src dst)).2 = 0 ↔
      DstIntact (transferred twoBuffers src dst) ∧
        PaddingIntact (transferred twoBuffers src dst) := by
  intro h
  have hreversed := h (allocSide twoBuffers (fun _ _ => 0xAA) fun _ _ => 0)
    (allocSide twoBuffers (fun _ _ => 0xAA) fun _ _ => 0)
  have hdst := (hreversed.mp (by decide)).1 0 (by decide) 0 (by decide)
  exact absurd hdst (by decide)

end SnowballLtp.Dma
