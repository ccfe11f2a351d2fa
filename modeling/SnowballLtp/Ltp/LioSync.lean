import SnowballLtp.Machine.Chunks
import SnowballLtp.Machine.Outcome
import Mathlib.Data.Int.Order.Basic

/-!
# Synchronous I/O

The state of a process that calls the I/O library, and the loops around `write` and `read`. A loop
makes a request for the rest of the buffer until nothing is left of it. It tries again after `EINTR`
and `EAGAIN`; the loop around `read` also leaves at the end of the file. What a loop returns is the
value of its last call.

The two buffer functions are one function of the direction of the data. The directions differ in
what a call moves, in the texts, and in the end of the file.

## Main definitions

* `Session`, `Run`: the state of the process, and a computation on it.
* `Direction`, `writing`, `reading`.
* `syncLoop`.
* `WritesInOrder`, `ReadsInOrder`, `MovesInOrder`.

## Main results

* `syncLoop_moves`: what the loop moves.
* `syncLoop_returns`: what it returns.
* `movesInOrder`.
-/

namespace SnowballLtp

namespace Lio

/-! ### The process -/

/-- An error number. -/
abbrev Errno := {e : ℤ // 0 < e}

def eintr : Errno := ⟨4, by decide⟩
def eagain : Errno := ⟨11, by decide⟩
def espipe : ℤ := 29
def einprogress : ℤ := 115

/-- `sigev_notify`. -/
inductive Notify where
  | none
  | signal
  | thread
  deriving DecidableEq, Repr

/-- What `Errormsg` says. -/
inductive Message where
  | seekFailed (errno : ℤ)
  | callFailed (ioType : String) (size : ℤ) (errno : Errno)
  | callReturned (ioType : String) (size ret : ℤ)
  | hadToLoop (ioType : String) (cnt : ℤ) (method : BitVec 32) (notify : Notify)
  | errorSet (ioType : String) (ret : ℤ) (method : BitVec 32)
  | returnNotAsExpected (ioType : String) (size ret : ℤ)
  | suspendInterrupted (notify : Notify)
  | suspendFailed (errno : Errno)
  | waitNoneSelected
  deriving DecidableEq, Repr

/-- The ways in which `lio_wait4asyncio` waits. -/
inductive Waiting where
  | suspend
  | active
  | sigpause
  | sigactive
  deriving DecidableEq, Repr

/-- The process: the requests to `read` and `write` so far, the object that the buffer points to,
the signals that are held, what `aio_error` is still going to say, the waiting so far, and
`Errormsg`. -/
structure Session where
  calls : List (Chunk UInt8)
  memory : List UInt8
  held : List ℤ
  errors : List ℤ
  waits : List Waiting
  errormsg : Option Message
  deriving DecidableEq, Repr

/-- Why a call does not return: it still waits for the kernel, or it has run into a fault. -/
inductive Stop where
  | waiting
  | fault (f : Fault)
  deriving DecidableEq, Repr

/-- A computation of the process. -/
abbrev Run := EStateM Stop Session

def complain (m : Message) : Run Unit := modify fun s => { s with errormsg := some m }

/-! ### The loops -/

/-- The values of `io_type`. -/
structure IoTypes where
  sync : String
  async : String
  slistio : String
  alistio : String
  syncv : String
  syncp : String

/-- A direction of the data, with what a successful call says about it. -/
structure Direction (δ : Type) where
  ioTypes : IoTypes
  /-- The value that the call returns. -/
  count : δ → ℕ
  /-- The data that the call moves, from the object that the buffer points to. -/
  chunk : List UInt8 → ℕ → δ → List UInt8
  /-- The object after the call. -/
  after : List UInt8 → ℕ → δ → List UInt8
  /-- Whether the loop leaves at a count of zero. -/
  endsAtZero : Bool

/-- `write`, which says how many bytes it takes. -/
def writing : Direction ℕ where
  ioTypes :=
    { sync := "write"
      async := "aio_write"
      slistio := "lio_listio(3) sync write"
      alistio := "lio_listio(3) async write"
      syncv := "writev(2)"
      syncp := "pwrite(2)" }
  count := id
  chunk := slice
  after memory _ _ := memory
  endsAtZero := false

/-- `read`, which gives some bytes. -/
def reading : Direction (List UInt8) where
  ioTypes :=
    { sync := "read"
      async := "aio_read"
      slistio := "lio_listio(3) sync read"
      alistio := "lio_listio(3) async read"
      syncv := "readv(2)"
      syncp := "pread(2)" }
  count := List.length
  chunk _ _ data := data
  after := overwrite
  endsAtZero := true

variable {δ : Type}

/-- A request that moves nothing. -/
def request (pos : ℕ) (size : ℤ) : Run Unit :=
  modify fun s => { s with calls := s.calls ++ [⟨pos, size, []⟩] }

/-- A request that is answered. -/
def transfer (dir : Direction δ) (pos : ℕ) (size : ℤ) (d : δ) : Run Unit :=
  modify fun s =>
    { s with
      calls := s.calls ++ [⟨pos, size, dir.chunk s.memory pos d⟩]
      memory := dir.after s.memory pos d }

/-- The loop of the synchronous I/O, for the answers of the kernel. The `select` between two calls
only waits. -/
def syncLoop (dir : Direction δ) : List (Except Errno δ) → ℕ → ℤ → Run ℤ
  | [], pos, size => do
    request pos size
    throw .waiting
  | .error errno :: answers, pos, size => do
    request pos size
    if errno ≠ eagain ∧ errno ≠ eintr then do
      complain (.callFailed dir.ioTypes.sync size errno)
      return -errno
    else syncLoop dir answers pos size
  | .ok d :: answers, pos, size => do
    transfer dir pos size d
    if dir.endsAtZero = true ∧ dir.count d = 0 then return 0
    else if dir.count d ≠ size then do
      complain (.callReturned dir.ioTypes.sync size (dir.count d))
      syncLoop dir answers (pos + dir.count d) (size - dir.count d)
    else return dir.count d

/-- The kernel moves no more than it is asked for. -/
def Admissible (dir : Direction δ) : ℤ → List (Except Errno δ) → Prop
  | _, [] => True
  | size, .error _ :: answers => Admissible dir size answers
  | size, .ok d :: answers => dir.count d ≤ size ∧ Admissible dir (size - dir.count d) answers

/-! ### What is moved -/

/-- What the calls have done to the object: an invariant of the object and the requests. -/
structure Effects (dir : Direction δ) (total : ℤ) (inv : List UInt8 → List (Chunk UInt8) → Prop) :
    Prop where
  request : ∀ memory calls pos size, inv memory calls → inv memory (calls ++ [⟨pos, size, []⟩])
  length : ∀ memory calls d, inv memory calls → (joined calls).length + dir.count d ≤ total →
    (dir.chunk memory (joined calls).length d).length = dir.count d
  transfer : ∀ memory calls size d, inv memory calls →
    (joined calls).length + dir.count d ≤ total →
    inv (dir.after memory (joined calls).length d)
      (calls ++ [⟨(joined calls).length, size, dir.chunk memory (joined calls).length d⟩])

section Loop

variable {dir : Direction δ} {total : ℤ} {inv : List UInt8 → List (Chunk UInt8) → Prop} {pos : ℕ}
  {size : ℤ} {s : Session} {answers : List (Except Errno δ)} {d : δ}

/-- What holds of the process whenever the loop has made some calls. -/
structure Moved (total : ℤ) (inv : List UInt8 → List (Chunk UInt8) → Prop) (s : Session) :
    Prop where
  inOrder : InOrder total s.calls
  effect : inv s.memory s.calls

/-- The states of the loop: the rest of the buffer begins where the data moved so far ends. -/
structure Moving (total : ℤ) (inv : List UInt8 → List (Chunk UInt8) → Prop) (pos : ℕ) (size : ℤ)
    (s : Session) : Prop extends Moved total inv s where
  pos_eq : pos = (joined s.calls).length
  size_eq : pos + size = total
  size_nonneg : 0 ≤ size

theorem Moving.complain (h : Moving total inv pos size s) (m : Message) :
    Moving total inv pos size { s with errormsg := some m } :=
  ⟨⟨h.inOrder, h.effect⟩, h.pos_eq, h.size_eq, h.size_nonneg⟩

/-- A request that moves nothing leaves the rest of the buffer. -/
theorem Moving.request (heff : Effects dir total inv) (h : Moving total inv pos size s) :
    Moving total inv pos size { s with calls := s.calls ++ [⟨pos, size, []⟩] } := by
  refine ⟨⟨h.inOrder.snoc h.pos_eq (Int.le_of_eq h.size_eq) h.size_nonneg,
    heff.request _ _ _ _ h.effect⟩, ?_, h.size_eq, h.size_nonneg⟩
  rw [joined_append, joined_singleton, List.append_nil]
  exact h.pos_eq

/-- A call that moves data leaves the rest behind it. -/
theorem Moving.transfer (heff : Effects dir total inv) (h : Moving total inv pos size s)
    (hd : dir.count d ≤ size) :
    Moving total inv (pos + dir.count d) (size - dir.count d)
      { s with
        calls := s.calls ++ [⟨pos, size, dir.chunk s.memory pos d⟩]
        memory := dir.after s.memory pos d } := by
  obtain ⟨⟨hinOrder, heffect⟩, rfl, htotal, -⟩ := h
  have hfits : ((joined s.calls).length : ℤ) + dir.count d ≤ total := by omega
  have hlength := heff.length _ _ d heffect hfits
  refine ⟨⟨hinOrder.snoc rfl (Int.le_of_eq htotal) ?_, heff.transfer _ _ _ _ heffect hfits⟩, ?_,
    ?_, ?_⟩
  · exact hlength ▸ hd
  · rw [joined_append, joined_singleton, List.length_append, hlength]
  · rw [Int.natCast_add]
    omega
  · omega

/-- **What the loop moves**: at every moment, the start of the buffer, in order; and all of it when
the loop returns without an error, unless it has left at the end of the file. -/
theorem syncLoop_moves (heff : Effects dir total inv) (h : Moving total inv pos size s)
    (hadm : Admissible dir size answers) :
    Outcome (syncLoop dir answers pos size) s
      (fun r s' => Moved total inv s' ∧
        (dir.endsAtZero = false → 0 ≤ r → (joined s'.calls).length = total))
      (fun _ s' => Moved total inv s') := by
  induction answers generalizing pos size s with
  | nil => exact Outcome.of_error rfl (h.request heff).toMoved
  | cons answer answers ih =>
    cases answer with
    | error errno =>
      have hnext := h.request heff
      refine Outcome.bind_of_ok rfl ?_
      split_ifs with hretry
      · refine Outcome.bind_of_ok rfl (Outcome.of_ok rfl ⟨(hnext.complain _).toMoved, ?_⟩)
        intro _ hnonneg
        have hpos := errno.2
        omega
      · exact ih hnext hadm
    | ok d =>
      have hnext := h.transfer heff hadm.1
      refine Outcome.bind_of_ok rfl ?_
      split_ifs with hzero hshort
      · refine Outcome.of_ok rfl ⟨hnext.toMoved, fun hends => ?_⟩
        rw [hends] at hzero
        exact absurd hzero.1 Bool.false_ne_true
      · exact Outcome.bind_of_ok rfl (ih (hnext.complain _) hadm.2)
      · refine Outcome.of_ok rfl ⟨hnext.toMoved, fun _ _ => ?_⟩
        have hlength := hnext.pos_eq
        have htotal := hnext.size_eq
        simp only at hlength ⊢
        omega

/-! ### What is returned -/

/-- The answers after which a loop goes on, and the end of the file: the kernel moves something, and
no more than it is asked for, or was interrupted. -/
def Transient (dir : Direction δ) : ℤ → List (Except Errno δ) → Prop
  | _, [] => True
  | size, .error errno :: answers =>
    (errno = eagain ∨ errno = eintr) ∧ Transient dir size answers
  | size, .ok d :: answers =>
    (dir.count d = 0 → dir.endsAtZero = true) ∧ dir.count d ≤ size ∧
      Transient dir (size - dir.count d) answers

/-- The first call that is not interrupted moves everything, or finds the end of the file. -/
def FirstMovesAll (dir : Direction δ) (size : ℤ) : List (Except Errno δ) → Prop
  | [] => False
  | .error _ :: answers => FirstMovesAll dir size answers
  | .ok d :: _ => dir.count d = size ∨ dir.count d = 0

/-- **What the loop returns** is what it moves if and only if the first call that is not interrupted
moves everything. Where it does not, the later calls move at least as much as is returned. -/
theorem syncLoop_returns (heff : Effects dir total inv) (h : Moving total inv pos size s)
    (hans : Transient dir size answers) :
    Outcome (syncLoop dir answers pos size) s
      (fun r s' => ∃ gained : ℕ, (joined s'.calls).length = pos + gained ∧ r ≤ gained ∧
        (r = gained ↔ FirstMovesAll dir size answers))
      (fun _ _ => True) := by
  induction answers generalizing pos size s with
  | nil => exact Outcome.of_error rfl trivial
  | cons answer answers ih =>
    cases answer with
    | error errno =>
      have hretry : ¬(errno ≠ eagain ∧ errno ≠ eintr) := fun hne => hans.1.elim hne.1 hne.2
      refine Outcome.bind_of_ok rfl ?_
      rw [if_neg hretry]
      exact ih (h.request heff) hans.2
    | ok d =>
      obtain ⟨hzero, hle, hrest⟩ := hans
      have hnext := h.transfer heff hle
      have hlength := hnext.pos_eq.symm
      refine Outcome.bind_of_ok rfl ?_
      split_ifs with hend hshort
      · exact Outcome.of_ok rfl ⟨dir.count d, hlength, by omega,
          iff_of_true (by omega) (Or.inr hend.2)⟩
      · -- the later calls are behind what this one has moved
        refine Outcome.bind_of_ok rfl ((ih (hnext.complain _) hrest).imp ?_)
        rintro r s' ⟨gained, hgained, hr, -⟩
        have hmoves : dir.count d ≠ 0 := fun hcount => hend ⟨hzero hcount, hcount⟩
        refine ⟨dir.count d + gained, by omega, by omega, iff_of_false (by omega) ?_⟩
        exact fun hall => hall.elim hshort hmoves
      · have hall : (dir.count d : ℤ) = size := not_not.mp hshort
        exact Outcome.of_ok rfl ⟨dir.count d, hlength, Int.le_refl _,
          iff_of_true rfl (Or.inl hall)⟩

end Loop

/-! ### The two directions -/

section Directions

variable {buffer : List UInt8} {total size : ℤ} {s : Session}

/-- The chunks that were written are from the buffer, which is as it was. -/
def Taken (buffer memory : List UInt8) (calls : List (Chunk UInt8)) : Prop :=
  memory = buffer ∧ ∀ c ∈ calls, c.data = slice buffer c.pos c.data.length

/-- The buffer begins with the chunks that were read, one behind the other. -/
def Placed (buffer memory : List UInt8) (calls : List (Chunk UInt8)) : Prop :=
  memory = overwrite buffer 0 (joined calls)

theorem effects_writing (htotal : total ≤ buffer.length) :
    Effects writing total (Taken buffer) where
  request memory calls pos size h := by
    refine ⟨h.1, fun c hc => ?_⟩
    rcases List.mem_append.mp hc with hc | hc
    · exact h.2 c hc
    · rw [List.mem_singleton.mp hc]
      exact (List.take_zero ..).symm
  length memory calls d h hfits := by
    obtain ⟨rfl, -⟩ := h
    exact length_slice (by simp only [writing, id] at hfits ⊢; omega)
  transfer memory calls size d h hfits := by
    obtain ⟨rfl, hdata⟩ := h
    refine ⟨rfl, fun c hc => ?_⟩
    rcases List.mem_append.mp hc with hc | hc
    · exact hdata c hc
    · rw [List.mem_singleton.mp hc]
      simp only [writing, id] at hfits ⊢
      rw [length_slice (by omega)]

theorem effects_reading (htotal : total ≤ buffer.length) :
    Effects reading total (Placed buffer) where
  request memory calls pos size h := by
    rw [Placed, joined_append, joined_singleton, List.append_nil]
    exact h
  length _ _ _ _ _ := rfl
  transfer memory calls size d h hfits := by
    simp only [reading] at hfits
    have happend := overwrite_overwrite_append buffer (joined calls) d 0
      (by rw [List.length_append]; omega)
    rw [Nat.zero_add] at happend
    rw [Placed, joined_append, joined_singleton, h]
    exact happend

/-- The data taken by the calls to `write`. -/
structure WritesInOrder (buffer : List UInt8) (size : ℤ) (s : Session) : Prop where
  inOrder : InOrder size s.calls
  memory : s.memory = buffer
  joined : joined s.calls <+: slice buffer 0 size.toNat

/-- The data given by the calls to `read`. -/
structure ReadsInOrder (buffer : List UInt8) (size : ℤ) (s : Session) : Prop where
  inOrder : InOrder size s.calls
  memory : s.memory = overwrite buffer 0 (joined s.calls)

theorem Moved.writesInOrder (hsize : 0 ≤ size) (h : Moved size (Taken buffer) s) :
    WritesInOrder buffer size s := by
  refine ⟨h.inOrder, h.effect.1, ?_⟩
  have hle := h.inOrder.length_joined_le hsize
  obtain ⟨k, hk⟩ := Nat.exists_eq_add_of_le (show (joined s.calls).length ≤ size.toNat by omega)
  rw [h.inOrder.joined_eq h.effect.2, hk, ← slice_append]
  exact List.prefix_append ..

/-- The start of a loop. -/
theorem moving_start {inv : List UInt8 → List (Chunk UInt8) → Prop} (hsize : 0 ≤ size)
    (hcalls : s.calls = []) (hinv : inv s.memory []) : Moving size inv 0 size s := by
  refine ⟨⟨?_, ?_⟩, ?_, Int.zero_add size, hsize⟩
  · exact hcalls ▸ InOrder.nil size
  · exact hcalls ▸ hinv
  · rw [hcalls]
    rfl

/-- The loops on a buffer move the data once and in order, whatever the kernel answers: the chunks
taken by `write` are the start of the buffer, and the chunks given by `read` are placed one behind
the other. A loop around `write` that returns without an error has written the whole buffer. -/
structure MovesInOrder (size : ℤ) (s : Session) : Prop where
  write : ∀ answers, Admissible writing size answers →
    Outcome (syncLoop writing answers 0 size) s
      (fun r s' => WritesInOrder s.memory size s' ∧
        (0 ≤ r → joined s'.calls = slice s.memory 0 size.toNat))
      (fun _ s' => WritesInOrder s.memory size s')
  read : ∀ answers, Admissible reading size answers →
    Outcome (syncLoop reading answers 0 size) s
      (fun _ s' => ReadsInOrder s.memory size s')
      (fun _ s' => ReadsInOrder s.memory size s')

/-- **The synchronous loops.** -/
theorem movesInOrder (hsize : 0 ≤ size) (hbuffer : size ≤ s.memory.length) (hcalls : s.calls = []) :
    MovesInOrder size s := by
  constructor
  · intro answers hadm
    have hstart : Moving size (Taken s.memory) 0 size s :=
      moving_start hsize hcalls ⟨rfl, fun c hc => absurd hc List.not_mem_nil⟩
    refine (syncLoop_moves (effects_writing hbuffer) hstart hadm).mono ?_
      fun _ s' h => h.writesInOrder hsize
    rintro r s' ⟨hmoved, hall⟩
    refine ⟨hmoved.writesInOrder hsize, fun hr => ?_⟩
    have hlength := hall rfl hr
    rw [hmoved.inOrder.joined_eq hmoved.effect.2, ← hlength, Int.toNat_natCast]
  · intro answers hadm
    have hstart : Moving size (Placed s.memory) 0 size s :=
      moving_start hsize hcalls (by rw [Placed, joined_nil, overwrite_nil])
    exact (syncLoop_moves (effects_reading hbuffer) hstart hadm).mono
      (fun _ s' h => ⟨h.1.inOrder, h.1.effect⟩) fun _ s' h => ⟨h.inOrder, h.effect⟩

theorem movesInOrder_four :
    MovesInOrder 4
      { calls := []
        memory := [1, 2, 3, 4, 5]
        held := []
        errors := []
        waits := []
        errormsg := none } :=
  movesInOrder (by decide) (by decide) rfl

end Directions

end Lio

end SnowballLtp
