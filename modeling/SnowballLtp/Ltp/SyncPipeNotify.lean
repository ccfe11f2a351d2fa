import Mathlib.Data.List.ReduceOption
import SnowballLtp.Ltp.SyncPipe

/-!
# Waiting for the other process

A process that waits reads one byte from the FIFO, and a process that notifies writes one. Each
first closes the descriptor that it does not need, and both close the rest and remove the name of
the FIFO when they are done. A read of an empty FIFO blocks as long as somebody has it open for
writing, and finds the end of the file when nobody has. A descriptor from `sync_pipe_create` is
open for reading and for writing, so that the process that waits is itself a writer: its read never
finds that all writers have gone. With the end of an unnamed pipe it would. A read or a write that
blocks can be interrupted by a signal, and then fails. What has been written is lost when nobody
has the FIFO open any more.

## Main definitions

* `Process.next`, `next`: the calls of two processes, one system call after the other.
* `ParentAt`, `ChildAt`: how far the processes have come.
* `Prepared`, `Finished`.

## Main results

* `woken_add_length_le`: what is read has been written, in every run of any calls.
* `wait_notify`: a parent that has created the FIFO, and its child.
* `wait_unreturned`: a wait for a process that does not notify.
-/

namespace SnowballLtp

namespace SyncPipeNotify

open SyncPipe (Party generatePipeName AccessMode OpenFile Proc Phase)

/-! ### The functions -/

inductive Call where
  /-- `sync_pipe_create`. -/
  | create
  /-- `sync_pipe_wait`. -/
  | wait
  /-- `sync_pipe_notify`. -/
  | notify
  /-- `sync_pipe_close`. -/
  | close
deriving DecidableEq

/-- What a process does next. -/
inductive Stage where
  /-- The first system call of its next call. -/
  | ready
  | creating
  /-- The `read` of `sync_pipe_wait`. -/
  | reading
  /-- The `write` of `sync_pipe_notify`. -/
  | writing
  /-- The second `close` of `sync_pipe_close`, with `r`. -/
  | closing (r : ℤ)
  /-- The `unlink` of `sync_pipe_close`, with `r`. -/
  | unlinking (r : ℤ)
deriving DecidableEq

/-- A process with the calls that it is still to make and the values of those it has made. -/
structure Process where
  pipe : Proc
  stage : Stage
  todo : List Call
  log : List (Call × ℤ)

/-- The file behind a descriptor. -/
def fileOf (fd : ℤ) (files : List (Option OpenFile)) : Option OpenFile :=
  if 0 ≤ fd then (files[fd.toNat]?).join else none

/-- `close`. -/
def closeFd (fd : ℤ) (files : List (Option OpenFile)) : ℤ × List (Option OpenFile) :=
  match fileOf fd files with
  | none => (-1, files)
  | some _ => (0, files.set fd.toNat none)

/-- The bytes that a FIFO has room for. -/
def pipeSize : ℕ := 65536

/-- The bytes in the FIFOs, each with the FIFO that it is in, in the order of the writes. -/
abbrev Bytes := List (ℕ × Char)

/-- The end of a call. -/
def Process.ret (c : Call) (v : ℤ) (p : Process) : Process :=
  { p with stage := .ready, todo := p.todo.tail, log := p.log ++ [(c, v)] }

/-- A system call of `sync_pipe_create`. -/
def Process.create (fifo : Option ℕ) (fresh : ℕ) (p : Process) : Option (Process × Option ℕ) :=
  (p.pipe.next fifo fresh).map fun (pipe, fifo) =>
    match pipe.phase with
    | .returned v => ({ p with pipe }.ret .create v, fifo)
    | _ => ({ p with pipe, stage := .creating }, fifo)

/-- The process ended by `SIGPIPE`, which closes its descriptors. -/
def Process.killed (p : Process) : Process :=
  { p with pipe := { p.pipe with files := [] }, stage := .ready, todo := [] }

/-- `read` and what follows it. In `ends` are the descriptors of all processes. A read of an empty
FIFO blocks if it is open for writing, and else finds the end of the file. -/
def Process.read (ends : List OpenFile) (data : Bytes) (p : Process) : Option (Process × Bytes) :=
  match fileOf p.pipe.fd0 p.pipe.files with
  | none => some (p.ret .wait (-1), data)
  | some file =>
    if file.mode = .wronly then some (p.ret .wait (-1), data)
    else
      match data.find? fun m => m.1 = file.ino with
      | none =>
        if ∃ other ∈ ends, other.ino = file.ino ∧ other.mode ≠ .rdonly then none
        else some (p.ret .wait (-1), data)
      | some m => some (p.ret .wait (if m.2 = 'A' then 0 else -1), data.erase m)

/-- `write` and what follows it. A write to a FIFO that nobody has open for reading ends the
process, and one to a full FIFO blocks. -/
def Process.write (ends : List OpenFile) (data : Bytes) (p : Process) : Option (Process × Bytes) :=
  match fileOf p.pipe.fd1 p.pipe.files with
  | none => some (p.ret .notify (-1), data)
  | some file =>
    if file.mode = .rdonly then some (p.ret .notify (-1), data)
    else if ∃ other ∈ ends, other.ino = file.ino ∧ other.mode ≠ .wronly then
      if data.countP (fun m => m.1 = file.ino) < pipeSize then
        some (p.ret .notify 0, data ++ [(file.ino, 'A')])
      else none
    else some (p.killed, data)

/-- A `read` or a `write` that a signal interrupts. -/
def Process.interrupted (p : Process) : Option Process :=
  match p.stage with
  | .reading => some (p.ret .wait (-1))
  | .writing => some (p.ret .notify (-1))
  | _ => none

/-- The process without the descriptor `fd[0]`, if it has one. -/
def Process.dropFd0 (p : Process) : Process :=
  if p.pipe.fd0 ≠ -1 then
    { p with pipe := { p.pipe with fd0 := -1, files := (closeFd p.pipe.fd0 p.pipe.files).2 } }
  else p

/-- The process without the descriptor `fd[1]`, if it has one. -/
def Process.dropFd1 (p : Process) : Process :=
  if p.pipe.fd1 ≠ -1 then
    { p with pipe := { p.pipe with fd1 := -1, files := (closeFd p.pipe.fd1 p.pipe.files).2 } }
  else p

/-- A `close` of `sync_pipe_close`, which leaves the number in `fd`: the value of `r`, and the open
files. -/
def closeIfOpen (fd r : ℤ) (files : List (Option OpenFile)) : ℤ × List (Option OpenFile) :=
  if fd ≠ -1 then (if r = 0 ∧ (closeFd fd files).1 = 0 then 0 else -1, (closeFd fd files).2)
  else (r, files)

/-- The first system call of a call. -/
def Process.start (fifo : Option ℕ) (fresh : ℕ) (data : Bytes) (p : Process) :
    Call → Option (Process × Option ℕ × Bytes)
  | .create =>
    ({ p with pipe := { p.pipe with phase := .tryOpen } }.create fifo fresh).map
      fun (p, fifo) => (p, fifo, data)
  | .wait => some ({ p.dropFd1 with stage := .reading }, fifo, data)
  | .notify => some ({ p.dropFd0 with stage := .writing }, fifo, data)
  | .close =>
    let (r, files) := closeIfOpen p.pipe.fd0 0 p.pipe.files
    some ({ p with pipe := { p.pipe with files }, stage := .closing r }, fifo, data)

/-- A system call of a process: the process, the FIFO of the name, and the bytes behind it. -/
def Process.next (ends : List OpenFile) (fifo : Option ℕ) (fresh : ℕ) (data : Bytes) (p : Process) :
    Option (Process × Option ℕ × Bytes) :=
  match p.stage with
  | .ready =>
    match p.todo with
    | [] => none
    | c :: _ => p.start fifo fresh data c
  | .creating => (p.create fifo fresh).map fun (p, fifo) => (p, fifo, data)
  | .reading => (p.read ends data).map fun (p, data) => (p, fifo, data)
  | .writing => (p.write ends data).map fun (p, data) => (p, fifo, data)
  | .closing r =>
    let (r, files) := closeIfOpen p.pipe.fd1 r p.pipe.files
    some ({ p with pipe := { p.pipe with files }, stage := .unlinking r }, fifo, data)
  | .unlinking r => some (p.ret .close r, none, data)

/-! ### The two processes -/

structure World where
  fs : List Char → Option ℕ
  fresh : ℕ
  data : Bytes
  proc : Party → Process

/-- The open files of both processes. -/
def openEnds (proc : Party → Process) : List OpenFile :=
  (proc .parent).pipe.files.reduceOption ++ (proc .child).pipe.files.reduceOption

/-- The bytes that are left, those in FIFOs that some process has open. -/
def kept (proc : Party → Process) (data : Bytes) : Bytes :=
  data.filter fun m => decide (∃ file ∈ openEnds proc, file.ino = m.1)

/-- What happens next. -/
inductive Event where
  /-- A system call of one of the processes. -/
  | call (party : Party)
  /-- A signal that interrupts its `read` or `write`. -/
  | interrupt (party : Party)
deriving DecidableEq

/-- The world behind it. -/
def next (name : List Char) (s : World) : Event → Option World
  | .call party =>
    let path := generatePipeName name
    ((s.proc party).next (openEnds s.proc) (s.fs path) s.fresh s.data).map fun (p, fifo, data) =>
      { fs := Function.update s.fs path fifo
        fresh := s.fresh + 1
        data := kept (Function.update s.proc party p) data
        proc := Function.update s.proc party p }
  | .interrupt party =>
    (s.proc party).interrupted.map fun p => { s with proc := Function.update s.proc party p }

/-- The interleavings of the system calls of two processes that call the functions with the same
name, in whatever order, starting with no bytes in a FIFO, and of signals. -/
def notifyMachine (name : List Char) : Machine World Event where
  init s := s.data = [] ∧ ∀ party, (s.proc party).stage = .ready ∧ (s.proc party).log = []
  next := next name

/-! ### What is read has been written -/

/-- How often a call has returned a value. -/
def World.count (c : Call) (v : ℤ) (s : World) : ℕ :=
  (s.proc .parent).log.count (c, v) + (s.proc .child).log.count (c, v)

section Counts

variable {name : List Char} {ends : List OpenFile} {fifo fifo' : Option ℕ} {fresh : ℕ}
  {data data' : Bytes} {p p' : Process} {s s' : World} {party : Party}

theorem count_ret (p : Process) (c d : Call) (v w : ℤ) :
    (p.ret c v).log.count (d, w) = p.log.count (d, w) + if c = d ∧ v = w then 1 else 0 := by
  rw [Process.ret, List.count_append, List.count_singleton]
  simp only [beq_iff_eq, Prod.mk.injEq]

theorem count_ret_le (p : Process) (c d : Call) (v w : ℤ) :
    (p.ret c v).log.count (d, w) ≤ p.log.count (d, w) + 1 := by
  rw [count_ret]
  split <;> omega

/-- A system call of `sync_pipe_create` reports no other call. -/
theorem count_create {c : Call} (hc : c ≠ .create) {v : ℤ}
    (h : p.create fifo fresh = some (p', fifo')) :
    p'.log.count (c, v) = p.log.count (c, v) := by
  obtain ⟨⟨q, fifo''⟩, -, hq⟩ := Option.map_eq_some_iff.mp h
  dsimp only at hq
  split at hq
  · obtain ⟨rfl, -⟩ := Prod.mk.inj hq
    rw [count_ret, if_neg fun heq => hc heq.1.symm]
    rfl
  · obtain ⟨rfl, -⟩ := Prod.mk.inj hq
    rfl

theorem dropFd0_log (p : Process) : p.dropFd0.log = p.log := by
  rw [Process.dropFd0]
  split <;> rfl

theorem dropFd1_log (p : Process) : p.dropFd1.log = p.log := by
  rw [Process.dropFd1]
  split <;> rfl

/-- What a system call can do to the bytes and to the values returned. -/
def Accounted (data : Bytes) (p : Process) (data' : Bytes) (p' : Process) : Prop :=
  p'.log.count (.wait, 0) + data'.length + p.log.count (.notify, 0) ≤
    p.log.count (.wait, 0) + data.length + p'.log.count (.notify, 0)

theorem accounted_of_log_eq (h : p'.log = p.log) : Accounted data p data p' :=
  Nat.le_of_eq (by rw [h])

/-- A call that fails leaves the bytes as they are. -/
theorem accounted_failed (c : Call) : Accounted data p data (p.ret c (-1)) := by
  simp [Accounted, count_ret]

/-- A read takes a byte away when it is reported as a success. -/
theorem accounted_read (h : p.read ends data = some (p', data')) : Accounted data p data' p' := by
  have hfailed (h : some (p.ret .wait (-1), data) = some (p', data')) :
      Accounted data p data' p' := by
    obtain ⟨rfl, rfl⟩ := Prod.mk.inj (Option.some.inj h)
    exact accounted_failed .wait
  rw [Process.read] at h
  split at h
  · exact hfailed h
  · split at h
    · exact hfailed h
    · split at h
      · split at h
        · cases h
        · exact hfailed h
      · next m hm =>
        obtain ⟨rfl, rfl⟩ := Prod.mk.inj (Option.some.inj h)
        have hlen := List.length_erase_add_one (List.mem_of_find?_eq_some hm)
        generalize (if m.2 = 'A' then (0 : ℤ) else -1) = v
        have hle := count_ret_le p .wait .wait v 0
        rw [Accounted, count_ret p .wait .notify v 0, if_neg (by simp)]
        omega

/-- A write that is reported as a success has put a byte there. -/
theorem accounted_write (h : p.write ends data = some (p', data')) :
    Accounted data p data' p' := by
  rw [Process.write] at h
  split at h
  · obtain ⟨rfl, rfl⟩ := Prod.mk.inj (Option.some.inj h)
    exact accounted_failed .notify
  · split_ifs at h
    · obtain ⟨rfl, rfl⟩ := Prod.mk.inj (Option.some.inj h)
      exact accounted_failed .notify
    · obtain ⟨rfl, rfl⟩ := Prod.mk.inj (Option.some.inj h)
      rw [Accounted, count_ret, count_ret, if_neg (by simp), if_pos ⟨rfl, rfl⟩, List.length_append,
        List.length_singleton]
      omega
    · obtain ⟨rfl, rfl⟩ := Prod.mk.inj (Option.some.inj h)
      exact accounted_of_log_eq rfl

theorem accounted_interrupted (h : p.interrupted = some p') : Accounted data p data p' := by
  rw [Process.interrupted] at h
  split at h
  · obtain rfl := Option.some.inj h
    exact accounted_failed .wait
  · obtain rfl := Option.some.inj h
    exact accounted_failed .notify
  · cases h

theorem accounted_create (h : p.create fifo fresh = some (p', fifo')) :
    Accounted data p data p' :=
  Nat.le_of_eq (by rw [count_create (by decide) h, count_create (by decide) h])

/-- **A system call** puts a byte into a FIFO for every notification that it reports, and takes one
out for every wait. -/
theorem accounted_next (h : p.next ends fifo fresh data = some (p', fifo', data')) :
    Accounted data p data' p' := by
  rw [Process.next] at h
  split at h
  · split at h
    · cases h
    · next c _ _ =>
      cases c with
      | create =>
        obtain ⟨⟨q, fifo''⟩, hq, heq⟩ := Option.map_eq_some_iff.mp h
        obtain ⟨rfl, -, rfl⟩ : q = p' ∧ fifo'' = fifo' ∧ data = data' := by simpa using heq
        have hstep : Accounted data { p with pipe := { p.pipe with phase := .tryOpen } } data q :=
          accounted_create hq
        exact hstep
      | wait =>
        obtain ⟨rfl, -, rfl⟩ : _ = p' ∧ fifo = fifo' ∧ data = data' := by
          simpa [Process.start] using h
        exact accounted_of_log_eq (dropFd1_log p)
      | notify =>
        obtain ⟨rfl, -, rfl⟩ : _ = p' ∧ fifo = fifo' ∧ data = data' := by
          simpa [Process.start] using h
        exact accounted_of_log_eq (dropFd0_log p)
      | close =>
        obtain ⟨rfl, -, rfl⟩ : _ = p' ∧ fifo = fifo' ∧ data = data' := by
          simpa [Process.start] using h
        exact accounted_of_log_eq rfl
  · obtain ⟨⟨q, fifo''⟩, hq, heq⟩ := Option.map_eq_some_iff.mp h
    obtain ⟨rfl, -, rfl⟩ : q = p' ∧ fifo'' = fifo' ∧ data = data' := by simpa using heq
    exact accounted_create hq
  · obtain ⟨⟨q, data''⟩, hq, heq⟩ := Option.map_eq_some_iff.mp h
    obtain ⟨rfl, -, rfl⟩ : q = p' ∧ fifo = fifo' ∧ data'' = data' := by simpa using heq
    exact accounted_read hq
  · obtain ⟨⟨q, data''⟩, hq, heq⟩ := Option.map_eq_some_iff.mp h
    obtain ⟨rfl, -, rfl⟩ : q = p' ∧ fifo = fifo' ∧ data'' = data' := by simpa using heq
    exact accounted_write hq
  · obtain ⟨rfl, -, rfl⟩ : _ = p' ∧ fifo = fifo' ∧ data = data' := by simpa using h
    exact accounted_of_log_eq rfl
  · obtain ⟨rfl, -, rfl⟩ : _ = p' ∧ none = fifo' ∧ data = data' := by simpa using h
    rw [Accounted, count_ret, count_ret]
    simp

/-- **A system call** of one of the processes. -/
theorem next_call (h : next name s (.call party) = some s') :
    ∃ p fifo data, (s.proc party).next (openEnds s.proc) (s.fs (generatePipeName name)) s.fresh
        s.data = some (p, fifo, data) ∧
      s'.fs (generatePipeName name) = fifo ∧ s'.proc = Function.update s.proc party p ∧
      s'.data = kept s'.proc data := by
  obtain ⟨⟨p, fifo, data⟩, hnext, rfl⟩ := Option.map_eq_some_iff.mp h
  exact ⟨p, fifo, data, hnext, Function.update_self _ _ _, rfl, rfl⟩

/-- **An interruption** of one of the processes. -/
theorem next_interrupt (h : next name s (.interrupt party) = some s') :
    ∃ p, (s.proc party).interrupted = some p ∧ s'.proc = Function.update s.proc party p ∧
      s'.data = s.data := by
  obtain ⟨p, hp, rfl⟩ := Option.map_eq_some_iff.mp h
  exact ⟨p, hp, rfl, rfl⟩

/-- What one of the processes has returned more. -/
theorem count_step {c : Call} {v : ℤ} (h : s'.proc = Function.update s.proc party p) :
    s'.count c v + (s.proc party).log.count (c, v) = s.count c v + p.log.count (c, v) := by
  rw [World.count, World.count, h]
  cases party with
  | parent =>
    rw [Function.update_self, Function.update_of_ne (by decide)]
    omega
  | child =>
    rw [Function.update_self, Function.update_of_ne (by decide)]
    omega

/-- **What is read has been written.** In every run of two processes that make these calls in any
order, no more waits have returned 0, with the bytes that are still in a FIFO, than notifications
have. -/
theorem woken_add_length_le (h : (notifyMachine name).Reachable s) :
    s.count .wait 0 + s.data.length ≤ s.count .notify 0 := by
  refine h.invariant (I := fun s => s.count .wait 0 + s.data.length ≤ s.count .notify 0)
    (fun s hs => ?_) fun s event s' ih _ hnext => ?_
  · obtain ⟨hdata, hprocs⟩ := hs
    simp [World.count, hdata, (hprocs .parent).2, (hprocs .child).2]
  · obtain ⟨party, p, data, hproc, hstep, hdata⟩ : ∃ party p data,
        s'.proc = Function.update s.proc party p ∧ Accounted s.data (s.proc party) data p ∧
          s'.data.length ≤ data.length := by
      cases event with
      | call party =>
        obtain ⟨p, fifo, data, hp, -, hproc, hdata⟩ := next_call hnext
        refine ⟨party, p, data, hproc, accounted_next hp, ?_⟩
        rw [hdata, kept]
        exact List.length_filter_le _ _
      | interrupt party =>
        obtain ⟨p, hp, hproc, hdata⟩ := @next_interrupt name s s' party hnext
        exact ⟨party, p, s.data, hproc, accounted_interrupted hp,
          Nat.le_of_eq (congrArg List.length hdata)⟩
    have hwait := count_step (c := .wait) (v := 0) hproc
    have hnotify := count_step (c := .notify) (v := 0) hproc
    rw [Accounted] at hstep
    omega

end Counts

/-! ### Descriptors of the FIFO -/

/-- `fd[0]` is a descriptor of the FIFO, for reading and for writing. -/
def HasFd0 (ino : ℕ) (p : Process) : Prop :=
  ∃ d : ℕ, p.pipe.fd0 = d ∧ IsOpen p.pipe.files d ⟨ino, .rdwr⟩

/-- `fd[1]` is a descriptor of the FIFO, for reading and for writing. -/
def HasFd1 (ino : ℕ) (p : Process) : Prop :=
  ∃ d : ℕ, p.pipe.fd1 = d ∧ IsOpen p.pipe.files d ⟨ino, .rdwr⟩

section Descriptors

variable {ino d : ℕ} {file : OpenFile} {files : List (Option OpenFile)} {p : Process}

theorem fileOf_of_isOpen (h : IsOpen files d file) : fileOf d files = some file := by
  rw [fileOf, if_pos (by omega), Int.toNat_natCast, h]
  rfl

theorem closeFd_of_isOpen (h : IsOpen files d file) : closeFd d files = (0, files.set d none) := by
  rw [closeFd, fileOf_of_isOpen h]
  rfl

/-- A descriptor stays what it is when a different number is closed. -/
theorem IsOpen.closeFd (h : IsOpen files d file) {fd : ℤ} (hne : fd ≠ d) :
    IsOpen (SyncPipeNotify.closeFd fd files).2 d file := by
  rw [SyncPipeNotify.closeFd]
  split
  · exact h
  · next heq =>
    have hpos : 0 ≤ fd := by
      rw [fileOf] at heq
      split_ifs at heq with hpos
      exact hpos
    exact h.set_none (by omega)

theorem HasFd0.dropFd1 (h : HasFd0 ino p) (hne : p.pipe.fd1 ≠ p.pipe.fd0) :
    HasFd0 ino p.dropFd1 := by
  obtain ⟨d, hd, hopen⟩ := h
  rw [Process.dropFd1]
  split
  · exact ⟨d, hd, IsOpen.closeFd hopen (hd ▸ hne)⟩
  · exact ⟨d, hd, hopen⟩

theorem HasFd1.dropFd0 (h : HasFd1 ino p) (hne : p.pipe.fd0 ≠ p.pipe.fd1) :
    HasFd1 ino p.dropFd0 := by
  obtain ⟨d, hd, hopen⟩ := h
  rw [Process.dropFd0]
  split
  · exact ⟨d, hd, IsOpen.closeFd hopen (hd ▸ hne)⟩
  · exact ⟨d, hd, hopen⟩

theorem dropFd1_fd1 (p : Process) : p.dropFd1.pipe.fd1 = -1 := by
  rw [Process.dropFd1]
  split_ifs with h
  · rfl
  · exact not_not.mp h

theorem dropFd0_fd0 (p : Process) : p.dropFd0.pipe.fd0 = -1 := by
  rw [Process.dropFd0]
  split_ifs with h
  · rfl
  · exact not_not.mp h

theorem dropFd1_todo (p : Process) : p.dropFd1.todo = p.todo := by
  rw [Process.dropFd1]
  split <;> rfl

theorem dropFd0_todo (p : Process) : p.dropFd0.todo = p.todo := by
  rw [Process.dropFd0]
  split <;> rfl

/-- The open files of one of the processes are among those of both. -/
theorem mem_openEnds {proc : Party → Process} {party : Party}
    (h : some file ∈ (proc party).pipe.files) : file ∈ openEnds proc := by
  rw [openEnds, List.mem_append, List.reduceOption_mem_iff, List.reduceOption_mem_iff]
  cases party with
  | parent => exact .inl h
  | child => exact .inr h

/-- A descriptor from `sync_pipe_create` is one for reading and one for writing. -/
theorem HasFd0.mem_openEnds {proc : Party → Process} {party : Party}
    (h : HasFd0 ino (proc party)) : ⟨ino, .rdwr⟩ ∈ openEnds proc := by
  obtain ⟨d, -, hopen⟩ := h
  exact SyncPipeNotify.mem_openEnds hopen.mem

theorem HasFd1.mem_openEnds {proc : Party → Process} {party : Party}
    (h : HasFd1 ino (proc party)) : ⟨ino, .rdwr⟩ ∈ openEnds proc := by
  obtain ⟨d, -, hopen⟩ := h
  exact SyncPipeNotify.mem_openEnds hopen.mem

end Descriptors

/-! ### A parent and its child -/

/-- How far a parent has come that has opened the FIFO, with the calls `wait` and `close` before
it. -/
def ParentAt (ino : ℕ) : ℕ → Process → Prop
  | 0, p => p.stage = .creating ∧ p.pipe.phase = .openSecond p.pipe.fd0 ∧ HasFd0 ino p ∧
      p.todo = [.create, .wait, .close]
  | 1, p => p.stage = .ready ∧ HasFd0 ino p ∧ p.pipe.fd1 ≠ p.pipe.fd0 ∧ p.todo = [.wait, .close]
  | 2, p => p.stage = .reading ∧ HasFd0 ino p ∧ p.pipe.fd1 = -1 ∧ p.todo = [.wait, .close]
  | 3, p => p.stage = .ready ∧ HasFd0 ino p ∧ p.pipe.fd1 = -1 ∧ p.todo = [.close] ∧
      ∃ log, p.log = log ++ [(.wait, 0)]
  | 4, p => p.stage = .closing 0 ∧ p.pipe.fd1 = -1 ∧ p.todo = [.close] ∧
      ∃ log, p.log = log ++ [(.wait, 0)]
  | 5, p => p.stage = .unlinking 0 ∧ p.todo = [.close] ∧ ∃ log, p.log = log ++ [(.wait, 0)]
  | _, p => p.stage = .ready ∧ p.todo = [] ∧ ∃ log, p.log = log ++ [(.wait, 0), (.close, 0)]

/-- How far its child has come, which creates the FIFO of the same name for itself or has inherited
the descriptors of it. -/
def ChildAt (ino : ℕ) : ℕ → Process → Prop
  | 0, p => p.stage = .ready ∧ p.todo = [.create, .notify, .close]
  | 1, p => p.stage = .creating ∧ p.pipe.phase = .openSecond p.pipe.fd0 ∧ HasFd0 ino p ∧
      p.todo = [.create, .notify, .close]
  | 2, p => p.stage = .ready ∧ HasFd1 ino p ∧ p.pipe.fd0 ≠ p.pipe.fd1 ∧ p.todo = [.notify, .close]
  | 3, p => p.stage = .writing ∧ HasFd1 ino p ∧ p.pipe.fd0 = -1 ∧ p.todo = [.notify, .close]
  | 4, p => p.stage = .ready ∧ HasFd1 ino p ∧ p.pipe.fd0 = -1 ∧ p.todo = [.close] ∧
      ∃ log, p.log = log ++ [(.notify, 0)]
  | 5, p => p.stage = .closing 0 ∧ HasFd1 ino p ∧ p.todo = [.close] ∧
      ∃ log, p.log = log ++ [(.notify, 0)]
  | 6, p => p.stage = .unlinking 0 ∧ p.todo = [.close] ∧ ∃ log, p.log = log ++ [(.notify, 0)]
  | _, p => p.stage = .ready ∧ p.todo = [] ∧ ∃ log, p.log = log ++ [(.notify, 0), (.close, 0)]

section Progress

variable {ino k fresh : ℕ} {ends : List OpenFile} {fifo : Option ℕ} {data : Bytes} {p : Process}

theorem closeIfOpen_of_isOpen {d : ℕ} {file : OpenFile} {files : List (Option OpenFile)}
    (h : IsOpen files d file) : closeIfOpen d 0 files = (0, files.set d none) := by
  rw [closeIfOpen, if_pos (by omega), closeFd_of_isOpen h]
  rfl

theorem closeIfOpen_of_closed (r : ℤ) (files : List (Option OpenFile)) :
    closeIfOpen (-1) r files = (r, files) :=
  if_neg (not_not.mpr rfl)

/-- The process behind the first `close` of `sync_pipe_close`. -/
def Process.closedFirst (p : Process) : Process :=
  { p with
    pipe := { p.pipe with files := (closeIfOpen p.pipe.fd0 0 p.pipe.files).2 }
    stage := .closing (closeIfOpen p.pipe.fd0 0 p.pipe.files).1 }

/-- The process behind the second one. -/
def Process.closedSecond (r : ℤ) (p : Process) : Process :=
  { p with
    pipe := { p.pipe with files := (closeIfOpen p.pipe.fd1 r p.pipe.files).2 }
    stage := .unlinking (closeIfOpen p.pipe.fd1 r p.pipe.files).1 }

theorem next_close (hstage : p.stage = .ready) {rest : List Call}
    (htodo : p.todo = .close :: rest) :
    p.next ends fifo fresh data = some (p.closedFirst, fifo, data) := by
  rw [Process.next, hstage]
  dsimp only
  rw [htodo]
  rfl

theorem next_closing {r : ℤ} (hstage : p.stage = .closing r) :
    p.next ends fifo fresh data = some (p.closedSecond r, fifo, data) := by
  rw [Process.next, hstage]
  rfl

theorem next_unlinking {r : ℤ} (hstage : p.stage = .unlinking r) :
    p.next ends fifo fresh data = some (p.ret .close r, none, data) := by
  rw [Process.next, hstage]

/-- The process behind the first `open` of `sync_pipe_create`, of a FIFO. -/
def Process.opened (ino : ℕ) (p : Process) : Process :=
  { p with
    pipe := { p.pipe with
      phase := .openSecond (install ⟨ino, .rdwr⟩ p.pipe.files).1
      fd0 := (install ⟨ino, .rdwr⟩ p.pipe.files).1
      files := (install ⟨ino, .rdwr⟩ p.pipe.files).2 }
    stage := .creating }

theorem next_create_some (hstage : p.stage = .ready) {rest : List Call}
    (htodo : p.todo = .create :: rest) :
    p.next ends (some ino) fresh data = some (p.opened ino, some ino, data) := by
  rw [Process.next, hstage]
  dsimp only
  rw [htodo]
  dsimp only [Process.start, Process.create]
  rw [SyncPipe.next_tryOpen_some ino fresh rfl]
  rfl

/-- The process behind the last system call of `sync_pipe_create`. -/
def Process.created (fifo : Option ℕ) (p : Process) : Process :=
  { p with pipe := { p.pipe with
      phase := .returned p.pipe.fd0
      fd1 := (SyncPipe.openFifo fifo p.pipe.files).1
      files := (SyncPipe.openFifo fifo p.pipe.files).2 } }

theorem create_openSecond (hphase : p.pipe.phase = .openSecond p.pipe.fd0) :
    p.create fifo fresh = some ((p.created fifo).ret .create p.pipe.fd0, fifo) := by
  rw [Process.create, SyncPipe.next_openSecond fifo fresh hphase]
  rfl

/-- The two descriptors are different. -/
theorem created_ne (h : HasFd0 ino p) : (p.created fifo).pipe.fd1 ≠ (p.created fifo).pipe.fd0 := by
  obtain ⟨d, hd, hopen⟩ := h
  cases fifo with
  | none => exact fun heq => by rw [show (p.created none).pipe.fd0 = d from hd] at heq; cases heq
  | some ino' =>
    intro heq
    have heq : ((install (⟨ino', .rdwr⟩ : OpenFile) p.pipe.files).1 : ℤ) = d := heq.trans hd
    exact hopen.ne_install ⟨ino', .rdwr⟩ (by exact_mod_cast heq)

theorem HasFd0.created (h : HasFd0 ino p) (fifo : Option ℕ) : HasFd0 ino (p.created fifo) := by
  obtain ⟨d, hd, hopen⟩ := h
  cases fifo with
  | none => exact ⟨d, hd, hopen⟩
  | some ino' => exact ⟨d, hd, hopen.install _⟩

theorem hasFd1_created (p : Process) : HasFd1 ino (p.created (some ino)) :=
  ⟨_, rfl, isOpen_install _ p.pipe.files⟩

/-- The read of the byte that is there. -/
theorem read_of_mem (h : HasFd0 ino p) :
    p.read ends [(ino, 'A')] = some (p.ret .wait 0, []) := by
  obtain ⟨d, hd, hopen⟩ := h
  rw [Process.read, hd, fileOf_of_isOpen hopen]
  simp

/-- A read of an empty FIFO that is open for writing blocks. -/
theorem read_of_forall_ne (h : HasFd0 ino p) (hends : ⟨ino, .rdwr⟩ ∈ ends)
    (hdata : ∀ m ∈ data, m.1 ≠ ino) : p.read ends data = none := by
  obtain ⟨d, hd, hopen⟩ := h
  have hnone : data.find? (fun m => decide (m.1 = ino)) = none :=
    List.find?_eq_none.mpr fun m hm => by simpa using hdata m hm
  rw [Process.read, hd, fileOf_of_isOpen hopen]
  dsimp only
  rw [if_neg (by decide), hnone]
  exact if_pos ⟨_, hends, rfl, nofun⟩

theorem write_of_nil (h : HasFd1 ino p) (hends : ⟨ino, .rdwr⟩ ∈ ends) :
    p.write ends [] = some (p.ret .notify 0, [(ino, 'A')]) := by
  obtain ⟨d, hd, hopen⟩ := h
  rw [Process.write, hd, fileOf_of_isOpen hopen]
  dsimp only
  rw [if_neg (by decide), if_pos ⟨_, hends, rfl, nofun⟩]
  rfl

/-- **A step of the parent.** It goes on, unless it is to read and there is no byte. -/
theorem ParentAt.exists_next (h : ParentAt ino k p) (hk : k < 6)
    (hdata : k = 2 → data = [(ino, 'A')]) :
    ∃ p', p.next ends fifo fresh data =
        some (p', if k = 5 then none else fifo, if k = 2 then [] else data) ∧
      ParentAt ino (k + 1) p' := by
  match k, hk with
  | 0, _ =>
    obtain ⟨hstage, hphase, hfd0, htodo⟩ := h
    refine ⟨(p.created fifo).ret .create p.pipe.fd0, ?_, rfl, hfd0.created fifo,
      created_ne hfd0, ?_⟩
    · rw [Process.next, hstage]
      dsimp only
      rw [create_openSecond hphase]
      rfl
    · exact congrArg List.tail htodo
  | 1, _ =>
    obtain ⟨hstage, hfd0, hne, htodo⟩ := h
    refine ⟨{ p.dropFd1 with stage := .reading }, ?_, rfl, hfd0.dropFd1 hne, dropFd1_fd1 p,
      (dropFd1_todo p).trans htodo⟩
    rw [Process.next, hstage, htodo]
    rfl
  | 2, _ =>
    obtain ⟨hstage, hfd0, hfd1, htodo⟩ := h
    refine ⟨p.ret .wait 0, ?_, rfl, hfd0, hfd1, congrArg List.tail htodo, p.log, rfl⟩
    rw [Process.next, hstage, hdata rfl]
    dsimp only
    rw [read_of_mem hfd0]
    rfl
  | 3, _ =>
    obtain ⟨hstage, ⟨d, hd, hopen⟩, hfd1, htodo, hlog⟩ := h
    refine ⟨p.closedFirst, next_close hstage htodo, ?_, hfd1, htodo, hlog⟩
    rw [Process.closedFirst, hd, closeIfOpen_of_isOpen hopen]
  | 4, _ =>
    obtain ⟨hstage, hfd1, htodo, hlog⟩ := h
    refine ⟨p.closedSecond 0, next_closing hstage, ?_, htodo, hlog⟩
    rw [Process.closedSecond, hfd1, closeIfOpen_of_closed]
  | 5, _ =>
    obtain ⟨hstage, htodo, log, hlog⟩ := h
    refine ⟨p.ret .close 0, next_unlinking hstage, rfl, congrArg List.tail htodo, log, ?_⟩
    rw [Process.ret, hlog, List.append_assoc]
    rfl

/-- A parent that is to read waits for a byte. -/
theorem ParentAt.next_eq_none (h : ParentAt ino 2 p) (hends : ⟨ino, .rdwr⟩ ∈ ends) :
    p.next ends fifo fresh [] = none := by
  obtain ⟨hstage, hfd0, -⟩ := h
  rw [Process.next, hstage]
  dsimp only
  rw [read_of_forall_ne hfd0 hends (List.forall_mem_nil _)]
  rfl

/-- **A step of the child.** -/
theorem ChildAt.exists_next (h : ChildAt ino k p) (hk : k < 7)
    (hends : k = 3 → ⟨ino, .rdwr⟩ ∈ ends) (hfifo : k ≤ 1 → fifo = some ino)
    (hdata : k = 3 → data = []) :
    ∃ p', p.next ends fifo fresh data =
        some (p', if k = 6 then none else fifo, if k = 3 then [(ino, 'A')] else data) ∧
      ChildAt ino (k + 1) p' := by
  match k, hk with
  | 0, _ =>
    obtain ⟨hstage, htodo⟩ := h
    obtain rfl := hfifo (by decide)
    exact ⟨p.opened ino, next_create_some hstage htodo, rfl, rfl,
      ⟨_, rfl, isOpen_install _ p.pipe.files⟩, htodo⟩
  | 1, _ =>
    obtain ⟨hstage, hphase, hfd0, htodo⟩ := h
    obtain rfl := hfifo (by decide)
    refine ⟨(p.created (some ino)).ret .create p.pipe.fd0, ?_, rfl, hasFd1_created p,
      (created_ne hfd0).symm, ?_⟩
    · rw [Process.next, hstage]
      dsimp only
      rw [create_openSecond hphase]
      rfl
    · exact congrArg List.tail htodo
  | 2, _ =>
    obtain ⟨hstage, hfd1, hne, htodo⟩ := h
    refine ⟨{ p.dropFd0 with stage := .writing }, ?_, rfl, hfd1.dropFd0 hne, dropFd0_fd0 p,
      (dropFd0_todo p).trans htodo⟩
    rw [Process.next, hstage, htodo]
    rfl
  | 3, _ =>
    obtain ⟨hstage, hfd1, hfd0, htodo⟩ := h
    refine ⟨p.ret .notify 0, ?_, rfl, hfd1, hfd0, congrArg List.tail htodo, p.log, rfl⟩
    rw [Process.next, hstage, hdata rfl]
    dsimp only
    rw [write_of_nil hfd1 (hends rfl)]
    rfl
  | 4, _ =>
    obtain ⟨hstage, hfd1, hfd0, htodo, hlog⟩ := h
    refine ⟨p.closedFirst, next_close hstage htodo, ?_, ?_, htodo, hlog⟩
    · rw [Process.closedFirst, hfd0, closeIfOpen_of_closed]
    · rwa [HasFd1, Process.closedFirst, hfd0, closeIfOpen_of_closed]
  | 5, _ =>
    obtain ⟨hstage, ⟨d, hd, hopen⟩, htodo, hlog⟩ := h
    refine ⟨p.closedSecond 0, next_closing hstage, ?_, htodo, hlog⟩
    rw [Process.closedSecond, hd, closeIfOpen_of_isOpen hopen]
  | 6, _ =>
    obtain ⟨hstage, htodo, log, hlog⟩ := h
    refine ⟨p.ret .close 0, next_unlinking hstage, rfl, congrArg List.tail htodo, log, ?_⟩
    rw [Process.ret, hlog, List.append_assoc]
    rfl

end Progress

/-! ### The two together -/

/-- The processes have come so far, and the byte is in the FIFO from when the child has written it
to when the parent has read it. -/
structure Handshake (name : List Char) (ino i j : ℕ) (s : World) : Prop where
  parent : ParentAt ino i (s.proc .parent)
  child : ChildAt ino j (s.proc .child)
  parent_le : i ≤ 6
  child_le : j ≤ 7
  data : s.data = if 4 ≤ j ∧ i ≤ 2 then [(ino, 'A')] else []
  order : 3 ≤ i → 4 ≤ j
  fifo : j ≤ 3 → s.fs (generatePipeName name) = some ino
  gone : i = 6 ∨ j = 7 → s.fs (generatePipeName name) = none

/-- A parent that has opened the FIFO, and its child in front of its calls. -/
def Prepared (name : List Char) (ino : ℕ) (s : World) : Prop :=
  s.data = [] ∧ s.fs (generatePipeName name) = some ino ∧
    (ParentAt ino 0 (s.proc .parent) ∨ ParentAt ino 1 (s.proc .parent)) ∧
    (ChildAt ino 0 (s.proc .child) ∨ ChildAt ino 2 (s.proc .child))

/-- Both processes have returned from all their calls with 0, the name has been removed, and no byte
is left. -/
structure Finished (name : List Char) (s : World) : Prop where
  todo : ∀ party, (s.proc party).stage = .ready ∧ (s.proc party).todo = []
  parent : ∃ log, (s.proc .parent).log = log ++ [(.wait, 0), (.close, 0)]
  child : ∃ log, (s.proc .child).log = log ++ [(.notify, 0), (.close, 0)]
  fifo : s.fs (generatePipeName name) = none
  data : s.data = []

section Together

variable {name : List Char} {ino i j : ℕ} {s s' : World} {party : Party}
  {parties : List Party}

theorem Prepared.progress (h : Prepared name ino s) :
    ∃ i j, i ≤ 1 ∧ j ≤ 2 ∧ Handshake name ino i j s := by
  obtain ⟨hdata, hfifo, hparent, hchild⟩ := h
  obtain ⟨i, hi, hparent⟩ : ∃ i ≤ 1, ParentAt ino i (s.proc .parent) := by
    rcases hparent with h | h
    · exact ⟨0, by decide, h⟩
    · exact ⟨1, by decide, h⟩
  obtain ⟨j, hj, hchild⟩ : ∃ j ≤ 2, ChildAt ino j (s.proc .child) := by
    rcases hchild with h | h
    · exact ⟨0, by decide, h⟩
    · exact ⟨2, by decide, h⟩
  refine ⟨i, j, hi, hj, hparent, hchild, by omega, by omega, ?_, by omega, fun _ => hfifo, by omega⟩
  rw [hdata, if_neg (by omega)]

/-- A byte for the parent is kept. -/
theorem ParentAt.hasFd0 {p : Process} (h : ParentAt ino i p) (hi : i ≤ 2) : HasFd0 ino p := by
  match i, hi with
  | 0, _ => exact h.2.2.1
  | 1, _ => exact h.2.1
  | 2, _ => exact h.2.1

theorem ChildAt.hasFd1 {p : Process} (h : ChildAt ino j p) (hj : j = 3) : HasFd1 ino p := by
  subst hj
  exact h.2.1

theorem kept_of_hasFd0 {proc : Party → Process} (party : Party) (h : HasFd0 ino (proc party)) :
    kept proc [(ino, 'A')] = [(ino, 'A')] :=
  List.filter_eq_self.mpr fun m hm => by
    obtain rfl := List.mem_singleton.mp hm
    exact decide_eq_true ⟨_, h.mem_openEnds, rfl⟩

theorem next_eq_none_of_todo {p : Process} (hstage : p.stage = .ready) (htodo : p.todo = [])
    (ends : List OpenFile) (fifo : Option ℕ) (fresh : ℕ) (data : Bytes) :
    p.next ends fifo fresh data = none := by
  rw [Process.next, hstage]
  dsimp only
  rw [htodo]

/-- The world behind a system call of a process. -/
theorem world_of_next {p' : Process} {fifo' : Option ℕ} {data' : Bytes}
    (hp : (s.proc party).next (openEnds s.proc) (s.fs (generatePipeName name)) s.fresh s.data =
      some (p', fifo', data'))
    (h : next name s (.call party) = some s') :
    s'.fs (generatePipeName name) = fifo' ∧ s'.proc = Function.update s.proc party p' ∧
      s'.data = kept s'.proc data' := by
  obtain ⟨q, fifo, data, hq, hfs, hproc, hdata⟩ := next_call h
  obtain ⟨rfl, rfl, rfl⟩ : q = p' ∧ fifo = fifo' ∧ data = data' := by
    simpa using hq.symm.trans hp
  exact ⟨hfs, hproc, hdata⟩

/-- The system call of a parent that does not wait for a byte. -/
theorem Handshake.exists_next_parent (h : Handshake name ino i j s) (hi : i < 6)
    (hbyte : i = 2 → 4 ≤ j) :
    ∃ p', (s.proc .parent).next (openEnds s.proc) (s.fs (generatePipeName name)) s.fresh s.data =
        some (p', if i = 5 then none else s.fs (generatePipeName name),
          if i = 2 then [] else s.data) ∧ ParentAt ino (i + 1) p' :=
  h.parent.exists_next hi fun hi => by rw [h.data, if_pos ⟨hbyte hi, by omega⟩]

/-- The system call of a child. -/
theorem Handshake.exists_next_child (h : Handshake name ino i j s) (hj : j < 7) :
    ∃ p', (s.proc .child).next (openEnds s.proc) (s.fs (generatePipeName name)) s.fresh s.data =
        some (p', if j = 6 then none else s.fs (generatePipeName name),
          if j = 3 then [(ino, 'A')] else s.data) ∧ ChildAt ino (j + 1) p' :=
  h.child.exists_next hj (fun hj => (h.child.hasFd1 hj).mem_openEnds) (fun hj => h.fifo (by omega))
    fun hj => by rw [h.data, if_neg (by omega)]

/-- **The parent goes on.** -/
theorem Handshake.next_parent (h : Handshake name ino i j s)
    (hnext : SyncPipeNotify.next name s (.call .parent) = some s') :
    Handshake name ino (i + 1) j s' := by
  have hparent := h.parent
  have hlt : i < 6 := by
    refine Nat.lt_of_le_of_ne h.parent_le ?_
    rintro rfl
    obtain ⟨p, fifo, data, hp, -⟩ := next_call hnext
    rw [next_eq_none_of_todo hparent.1 hparent.2.1] at hp
    cases hp
  have hbyte : i = 2 → 4 ≤ j := by
    rintro rfl
    by_contra hj
    obtain ⟨p, fifo, data, hp, -⟩ := next_call hnext
    rw [h.data, if_neg fun hand => hj hand.1,
      hparent.next_eq_none (hparent.hasFd0 (by decide)).mem_openEnds] at hp
    cases hp
  obtain ⟨p', hp', hparent'⟩ := h.exists_next_parent hlt hbyte
  obtain ⟨hfs, hproc, hdata⟩ := world_of_next hp' hnext
  have hself : s'.proc .parent = p' := by rw [hproc, Function.update_self]
  have hother : s'.proc .child = s.proc .child := by
    rw [hproc, Function.update_of_ne (by decide)]
  refine ⟨hself ▸ hparent', hother ▸ h.child, hlt, h.child_le, ?_, fun hi => ?_, fun hj => ?_,
    fun hend => ?_⟩
  · rw [hdata, h.data]
    by_cases hi : i = 2
    · rw [if_pos hi, if_neg (by omega)]
      rfl
    · rw [if_neg hi]
      by_cases hboth : 4 ≤ j ∧ i ≤ 2
      · have hi' : i + 1 ≤ 2 := by omega
        rw [if_pos hboth, if_pos ⟨hboth.1, hi'⟩]
        exact kept_of_hasFd0 .parent (hself ▸ hparent'.hasFd0 hi')
      · rw [if_neg hboth, if_neg (by omega)]
        rfl
  · by_cases hi' : i = 2
    · exact hbyte hi'
    · exact h.order (by omega)
  · have hi := h.order
    rw [hfs, if_neg (by omega)]
    exact h.fifo hj
  · rw [hfs]
    split_ifs
    · rfl
    · exact h.gone (by omega)

/-- **The child goes on.** -/
theorem Handshake.next_child (h : Handshake name ino i j s)
    (hnext : SyncPipeNotify.next name s (.call .child) = some s') :
    Handshake name ino i (j + 1) s' := by
  have hchild := h.child
  have hlt : j < 7 := by
    refine Nat.lt_of_le_of_ne h.child_le ?_
    rintro rfl
    obtain ⟨p, fifo, data, hp, -⟩ := next_call hnext
    rw [next_eq_none_of_todo hchild.1 hchild.2.1] at hp
    cases hp
  have horder := h.order
  obtain ⟨p', hp', hchild'⟩ := h.exists_next_child hlt
  obtain ⟨hfs, hproc, hdata⟩ := world_of_next hp' hnext
  have hself : s'.proc .child = p' := by rw [hproc, Function.update_self]
  have hother : s'.proc .parent = s.proc .parent := by
    rw [hproc, Function.update_of_ne (by decide)]
  refine ⟨hother ▸ h.parent, hself ▸ hchild', h.parent_le, hlt, ?_, fun hi => ?_, fun hj => ?_,
    fun hend => ?_⟩
  · rw [hdata, h.data]
    by_cases hi : i ≤ 2
    · have hbyte : kept s'.proc [(ino, 'A')] = [(ino, 'A')] :=
        kept_of_hasFd0 .parent (hother ▸ h.parent.hasFd0 hi)
      by_cases hj : j = 3
      · rw [if_pos hj, if_pos ⟨by omega, hi⟩]
        exact hbyte
      · rw [if_neg hj]
        by_cases hj' : 4 ≤ j
        · rw [if_pos ⟨hj', hi⟩, if_pos ⟨by omega, hi⟩]
          exact hbyte
        · rw [if_neg (by omega), if_neg (by omega)]
          rfl
    · have hj : 4 ≤ j := horder (by omega)
      rw [if_neg (by omega), if_neg (by omega), if_neg (by omega)]
      rfl
  · have hj := horder hi
    omega
  · rw [hfs, if_neg (by omega)]
    exact h.fifo (by omega)
  · rw [hfs]
    split_ifs
    · rfl
    · exact h.gone (by omega)

theorem exists_world {p' : Process} {fifo' : Option ℕ} {data' : Bytes}
    (hp : (s.proc party).next (openEnds s.proc) (s.fs (generatePipeName name)) s.fresh s.data =
      some (p', fifo', data')) : ∃ s', next name s (.call party) = some s' :=
  ⟨_, Option.map_eq_some_iff.mpr ⟨_, hp, rfl⟩⟩

/-- **One of the processes can go on**, until both are finished. -/
theorem Handshake.exists_next_or_finished (h : Handshake name ino i j s) :
    (∃ party s', next name s (.call party) = some s') ∨ Finished name s := by
  have hi := h.parent_le
  have hj := h.child_le
  by_cases hchild : j < 7
  · obtain ⟨p', hp', -⟩ := h.exists_next_child hchild
    exact .inl ⟨.child, exists_world hp'⟩
  · obtain rfl : j = 7 := by omega
    by_cases hparent : i < 6
    · obtain ⟨p', hp', -⟩ := h.exists_next_parent hparent fun _ => by decide
      exact .inl ⟨.parent, exists_world hp'⟩
    · obtain rfl : i = 6 := by omega
      refine .inr ⟨fun party => ?_, h.parent.2.2, h.child.2.2, h.gone (.inl rfl), ?_⟩
      · cases party with
        | parent => exact ⟨h.parent.1, h.parent.2.1⟩
        | child => exact ⟨h.child.1, h.child.2.1⟩
      · rw [h.data, if_neg (by decide)]

/-- **The parent and its child.** When the parent has opened the FIFO, or has created it, and the
child creates it too or has inherited the descriptors, the two, if no signal interrupts them, make
at most thirteen system calls in whatever order, never wait for each other for ever, and in the end
the parent has been woken and everything is removed. -/
theorem wait_notify (h : Prepared name ino s)
    (hrun : (notifyMachine name).exec s (parties.map .call) = some s') :
    parties.length ≤ 13 ∧
      ((∃ party s'', next name s' (.call party) = some s'') ∨ Finished name s') := by
  obtain ⟨i, j, -, -, hstart⟩ := h.progress
  obtain ⟨i', j', hlen, hend⟩ := Machine.exec_invariant
    (I := fun ls s => (∀ l ∈ ls, ∃ party, l = .call party) →
      ∃ i' j', i + j + ls.length = i' + j' ∧ Handshake name ino i' j' s) hrun
    (fun _ => ⟨i, j, rfl, hstart⟩) (fun before s event s' ih hnext hcalls => by
      obtain ⟨i', j', hlen, hs⟩ := ih fun l hl => hcalls l (List.mem_append_left _ hl)
      obtain ⟨party, rfl⟩ := hcalls event (List.mem_append_right _ List.mem_cons_self)
      rw [List.length_append, List.length_singleton]
      cases party with
      | parent => exact ⟨i' + 1, j', by omega, hs.next_parent hnext⟩
      | child => exact ⟨i', j' + 1, by omega, hs.next_child hnext⟩)
    fun l hl => (List.mem_map.mp hl).imp fun _ hparty => hparty.2.symm
  rw [List.length_map] at hlen
  have hi := hend.parent_le
  have hj := hend.child_le
  exact ⟨by omega, hend.exists_next_or_finished⟩

end Together

/-! ### A process that does not notify -/

/-- The process is not in a call of `sync_pipe_notify`, and has none before it. -/
def Silent (p : Process) : Prop := p.stage ≠ .writing ∧ .notify ∉ p.todo

/-- The process is in a call of `sync_pipe_wait`, or before one. -/
def Waiting (ino : ℕ) (p : Process) : Prop :=
  HasFd0 ino p ∧
    (p.stage = .reading ∨ p.stage = .ready ∧ p.todo.head? = some .wait ∧ p.pipe.fd1 ≠ p.pipe.fd0)

section Silence

variable {name : List Char} {ino fresh : ℕ} {ends : List OpenFile} {fifo fifo' : Option ℕ}
  {data data' : Bytes} {p p' : Process} {s s' : World} {events : List Event}

theorem silent_ret (h : .notify ∉ p.todo) (c : Call) (v : ℤ) : Silent (p.ret c v) :=
  ⟨by rw [Process.ret]; simp, fun hmem => h (List.mem_of_mem_tail hmem)⟩

theorem silent_create (htodo : .notify ∉ p.todo) (h : p.create fifo fresh = some (p', fifo')) :
    Silent p' := by
  obtain ⟨⟨q, fifo''⟩, -, hq⟩ := Option.map_eq_some_iff.mp h
  dsimp only at hq
  split at hq
  · obtain ⟨rfl, -⟩ := Prod.mk.inj hq
    exact silent_ret (p := { p with pipe := q }) htodo .create _
  · obtain ⟨rfl, -⟩ := Prod.mk.inj hq
    exact ⟨by simp, htodo⟩

theorem silent_read (htodo : .notify ∉ p.todo) (h : p.read ends data = some (p', data')) :
    Silent p' ∧ data' ⊆ data := by
  have hfailed (h : some (p.ret .wait (-1), data) = some (p', data')) :
      Silent p' ∧ data' ⊆ data := by
    obtain ⟨rfl, rfl⟩ := Prod.mk.inj (Option.some.inj h)
    exact ⟨silent_ret htodo .wait _, List.Subset.refl _⟩
  rw [Process.read] at h
  split at h
  · exact hfailed h
  · split at h
    · exact hfailed h
    · split at h
      · split at h
        · cases h
        · exact hfailed h
      · obtain ⟨rfl, rfl⟩ := Prod.mk.inj (Option.some.inj h)
        exact ⟨silent_ret htodo .wait _, List.erase_subset⟩

theorem silent_interrupted (hp : Silent p) (h : p.interrupted = some p') : Silent p' := by
  rw [Process.interrupted] at h
  split at h
  · obtain rfl := Option.some.inj h
    exact silent_ret hp.2 .wait _
  · next hwriting => exact absurd hwriting hp.1
  · cases h

/-- **A process that does not notify** puts no byte into a FIFO. -/
theorem Silent.next (hp : Silent p) (h : p.next ends fifo fresh data = some (p', fifo', data')) :
    Silent p' ∧ data' ⊆ data := by
  obtain ⟨hstage, htodo⟩ := hp
  rw [Process.next] at h
  split at h
  · split at h
    · cases h
    · next c rest hcalls =>
      cases c with
      | create =>
        obtain ⟨⟨q, fifo''⟩, hq, heq⟩ := Option.map_eq_some_iff.mp h
        obtain ⟨rfl, -, rfl⟩ : q = p' ∧ fifo'' = fifo' ∧ data = data' := by simpa using heq
        exact ⟨silent_create (p := { p with pipe := { p.pipe with phase := .tryOpen } }) htodo hq,
          List.Subset.refl _⟩
      | wait =>
        obtain ⟨rfl, -, rfl⟩ : _ = p' ∧ fifo = fifo' ∧ data = data' := by
          simpa [Process.start] using h
        exact ⟨⟨by simp, by rwa [dropFd1_todo]⟩, List.Subset.refl _⟩
      | notify => exact absurd (by rw [hcalls]; exact List.mem_cons_self) htodo
      | close =>
        obtain ⟨rfl, -, rfl⟩ : _ = p' ∧ fifo = fifo' ∧ data = data' := by
          simpa [Process.start] using h
        exact ⟨⟨by simp, htodo⟩, List.Subset.refl _⟩
  · obtain ⟨⟨q, fifo''⟩, hq, heq⟩ := Option.map_eq_some_iff.mp h
    obtain ⟨rfl, -, rfl⟩ : q = p' ∧ fifo'' = fifo' ∧ data = data' := by simpa using heq
    exact ⟨silent_create htodo hq, List.Subset.refl _⟩
  · obtain ⟨⟨q, data''⟩, hq, heq⟩ := Option.map_eq_some_iff.mp h
    obtain ⟨rfl, -, rfl⟩ : q = p' ∧ fifo = fifo' ∧ data'' = data' := by simpa using heq
    exact silent_read htodo hq
  · next hwriting => exact absurd hwriting hstage
  · obtain ⟨rfl, -, rfl⟩ : _ = p' ∧ fifo = fifo' ∧ data = data' := by simpa using h
    exact ⟨⟨by simp, htodo⟩, List.Subset.refl _⟩
  · obtain ⟨rfl, -, rfl⟩ : _ = p' ∧ none = fifo' ∧ data = data' := by simpa using h
    exact ⟨silent_ret htodo .close _, List.Subset.refl _⟩

/-- **A process that waits** gets no further than its read, where there is no byte. -/
theorem Waiting.next (hp : Waiting ino p) (hends : ⟨ino, .rdwr⟩ ∈ ends)
    (hdata : ∀ m ∈ data, m.1 ≠ ino)
    (h : p.next ends fifo fresh data = some (p', fifo', data')) :
    Waiting ino p' ∧ p'.log = p.log ∧ data' = data := by
  obtain ⟨hfd0, hreading | ⟨hready, htodo, hne⟩⟩ := hp
  · rw [Process.next, hreading] at h
    dsimp only at h
    rw [read_of_forall_ne hfd0 hends hdata] at h
    cases h
  · obtain ⟨rest, htodo⟩ := List.head?_eq_some_iff.mp htodo
    rw [Process.next, hready] at h
    dsimp only at h
    rw [htodo] at h
    obtain ⟨rfl, -, rfl⟩ : _ = p' ∧ fifo = fifo' ∧ data = data' := by simpa [Process.start] using h
    exact ⟨⟨hfd0.dropFd1 hne, .inl rfl⟩, dropFd1_log p, rfl⟩

/-- The parent waits, the child does not notify, and there is no byte for the parent. -/
structure Unnotified (ino : ℕ) (s : World) : Prop where
  parent : Waiting ino (s.proc .parent)
  child : Silent (s.proc .child)
  data : ∀ m ∈ s.data, m.1 ≠ ino

/-- **A step** that does not interrupt the parent. -/
theorem Unnotified.next (h : Unnotified ino s) {event : Event} (hevent : event ≠ .interrupt .parent)
    (hnext : SyncPipeNotify.next name s event = some s') :
    Unnotified ino s' ∧ (s'.proc .parent).log = (s.proc .parent).log := by
  cases event with
  | call party =>
    obtain ⟨p, fifo, data, hp, -, hproc, hkept⟩ := next_call hnext
    have hsub : s'.data ⊆ data := hkept ▸ List.filter_subset_self _
    cases party with
    | parent =>
      obtain ⟨hp', hlog', rfl⟩ := h.parent.next h.parent.1.mem_openEnds h.data hp
      have hself : s'.proc .parent = p := by rw [hproc, Function.update_self]
      have hother : s'.proc .child = s.proc .child := by
        rw [hproc, Function.update_of_ne (by decide)]
      exact ⟨⟨hself ▸ hp', hother ▸ h.child, fun m hm => h.data m (hsub hm)⟩, hself ▸ hlog'⟩
    | child =>
      obtain ⟨hp', hdata'⟩ := h.child.next hp
      have hself : s'.proc .child = p := by rw [hproc, Function.update_self]
      have hother : s'.proc .parent = s.proc .parent := by
        rw [hproc, Function.update_of_ne (by decide)]
      exact ⟨⟨hother ▸ h.parent, hself ▸ hp', fun m hm => h.data m (hdata' (hsub hm))⟩,
        by rw [hother]⟩
  | interrupt party =>
    cases party with
    | parent => exact absurd rfl hevent
    | child =>
      obtain ⟨p, hp, hproc, hdata⟩ := next_interrupt hnext
      have hself : s'.proc .child = p := by rw [hproc, Function.update_self]
      have hother : s'.proc .parent = s.proc .parent := by
        rw [hproc, Function.update_of_ne (by decide)]
      exact ⟨⟨hother ▸ h.parent, hself ▸ silent_interrupted h.child hp, hdata ▸ h.data⟩,
        by rw [hother]⟩

/-- **A wait without a notification.** A parent that waits for a child that makes no call of
`sync_pipe_notify` is returned nothing unless a signal interrupts it, whatever other calls the child
makes. Its own descriptor keeps the FIFO open for writing. -/
theorem wait_unreturned (h : Unnotified ino s) (hevents : .interrupt .parent ∉ events)
    (hrun : (notifyMachine name).exec s events = some s') :
    (s'.proc .parent).log = (s.proc .parent).log := by
  refine (Machine.exec_invariant (I := fun before t => .interrupt .parent ∉ before →
    Unnotified ino t ∧ (t.proc .parent).log = (s.proc .parent).log) hrun (fun _ => ⟨h, rfl⟩)
    (fun before t event t' ih hnext hbefore => ?_) hevents).2
  obtain ⟨ht, hlog⟩ := ih fun hmem => hbefore (List.mem_append_left _ hmem)
  have hevent : event ≠ .interrupt .parent := by
    rintro rfl
    exact hbefore (List.mem_append_right _ List.mem_cons_self)
  obtain ⟨ht', hlog'⟩ := ht.next hevent hnext
  exact ⟨ht', hlog'.trans hlog⟩

end Silence

/-! ### A parent that has inherited its descriptors on -/

/-- The descriptors 3 and 4, opened in these modes, behind the standard streams. -/
def forked (mode₀ mode₁ : AccessMode) (todo : List Call) : Process where
  pipe := { phase := .returned 0, fd0 := 3, fd1 := 4,
            files := [none, none, none, some ⟨7, mode₀⟩, some ⟨7, mode₁⟩] }
  stage := .ready
  todo := todo
  log := []

/-- A parent that waits, and a child that was forked with its descriptors and notifies or does
not. -/
def forkedWith (mode₀ mode₁ : AccessMode) (calls : List Call) : World where
  fs path := if path = generatePipeName "sync".toList then some 7 else none
  fresh := 8
  data := []
  proc
    | .parent => forked mode₀ mode₁ [.wait, .close]
    | .child => forked mode₀ mode₁ calls

/-- The two with the descriptors that `sync_pipe_create` opens. -/
def forkedWorld (calls : List Call) : World := forkedWith .rdwr .rdwr calls

theorem forked_hasFd0 (todo : List Call) : HasFd0 7 (forked .rdwr .rdwr todo) := ⟨3, rfl, rfl⟩

theorem forked_hasFd1 (todo : List Call) : HasFd1 7 (forked .rdwr .rdwr todo) := ⟨4, rfl, rfl⟩

theorem forkedWorld_reachable (calls : List Call) :
    (notifyMachine "sync".toList).Reachable (forkedWorld calls) := by
  refine .init ⟨rfl, fun party => ?_⟩
  cases party <;> exact ⟨rfl, rfl⟩

theorem forkedWorld_prepared :
    Prepared "sync".toList 7 (forkedWorld [.notify, .close]) := by
  refine ⟨rfl, by simp [forkedWorld, forkedWith], .inr ?_, .inr ?_⟩
  · exact ⟨rfl, forked_hasFd0 _, by decide, rfl⟩
  · exact ⟨rfl, forked_hasFd1 _, by decide, rfl⟩

/-- The child has closed its descriptor for reading and written its byte. -/
theorem exists_notified : ∃ s', (notifyMachine "sync".toList).exec
    (forkedWorld [.notify, .close]) ([.child, .child].map .call) = some s' ∧
      s'.count .notify 0 = 1 :=
  ⟨_, rfl, rfl⟩

theorem woken_add_length_le_forked :
    ∃ s', (notifyMachine "sync".toList).exec (forkedWorld [.notify, .close])
      ([.child, .child].map .call) = some s' ∧ s'.count .wait 0 + s'.data.length ≤ 1 := by
  obtain ⟨s', hrun, hcount⟩ := exists_notified
  exact ⟨s', hrun, hcount ▸ woken_add_length_le ((forkedWorld_reachable _).exec _ hrun)⟩

theorem wait_notify_forked :
    ∃ s', (notifyMachine "sync".toList).exec (forkedWorld [.notify, .close])
      ([.child, .child].map .call) = some s' ∧
        ((∃ party s'', next "sync".toList s' (.call party) = some s'') ∨
          Finished "sync".toList s') := by
  obtain ⟨s', hrun, -⟩ := exists_notified
  exact ⟨s', hrun, (wait_notify forkedWorld_prepared hrun).2⟩

/-- The child closes its descriptors and goes. -/
def childCloses : List Event :=
  [.call .child, .call .parent, .call .child, .call .child]

theorem wait_unreturned_forked :
    ∃ s', (notifyMachine "sync".toList).exec (forkedWorld [.close]) childCloses = some s' ∧
      (s'.proc .parent).log = [] :=
  ⟨_, rfl, wait_unreturned (s := forkedWorld [.close])
    ⟨⟨forked_hasFd0 _, .inr ⟨rfl, rfl, by decide⟩⟩, ⟨by decide, by decide⟩,
      by simp [forkedWorld, forkedWith]⟩ (by decide)
    (rfl : (notifyMachine "sync".toList).exec (forkedWorld [.close]) childCloses = some _)⟩

-- the two ends of an unnamed pipe: the wait comes to the end of the file
example :
    (((notifyMachine "sync".toList).exec (forkedWith .rdonly .wronly [.close])
      (childCloses ++ [.call .parent])).map fun s => (s.proc .parent).log) =
        some [(.wait, -1)] := rfl

end SyncPipeNotify

end SnowballLtp
