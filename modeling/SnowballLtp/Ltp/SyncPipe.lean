import Mathlib.Data.Int.Order.Basic
import Mathlib.Logic.Function.Basic
import SnowballLtp.Machine.Descriptors
import SnowballLtp.Machine.Reachability

/-!
# A pipe for two processes

Parent and child each call `sync_pipe_create` with the same name and are to be connected by a FIFO.
The function tries to open the FIFO; if there is none it makes one and opens that. Between the
attempt and the making the other process may make it. Then `mkfifo` fails, and the process is
returned -1 and has no descriptors. Where nothing goes wrong, the function returns the value of the
call that it made last to find that out: a descriptor from `open` or 0 from `mkfifo`.

## Main definitions

* `OpenFile`: a file with the mode that it was opened in.
* `generatePipeName`, `Proc.next`: the function, one system call after the other.
* `syncPipeMachine`: the two processes.
* `Connected`, `Synchronises`.

## Main results

* `Joined.next`: what the processes keep while there is a FIFO.
* `synchronises_iff`: when the processes are connected whatever their order.
* `noFifo_not_synchronises`.
-/

namespace SnowballLtp

namespace SyncPipe

/-! ### The function -/

/-- What stands behind the last `/` of the name. -/
def basename (name : List Char) : List Char :=
  (name.reverse.takeWhile fun c => decide (c ≠ '/')).reverse

/-- `generate_pipe_name`. `snprintf` is given a size of 255, of which one byte is for the end. -/
def generatePipeName (name : List Char) : List Char :=
  ("/tmp/ltp_fifo_".toList ++ basename name).take 254

/-- The system call that a process makes next, or what it was returned. -/
inductive Phase where
  /-- The first `open`. -/
  | tryOpen
  /-- `mkfifo`. -/
  | make
  /-- The `open` for `fd[0]` behind `mkfifo`. -/
  | openMade
  /-- The `open` for `fd[1]`, with the value to be returned. -/
  | openSecond (ret : ℤ)
  | returned (ret : ℤ)
deriving DecidableEq

/-- What an open file may be used for: `O_RDONLY`, `O_WRONLY` or `O_RDWR`. -/
inductive AccessMode where
  | rdonly
  | wronly
  | rdwr
deriving DecidableEq

structure OpenFile where
  ino : ℕ
  mode : AccessMode
deriving DecidableEq

/-- A process with its array `fd` and its open files. -/
structure Proc where
  phase : Phase
  fd0 : ℤ
  fd1 : ℤ
  files : List (Option OpenFile)

/-- `open` of the FIFO with `O_RDWR`, if there is one: what it returns, and the open files. -/
def openFifo (fifo : Option ℕ) (files : List (Option OpenFile)) : ℤ × List (Option OpenFile) :=
  match fifo with
  | none => (-1, files)
  | some ino => ((install ⟨ino, .rdwr⟩ files).1, (install ⟨ino, .rdwr⟩ files).2)

/-- A system call of a process, and the FIFO behind it. A new FIFO is the file `fresh`. -/
def Proc.next (fifo : Option ℕ) (fresh : ℕ) (p : Proc) : Option (Proc × Option ℕ) :=
  let (ret, files) := openFifo fifo p.files
  match p.phase with
  | .tryOpen =>
    if ret ≠ -1 then some ({ p with phase := .openSecond ret, fd0 := ret, files }, fifo)
    else some ({ p with phase := .make }, fifo)
  | .make =>
    match fifo with
    | none => some ({ p with phase := .openMade }, some fresh)
    | some _ => some ({ p with phase := .returned (-1) }, fifo)
  | .openMade => some ({ p with phase := .openSecond 0, fd0 := ret, files }, fifo)
  | .openSecond r => some ({ p with phase := .returned r, fd1 := ret, files }, fifo)
  | .returned _ => none

/-! ### The two processes -/

inductive Party where
  | parent
  | child
deriving DecidableEq

/-- The files by their names, the number of a new one, and the processes. -/
structure World where
  fs : List Char → Option ℕ
  fresh : ℕ
  proc : Party → Proc

/-- The world after a system call of one of the processes. -/
def next (name : List Char) (s : World) (party : Party) : Option World :=
  let path := generatePipeName name
  ((s.proc party).next (s.fs path) s.fresh).map fun (p, fifo) =>
    { fs := Function.update s.fs path fifo
      fresh := s.fresh + 1
      proc := Function.update s.proc party p }

/-- The processes in front of their calls. -/
def AtStart (s : World) : Prop := ∀ party, (s.proc party).phase = .tryOpen

/-- The interleavings of the system calls. -/
def syncPipeMachine (name : List Char) : Machine World Party where
  init := AtStart
  next := next name

/-- The process has returned. -/
def Returned (s : World) (party : Party) : Prop := ∃ v, (s.proc party).phase = .returned v

/-- Both elements of `fd` are descriptors of this file, for reading and for writing. -/
structure Opened (p : Proc) (ino : ℕ) : Prop where
  fd0 : ∃ d : ℕ, p.fd0 = d ∧ IsOpen p.files d ⟨ino, .rdwr⟩
  fd1 : ∃ d : ℕ, p.fd1 = d ∧ IsOpen p.files d ⟨ino, .rdwr⟩

/-- The calls were returned the values `v` and `w`, both of success: 0, or the descriptor. -/
structure Connected (name : List Char) (s : World) (ino : ℕ) (v w : ℤ) : Prop where
  fifo : s.fs (generatePipeName name) = some ino
  opened : ∀ party, Opened (s.proc party) ino
  parent : (s.proc .parent).phase = .returned v
  child : (s.proc .child).phase = .returned w
  success : v ≠ -1 ∧ w ≠ -1
  meaning : v = 0 ∧ w = 0 ∨ v = (s.proc .parent).fd0 ∧ w = (s.proc .child).fd0

/-- In whatever order the processes make their system calls, they make no more than eight, one of
them can go on if it has not returned, and when both have they are connected. -/
def Synchronises (name : List Char) (s : World) : Prop :=
  ∀ ls s', (syncPipeMachine name).exec s ls = some s' →
    ls.length ≤ 8 ∧
    (∀ party, ¬Returned s' party → ∃ s'', next name s' party = some s'') ∧
    ((∀ party, Returned s' party) → ∃ ino v w, Connected name s' ino v w)

/-! ### A process by itself -/

/-- The system calls that are left at most. -/
def Phase.left : Phase → ℕ
  | .tryOpen => 4
  | .make => 3
  | .openMade => 2
  | .openSecond _ => 1
  | .returned _ => 0

/-- What a process has when there is the FIFO `ino`. -/
def ProcJoined (ino : ℕ) (p : Proc) : Prop :=
  match p.phase with
  | .tryOpen => True
  | .make => False
  | .openMade => False
  | .openSecond r => r = p.fd0 ∧ ∃ d : ℕ, p.fd0 = d ∧ IsOpen p.files d ⟨ino, .rdwr⟩
  | .returned r => r = p.fd0 ∧ Opened p ino

section Process

variable {fifo fifo' : Option ℕ} {ino fresh : ℕ} {p p' : Proc}

/-- The first `open`, of a FIFO. -/
theorem next_tryOpen_some (ino fresh : ℕ) (h : p.phase = .tryOpen) :
    p.next (some ino) fresh =
      some ({ p with
        phase := .openSecond (install ⟨ino, .rdwr⟩ p.files).1
        fd0 := (install ⟨ino, .rdwr⟩ p.files).1
        files := (install ⟨ino, .rdwr⟩ p.files).2 }, some ino) := by
  obtain ⟨phase, fd0, fd1, files⟩ := p
  cases h
  have hne : ¬((install (⟨ino, .rdwr⟩ : OpenFile) files).1 : ℤ) = -1 := by omega
  simp [Proc.next, openFifo, hne]

/-- The first `open`, where there is no FIFO. -/
theorem next_tryOpen_none (fresh : ℕ) (h : p.phase = .tryOpen) :
    p.next none fresh = some ({ p with phase := .make }, none) := by
  obtain ⟨phase, fd0, fd1, files⟩ := p
  cases h
  rfl

theorem next_make_none (fresh : ℕ) (h : p.phase = .make) :
    p.next none fresh = some ({ p with phase := .openMade }, some fresh) := by
  obtain ⟨phase, fd0, fd1, files⟩ := p
  cases h
  rfl

/-- The other process was faster. -/
theorem next_make_some (ino fresh : ℕ) (h : p.phase = .make) :
    p.next (some ino) fresh = some ({ p with phase := .returned (-1) }, some ino) := by
  obtain ⟨phase, fd0, fd1, files⟩ := p
  cases h
  rfl

theorem next_openMade (fifo : Option ℕ) (fresh : ℕ) (h : p.phase = .openMade) :
    p.next fifo fresh =
      some ({ p with
        phase := .openSecond 0
        fd0 := (openFifo fifo p.files).1
        files := (openFifo fifo p.files).2 }, fifo) := by
  obtain ⟨phase, fd0, fd1, files⟩ := p
  cases h
  rfl

theorem next_openSecond (fifo : Option ℕ) (fresh : ℕ) {r : ℤ} (h : p.phase = .openSecond r) :
    p.next fifo fresh =
      some ({ p with
        phase := .returned r
        fd1 := (openFifo fifo p.files).1
        files := (openFifo fifo p.files).2 }, fifo) := by
  obtain ⟨phase, fd0, fd1, files⟩ := p
  cases h
  rfl

theorem next_returned (fifo : Option ℕ) (fresh : ℕ) {v : ℤ} (h : p.phase = .returned v) :
    p.next fifo fresh = none := by
  obtain ⟨phase, fd0, fd1, files⟩ := p
  cases h
  rfl

/-- **A process that has not returned** makes a system call, which uses up one of those that are
left. -/
theorem exists_next_left_lt (fifo : Option ℕ) (fresh : ℕ) (h : ∀ v, p.phase ≠ .returned v) :
    ∃ p' fifo', p.next fifo fresh = some (p', fifo') ∧ p'.phase.left < p.phase.left := by
  cases hphase : p.phase with
  | tryOpen =>
    cases fifo with
    | none => exact ⟨_, _, next_tryOpen_none fresh hphase, show 3 < 4 by decide⟩
    | some ino => exact ⟨_, _, next_tryOpen_some ino fresh hphase, show 1 < 4 by decide⟩
  | make =>
    cases fifo with
    | none => exact ⟨_, _, next_make_none fresh hphase, show 2 < 3 by decide⟩
    | some ino => exact ⟨_, _, next_make_some ino fresh hphase, show 0 < 3 by decide⟩
  | openMade => exact ⟨_, _, next_openMade fifo fresh hphase, show 1 < 2 by decide⟩
  | openSecond r => exact ⟨_, _, next_openSecond fifo fresh hphase, Nat.one_pos⟩
  | returned v => exact absurd hphase (h v)

theorem left_lt (h : p.next fifo fresh = some (p', fifo')) : p'.phase.left < p.phase.left := by
  by_cases hreturned : ∃ v, p.phase = .returned v
  · obtain ⟨v, hv⟩ := hreturned
    rw [next_returned fifo fresh hv] at h
    cases h
  · obtain ⟨q, fifo'', hq, hlt⟩ :=
      exists_next_left_lt fifo fresh fun v hv => hreturned ⟨v, hv⟩
    obtain ⟨rfl, -⟩ := Prod.mk.inj (Option.some.inj (h.symm.trans hq))
    exact hlt

/-- **A system call while there is the FIFO** opens it. -/
theorem ProcJoined.next (h : ProcJoined ino p)
    (hnext : p.next (some ino) fresh = some (p', fifo')) :
    fifo' = some ino ∧ ProcJoined ino p' := by
  rw [ProcJoined] at h
  cases hphase : p.phase with
  | tryOpen =>
    rw [next_tryOpen_some ino fresh hphase] at hnext
    obtain ⟨rfl, rfl⟩ := Prod.mk.inj (Option.some.inj hnext)
    exact ⟨rfl, rfl, _, rfl, isOpen_install _ p.files⟩
  | make =>
    rw [hphase] at h
    cases h
  | openMade =>
    rw [hphase] at h
    cases h
  | openSecond r =>
    rw [hphase] at h
    obtain ⟨hr, d, hd, hopen⟩ := h
    rw [next_openSecond _ fresh hphase] at hnext
    obtain ⟨rfl, rfl⟩ := Prod.mk.inj (Option.some.inj hnext)
    exact ⟨rfl, hr, ⟨d, hd, hopen.install _⟩, _, rfl, isOpen_install _ p.files⟩
  | returned v =>
    rw [next_returned _ fresh hphase] at hnext
    cases hnext

end Process

/-! ### The two processes -/

/-- There is a FIFO, and the processes have opened it as far as they have come. -/
structure Joined (name : List Char) (ino : ℕ) (s : World) : Prop where
  fifo : s.fs (generatePipeName name) = some ino
  proc : ∀ party, ProcJoined ino (s.proc party)

/-- The system calls that are left at most. -/
def World.left (s : World) : ℕ := (s.proc .parent).phase.left + (s.proc .child).phase.left

section Parties

variable {name : List Char} {ino : ℕ} {s s' : World} {party : Party} {ls : List Party}

/-- **A step** is a system call of one of the processes. -/
theorem next_cases (h : next name s party = some s') :
    ∃ p fifo, (s.proc party).next (s.fs (generatePipeName name)) s.fresh = some (p, fifo) ∧
      s'.fs (generatePipeName name) = fifo ∧ s'.proc = Function.update s.proc party p := by
  obtain ⟨⟨p, fifo⟩, hnext, rfl⟩ := Option.map_eq_some_iff.mp h
  exact ⟨p, fifo, hnext, Function.update_self _ _ _, rfl⟩

theorem exists_step {p : Proc} {fifo : Option ℕ}
    (h : (s.proc party).next (s.fs (generatePipeName name)) s.fresh = some (p, fifo)) :
    ∃ s', next name s party = some s' ∧ s'.fs (generatePipeName name) = fifo ∧
      s'.proc party = p ∧ ∀ other, other ≠ party → s'.proc other = s.proc other :=
  ⟨_, Option.map_eq_some_iff.mpr ⟨(p, fifo), h, rfl⟩, Function.update_self _ _ _,
    Function.update_self _ _ _, fun _ hne => Function.update_of_ne hne _ _⟩

theorem Joined.next (h : Joined name ino s) (hnext : next name s party = some s') :
    Joined name ino s' := by
  obtain ⟨p, fifo, hp, hfifo, hproc⟩ := next_cases hnext
  rw [h.fifo] at hp
  obtain ⟨rfl, hjoined⟩ := (h.proc party).next hp
  refine ⟨hfifo, fun other => ?_⟩
  rw [hproc, Function.update_apply]
  split_ifs
  · exact hjoined
  · exact h.proc other

theorem World.left_lt (hnext : SyncPipe.next name s party = some s') : s'.left < s.left := by
  obtain ⟨p, fifo, hp, -, hproc⟩ := next_cases hnext
  have hlt := SyncPipe.left_lt hp
  rw [World.left, World.left, hproc]
  cases party with
  | parent =>
    rw [Function.update_self, Function.update_of_ne (by decide)]
    omega
  | child =>
    rw [Function.update_self, Function.update_of_ne (by decide)]
    omega

/-- A run has no more steps than there are system calls. -/
theorem length_le_left (h : (syncPipeMachine name).exec s ls = some s') :
    ls.length + s'.left ≤ s.left := by
  induction ls generalizing s with
  | nil =>
    obtain rfl := Option.some.inj h
    exact Nat.le_of_eq (Nat.zero_add _)
  | cons party ls ih =>
    obtain ⟨u, hu, hls⟩ := Option.bind_eq_some_iff.mp h
    have hlt : u.left < s.left := World.left_lt hu
    have hrest := ih hls
    rw [List.length_cons]
    omega

/-- A process that has not returned can go on. -/
theorem exists_next_of_not_returned (h : ¬Returned s party) :
    ∃ s', next name s party = some s' := by
  obtain ⟨p, fifo, hp, -⟩ := exists_next_left_lt (s.fs (generatePipeName name)) s.fresh
    (p := s.proc party) fun v hv => h ⟨v, hv⟩
  exact ⟨_, Option.map_eq_some_iff.mpr ⟨(p, fifo), hp, rfl⟩⟩

/-- Where there is a FIFO, both processes are returned a descriptor of it. -/
theorem Joined.connected (h : Joined name ino s) (hreturned : ∀ party, Returned s party) :
    ∃ v w, Connected name s ino v w := by
  obtain ⟨v, hv⟩ := hreturned .parent
  obtain ⟨w, hw⟩ := hreturned .child
  have hparent := h.proc .parent
  have hchild := h.proc .child
  rw [ProcJoined, hv] at hparent
  rw [ProcJoined, hw] at hchild
  obtain ⟨hvfd, hvopen⟩ := hparent
  obtain ⟨hwfd, hwopen⟩ := hchild
  refine ⟨v, w, h.fifo, fun party => ?_, hv, hw, ?_, .inr ⟨hvfd, hwfd⟩⟩
  · cases party with
    | parent => exact hvopen
    | child => exact hwopen
  · obtain ⟨d, hd, -⟩ := hvopen.fd0
    obtain ⟨e, he, -⟩ := hwopen.fd0
    exact ⟨by omega, by omega⟩

/-- Where there is none, both processes find that out before one of them makes it. -/
theorem exists_race (hstart : AtStart s) (hnone : s.fs (generatePipeName name) = none) :
    ∃ s', (syncPipeMachine name).exec s
        [.parent, .child, .parent, .child, .parent, .parent] = some s' ∧
      (∀ party, Returned s' party) ∧ (s'.proc .child).phase = .returned (-1) := by
  have hne : Party.parent ≠ .child := by decide
  have htry := next_tryOpen_none s.fresh (hstart .parent)
  rw [← hnone] at htry
  obtain ⟨s₁, h₁, hfs₁, hparent₁, hother₁⟩ := exists_step htry
  rw [hnone] at hfs₁
  have hchild₁ : (s₁.proc .child).phase = .tryOpen := hother₁ .child hne.symm ▸ hstart .child
  have htry := next_tryOpen_none s₁.fresh hchild₁
  rw [← hfs₁] at htry
  obtain ⟨s₂, h₂, hfs₂, hchild₂, hother₂⟩ := exists_step htry
  rw [hfs₁] at hfs₂
  have hphase₂ : (s₂.proc .parent).phase = .make := by rw [hother₂ .parent hne, hparent₁]
  -- the parent makes the FIFO, and the child comes too late
  have hmake := next_make_none s₂.fresh hphase₂
  rw [← hfs₂] at hmake
  obtain ⟨s₃, h₃, hfs₃, hparent₃, hother₃⟩ := exists_step hmake
  have hphase₃ : (s₃.proc .child).phase = .make := by rw [hother₃ .child hne.symm, hchild₂]
  have hmake := next_make_some s₂.fresh s₃.fresh hphase₃
  rw [← hfs₃] at hmake
  obtain ⟨s₄, h₄, -, hchild₄, hother₄⟩ := exists_step hmake
  have hphase₄ : (s₄.proc .parent).phase = .openMade := by rw [hother₄ .parent hne, hparent₃]
  obtain ⟨s₅, h₅, -, hparent₅, hother₅⟩ := exists_step
    (next_openMade (s₄.fs (generatePipeName name)) s₄.fresh hphase₄)
  have hphase₅ : (s₅.proc .parent).phase = .openSecond 0 := by rw [hparent₅]
  obtain ⟨s₆, h₆, -, hparent₆, hother₆⟩ := exists_step
    (next_openSecond (s₅.fs (generatePipeName name)) s₅.fresh hphase₅)
  have hlost : (s₆.proc .child).phase = .returned (-1) := by
    rw [hother₆ .child hne.symm, hother₅ .child hne.symm, hchild₄]
  refine ⟨s₆, ?_, fun party => ?_, hlost⟩
  · simp only [Machine.exec, syncPipeMachine, h₁, h₂, h₃, h₄, h₅, h₆, Option.bind_some]
  · cases party with
    | parent => exact ⟨0, by rw [hparent₆]⟩
    | child => exact ⟨-1, hlost⟩

theorem not_synchronises_of_none (hstart : AtStart s)
    (hnone : s.fs (generatePipeName name) = none) : ¬Synchronises name s := by
  intro h
  obtain ⟨s', hrun, hreturned, hlost⟩ := exists_race hstart hnone
  obtain ⟨-, -, hconnected⟩ := h _ s' hrun
  obtain ⟨ino, v, w, hconn⟩ := hconnected hreturned
  have hw : w = -1 := Phase.returned.inj (hconn.child.symm.trans hlost)
  exact hconn.success.2 hw

/-- **The processes are connected** in whatever order they make their system calls if and only if
there is a FIFO already. -/
theorem synchronises_iff (hstart : AtStart s) :
    Synchronises name s ↔ ∃ ino, s.fs (generatePipeName name) = some ino := by
  constructor
  · intro h
    by_contra hnone
    refine not_synchronises_of_none hstart ?_ h
    exact Option.eq_none_iff_forall_ne_some.mpr fun ino hino => hnone ⟨ino, hino⟩
  · rintro ⟨ino, hino⟩ ls s' hrun
    have hjoined : Joined name ino s' := by
      refine Machine.exec_invariant (I := fun _ => Joined name ino) hrun ⟨hino, fun party => ?_⟩
        fun _ _ _ _ h hnext => h.next hnext
      rw [ProcJoined, hstart party]
      trivial
    have hle := length_le_left hrun
    have hleft : s.left = 8 := by rw [World.left, hstart .parent, hstart .child]; rfl
    refine ⟨by omega, fun party h => exists_next_of_not_returned h, fun hreturned => ?_⟩
    exact ⟨ino, hjoined.connected hreturned⟩

end Parties

/-- Two processes with their standard streams, and at most the FIFO of the name `sync`. -/
def twoAt (fifo : Option ℕ) : World where
  fs path := if path = generatePipeName "sync".toList then fifo else none
  fresh := 4
  proc _ :=
    { phase := .tryOpen, fd0 := -1, fd1 := -1,
      files := [some ⟨0, .rdwr⟩, some ⟨1, .rdwr⟩, some ⟨2, .rdwr⟩] }

theorem twoAt_fs (fifo : Option ℕ) :
    (twoAt fifo).fs (generatePipeName "sync".toList) = fifo := by
  simp [twoAt]

theorem synchronises_sync : Synchronises "sync".toList (twoAt (some 3)) :=
  (synchronises_iff fun _ => rfl).mpr ⟨3, twoAt_fs _⟩

/-- There is no FIFO of the name. -/
theorem noFifo_not_synchronises : ¬Synchronises "sync".toList (twoAt none) :=
  not_synchronises_of_none (fun _ => rfl) (twoAt_fs _)

end SyncPipe

end SnowballLtp
