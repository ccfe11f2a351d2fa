import Mathlib.Logic.Function.Basic
import SnowballLtp.Dma.Buflist
import SnowballLtp.Machine.Reachability

/-!
# The mutex around the test cases

Reading a debugfs file runs `d40_test_run`, which takes `tc_mutex` around one test case. Any
number of processes read any of the files, each of them step by step: wait in
`mutex_lock_interruptible`, run the body of the test case, print the result, call `mutex_unlock`.
A process that waits may be interrupted by a signal; the call then returns non-zero without the
mutex. `mutex_unlock` frees the mutex whoever calls it.

The failure of the lock jumps to the label `out` in front of the unlock, so an interrupted process
frees the mutex of another one. As long as no waiting process is interrupted, the mutex does its
work.

## Main definitions

* `Pc`, `Reader`, `TestMutex`, `TestMutex.next`, `testMutexMachine`.
* `MutexDiscipline`.

## Main results

* `mutexDiscipline_of_reachableVia`: the discipline along the runs without interrupted waits.
* `not_mutexDiscipline_interrupted`: a run of three processes that breaks it.
-/

namespace SnowballLtp.Dma

/-- `EINTR`, the failure of an interrupted wait. -/
def eintr : ℤ := 4

/-- The kernel configuration, as far as the test module asks for it. -/
structure KernelConfig where
  /-- `CONFIG_MMC`. -/
  mmc : Bool
  /-- `CONFIG_STE_DMA40_DEBUG`. -/
  steDma40Debug : Bool

/-- The prefix of the line that `d40_test_run` prints: the output of these tests is a script. -/
def d40TestStr (cfg : KernelConfig) (testId : ℕ) : String :=
  if cfg.mmc && cfg.steDma40Debug && decide (10 ≤ testId ∧ testId ≤ 13) then "echo " else ""

/-- The line that `d40_test_run` prints. -/
def d40TestLine (cfg : KernelConfig) (testId : ℕ) (err : ℤ) : String :=
  d40TestStr cfg testId ++ "Finished test " ++ toString testId ++ ": " ++
    (if err = 0 then "OK" else "***FAIL***") ++ "\n"

/-- Where a process is in `d40_test_run`. -/
inductive Pc where
  /-- Not in `d40_test_run`. -/
  | idle
  /-- In `mutex_lock_interruptible (&tc_mutex)`. -/
  | lock
  /-- In the body of a test case, one of the branches of the `switch`. -/
  | body
  /-- At the label `out`. -/
  | out
  /-- At `mutex_unlock (&tc_mutex)`. -/
  | unlock
  deriving DecidableEq, Repr

/-- A process reading the debugfs files, with the locals of `d40_test_run`. -/
structure Reader where
  pc : Pc
  testId : ℕ
  err : ℤ
  /-- What has been printed into the sequence file. -/
  seq : String

/-- The mutex and the processes. -/
structure TestMutex (Pid : Type*) where
  /-- The process that holds `tc_mutex`. -/
  owner : Option Pid
  reader : Pid → Reader

/-- The steps of a process. -/
inductive ReadLabel (Pid : Type*) where
  /-- A read of the file `test_<testId>` begins. -/
  | read (pid : Pid) (testId : ℕ)
  /-- `mutex_lock_interruptible` returns with the mutex. -/
  | acquire (pid : Pid)
  /-- A signal makes `mutex_lock_interruptible` return without it. -/
  | interrupt (pid : Pid)
  /-- The body of the test case ends with the result `err`. -/
  | finish (pid : Pid) (err : ℤ)
  | print (pid : Pid)
  | unlock (pid : Pid)

/-- The branch `if (err) goto out` behind the lock. -/
def Reader.afterLock (r : Reader) (err : ℤ) : Reader :=
  { r with err := err, pc := if err = 0 then .body else .out }

namespace TestMutex

variable {Pid : Type*} [DecidableEq Pid] (s : TestMutex Pid)

/-- Replace the state of one process. -/
def setReader (pid : Pid) (r : Reader) : TestMutex Pid :=
  { s with reader := Function.update s.reader pid r }

/-- The state after a step, when the step is enabled. -/
def next (cfg : KernelConfig) (s : TestMutex Pid) : ReadLabel Pid → Option (TestMutex Pid)
  | .read pid testId =>
    if (s.reader pid).pc = .idle then
      some (s.setReader pid { s.reader pid with pc := .lock, testId := testId, err := -einval })
    else none
  | .acquire pid =>
    if (s.reader pid).pc = .lock ∧ s.owner = none then
      some { s.setReader pid ((s.reader pid).afterLock 0) with owner := some pid }
    else none
  | .interrupt pid =>
    if (s.reader pid).pc = .lock then
      some (s.setReader pid ((s.reader pid).afterLock (-eintr)))
    else none
  | .finish pid err =>
    if (s.reader pid).pc = .body then
      some (s.setReader pid { s.reader pid with pc := .out, err := err })
    else none
  | .print pid =>
    let r := s.reader pid
    if r.pc = .out then
      some (s.setReader pid { r with
        pc := .unlock
        seq := r.seq ++ d40TestLine cfg r.testId r.err })
    else none
  | .unlock pid =>
    if (s.reader pid).pc = .unlock then
      some { s.setReader pid { s.reader pid with pc := .idle } with owner := none }
    else none

end TestMutex

/-- The runs of the processes, from the state in which none of them reads a file. -/
def testMutexMachine (Pid : Type*) [DecidableEq Pid] (cfg : KernelConfig) :
    Machine (TestMutex Pid) (ReadLabel Pid) where
  init s := s.owner = none ∧ ∀ pid, (s.reader pid).pc = .idle
  next := TestMutex.next cfg

/-- The mutex discipline: at most one process is in the body of a test case, and `mutex_unlock`
is executed by the process that holds the mutex only. -/
structure MutexDiscipline {Pid : Type*} (s : TestMutex Pid) : Prop where
  body_unique : ∀ pid pid', (s.reader pid).pc = .body → (s.reader pid').pc = .body → pid = pid'
  unlock_holds : ∀ pid, (s.reader pid).pc = .unlock → s.owner = some pid

/-- The steps by which no waiting process is interrupted. -/
def NotInterrupted {Pid : Type*} : ReadLabel Pid → Prop
  | .interrupt _ => False
  | _ => True

namespace TestMutex

variable {Pid : Type*} [DecidableEq Pid] {cfg : KernelConfig} {s s' : TestMutex Pid}

/-- A process behind the lock holds the mutex. -/
def HoldsBehindLock (s : TestMutex Pid) : Prop :=
  ∀ pid, (s.reader pid).pc ≠ .idle → (s.reader pid).pc ≠ .lock → s.owner = some pid

omit [DecidableEq Pid] in
theorem HoldsBehindLock.mutexDiscipline (h : s.HoldsBehindLock) : MutexDiscipline s where
  body_unique pid pid' hp hp' := by
    have hown := h pid (by simp [hp]) (by simp [hp])
    have hown' := h pid' (by simp [hp']) (by simp [hp'])
    exact Option.some.inj (hown.symm.trans hown')
  unlock_holds pid hp := h pid (by simp [hp]) (by simp [hp])

omit [DecidableEq Pid] in
/-- A process behind the lock excludes every other process from there. -/
theorem HoldsBehindLock.eq_of_owner (h : s.HoldsBehindLock) {pid pid' : Pid}
    (hown : s.owner = some pid) (hi : (s.reader pid').pc ≠ .idle)
    (hl : (s.reader pid').pc ≠ .lock) : pid' = pid :=
  Option.some.inj ((h pid' hi hl).symm.trans hown)

/-- Replacing a process keeps the invariant, if the process is in front of the lock afterwards or
was behind it before. -/
theorem HoldsBehindLock.setReader (h : s.HoldsBehindLock) {pid : Pid} {r : Reader}
    (hr : r.pc = .idle ∨ r.pc = .lock ∨ s.owner = some pid) :
    (s.setReader pid r).HoldsBehindLock := by
  intro pid' hi hl
  by_cases hp : pid' = pid
  · subst hp
    simp only [TestMutex.setReader, Function.update_self] at hi hl
    exact (hr.resolve_left hi).resolve_left hl
  · simp only [TestMutex.setReader, Function.update_of_ne hp] at hi hl
    exact h pid' hi hl

/-- Every step but an interruption keeps the invariant. -/
theorem HoldsBehindLock.next (h : s.HoldsBehindLock) {l : ReadLabel Pid} (hok : NotInterrupted l)
    (hl : s.next cfg l = some s') : s'.HoldsBehindLock := by
  cases l with
  | read pid testId =>
    obtain ⟨-, hs⟩ := Option.ite_none_right_eq_some.mp hl
    obtain rfl := Option.some.inj hs
    exact h.setReader (Or.inr (Or.inl rfl))
  | acquire pid =>
    obtain ⟨⟨-, hown⟩, hs⟩ := Option.ite_none_right_eq_some.mp hl
    obtain rfl := Option.some.inj hs
    intro pid' hi hl'
    by_cases hp : pid' = pid
    · rw [hp]
    · simp only [TestMutex.setReader, Function.update_of_ne hp] at hi hl'
      have := h pid' hi hl'
      simp [hown] at this
  | interrupt pid => exact hok.elim
  | finish pid err =>
    obtain ⟨hpc, hs⟩ := Option.ite_none_right_eq_some.mp hl
    obtain rfl := Option.some.inj hs
    exact h.setReader (Or.inr (Or.inr (h pid (by simp [hpc]) (by simp [hpc]))))
  | print pid =>
    obtain ⟨hpc, hs⟩ := Option.ite_none_right_eq_some.mp hl
    obtain rfl := Option.some.inj hs
    exact h.setReader (Or.inr (Or.inr (h pid (by simp [hpc]) (by simp [hpc]))))
  | unlock pid =>
    obtain ⟨hpc, hs⟩ := Option.ite_none_right_eq_some.mp hl
    obtain rfl := Option.some.inj hs
    have hown := h pid (by simp [hpc]) (by simp [hpc])
    intro pid' hi hl'
    by_cases hp : pid' = pid
    · simp [TestMutex.setReader, hp] at hi
    · simp only [TestMutex.setReader, Function.update_of_ne hp] at hi hl'
      exact absurd (h.eq_of_owner hown hi hl') hp

end TestMutex

variable {Pid : Type*} [DecidableEq Pid] {cfg : KernelConfig}

/-- **The mutex around the test cases.** As long as no waiting process is interrupted, at most one
process is in the body of a test case and only the holder executes `mutex_unlock`. -/
theorem mutexDiscipline_of_reachableVia {s : TestMutex Pid}
    (h : (testMutexMachine Pid cfg).ReachableVia (fun _ l => NotInterrupted l) s) :
    MutexDiscipline s := by
  have hinv : s.HoldsBehindLock := h.invariant
    (fun _ hs pid hi _ => absurd (hs.2 pid) hi) fun _ _ _ hI hok hl => hI.next hok hl
  exact hinv.mutexDiscipline

/-- No process reads a file. -/
def noReaders (Pid : Type*) : TestMutex Pid where
  owner := none
  reader _ := { pc := .idle, testId := 0, err := 0, seq := "" }

/-- Process 0 runs test 22; process 1 is interrupted while it waits, and frees the mutex; process 2
then runs test 22 as well. -/
theorem not_mutexDiscipline_interrupted :
    ¬ ∀ s, (testMutexMachine (Fin 3) ⟨true, true⟩).Reachable s → MutexDiscipline s := by
  intro hall
  have hreach := Machine.Reachable.exec (M := testMutexMachine (Fin 3) ⟨true, true⟩)
    (.init (s := noReaders (Fin 3)) ⟨rfl, fun _ => rfl⟩)
    [.read 0 22, .acquire 0, .read 1 23, .interrupt 1, .print 1, .unlock 1, .read 2 22,
      .acquire 2] rfl
  exact absurd ((hall _ hreach).body_unique 0 2 rfl rfl) (by decide)

/-- Two processes run test 22 one after the other. -/
theorem mutexDiscipline_in_turn :
    ∃ s, (testMutexMachine (Fin 2) ⟨true, true⟩).ReachableVia (fun _ l => NotInterrupted l) s ∧
      (s.reader 1).pc = .body ∧ MutexDiscipline s := by
  have hinit : (testMutexMachine (Fin 2) ⟨true, true⟩).ReachableVia
      (fun _ l => NotInterrupted l) (noReaders (Fin 2)) := .init ⟨rfl, fun _ => rfl⟩
  have hreach := hinit.exec
    [.read 0 22, .acquire 0, .read 1 22, .finish 0 0, .print 0, .unlock 0, .acquire 1] rfl
    (by simp [NotInterrupted])
  exact ⟨_, hreach, rfl, mutexDiscipline_of_reachableVia hreach⟩

end SnowballLtp.Dma
