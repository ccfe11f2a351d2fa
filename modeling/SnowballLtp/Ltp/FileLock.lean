import SnowballLtp.Machine.Decimal
import SnowballLtp.Machine.Retry

/-!
# Locks on files

`file_lock` and `record_lock` ask `fcntl` for a lock on a whole file and on a part of one. With
`LOCK_NB` in the flags the command is `F_SETLK`, which fails where the lock is not free, and without
it `F_SETLKW`, which waits. "It will loop if the LOCK_NB flags is NOT set": the loop is entered for
`F_SETLK`, which is the command of the request that must not wait, and a request that waits is given
up where a signal interrupts it.

## Main definitions

* `fileLock`, `recordLock`: the functions, over the outcomes that `fcntl` has.
* `MeetsRequest`: one call with `LOCK_NB`, and without it a call for each interruption.

## Main results

* `LockFn.tries_eq`: the loop of the code.
* `LockFn.meetsRequest_iff`: when the functions do what is asked for.
* `fileLock_not_meetsRequest`: a signal interrupts a request that must not wait.
-/

namespace SnowballLtp

namespace FileLock

/-! ### The functions -/

def lockSh : BitVec 32 := 1
def lockEx : BitVec 32 := 2
def lockNb : BitVec 32 := 4
def lockUn : BitVec 32 := 8

def fSetlk : ℤ := 6
def fSetlkw : ℤ := 7

def eintr : ℤ := 4
def eacces : ℤ := 13
def einval : ℤ := 22
def efsexclwr : ℤ := 503

/-- The condition `flags&LOCK_NB`, and the same of the other flags. -/
def Has (flags flag : BitVec 32) : Prop := flags &&& flag ≠ 0

instance (flags flag : BitVec 32) : Decidable (Has flags flag) :=
  inferInstanceAs (Decidable (_ ≠ _))

/-- The `struct flock` of a request. -/
structure Flock where
  lType : ℤ
  lWhence : ℤ := 0
  lStart : ℤ
  lLen : ℤ

/-- What a call of `fcntl` gives: a value, or an `errno` and -1. -/
inductive Fcntl where
  | success (value : ℕ)
  | failure (errno : ℤ)
deriving DecidableEq

/-- What the caller of `fcntl` is returned. -/
def Fcntl.ret : Fcntl → ℤ
  | .success value => value
  | .failure _ => -1

/-- The call failed with this `errno`. -/
def Fcntl.Failed (o : Fcntl) (errno : ℤ) : Prop := o = .failure errno

instance (o : Fcntl) (errno : ℤ) : Decidable (o.Failed errno) := inferInstanceAs (Decidable (_ = _))

/-- What a call of a lock function leaves. Without a `ret` it is still in its loop. -/
structure Locked where
  ret : Option ℤ
  calls : ℕ := 0
  errno : ℤ
  errormsg : Option (List Char) := none
  flSyscallStr : List Char

/-- The command, which is chosen by one of the flags. -/
def command (flags : BitVec 32) : ℤ := if Has flags lockNb then fSetlk else fSetlkw

/-- The type of the lock. -/
def lockType (flags : BitVec 32) : Option ℤ :=
  if Has flags lockUn then some 2
  else if Has flags lockEx then some 1
  else if Has flags lockSh then some 0
  else none

/-- The text of `Fl_syscall_str`. -/
def syscallStr (fd cmd : ℤ) (flocks : Flock) : List Char :=
  "fcntl(".toList ++ decimal fd ++ ", ".toList ++ decimal cmd ++ ", &flocks): type:".toList ++
    decimal flocks.lType ++ " whence:".toList ++ decimal flocks.lWhence ++ ", start:".toList ++
    decimal flocks.lStart ++ " len:".toList ++ decimal flocks.lLen ++ "\n".toList

/-- The text for a call that failed. -/
def failedText (strerror : ℤ → List Char) (fd cmd errno : ℤ) : List Char :=
  "fcntl(".toList ++ decimal fd ++ ", ".toList ++ decimal cmd ++ ", &flocks): errno:".toList ++
    decimal errno ++ " ".toList ++ strerror errno ++ "\n".toList

/-- The text for flags that ask for nothing. -/
def invalidText (name : String) : List Char :=
  "Programmer error, called ".toList ++ name.toList ++ " with in valid flags\n".toList

/-- The errors for which the loop gets another try. -/
def retried (cmd errno : ℤ) : Bool :=
  cmd = fSetlk ∧ (errno = eacces ∨ errno = eintr ∨ errno = efsexclwr)

section Code

variable (strerror : ℤ → List Char)

/-- The loop, which makes a call for each of the outcomes until it returns. -/
def fcntlLoop (fd cmd : ℤ) (errormsg : Bool) (str : List Char) : ℤ → List Fcntl → Locked
  | errno, [] => { ret := none, errno, flSyscallStr := str }
  | errno, .success value :: _ =>
    { ret := some value, calls := 1, errno, flSyscallStr := str }
  | _, .failure errno :: outcomes =>
    if retried cmd errno then
      let locked := fcntlLoop fd cmd errormsg str errno outcomes
      { locked with calls := locked.calls + 1 }
    else
      { ret := some (-1), calls := 1, errno, flSyscallStr := str
        errormsg := if errormsg then some (failedText strerror fd cmd errno) else none }

/-- What the functions have in common. Before the call `errno` and `Fl_syscall_str` have values from
before, and `errormsg` is null or not. -/
def lockIn (name : String) (start len : ℤ) (errno : ℤ) (str : List Char) (fd : ℤ)
    (flags : BitVec 32) (errormsg : Bool) (outcomes : List Fcntl) : Locked :=
  match lockType flags with
  | none =>
    { ret := some (-1), errno := einval, flSyscallStr := str
      errormsg := if errormsg then some (invalidText name) else none }
  | some lType =>
    let flocks : Flock := { lType, lStart := start, lLen := len }
    fcntlLoop strerror fd (command flags) errormsg (syscallStr fd (command flags) flocks) errno
      outcomes

/-- `file_lock`. -/
def fileLock (errno : ℤ) (str : List Char) (fd : ℤ) (flags : BitVec 32) (errormsg : Bool)
    (outcomes : List Fcntl) : Locked :=
  lockIn strerror "file_lock" 0 0 errno str fd flags errormsg outcomes

/-- `record_lock`. -/
def recordLock (start len errno : ℤ) (str : List Char) (fd : ℤ) (flags : BitVec 32)
    (errormsg : Bool) (outcomes : List Fcntl) : Locked :=
  lockIn strerror "record_lock" start len errno str fd flags errormsg outcomes

end Code

/-! ### What is asked for -/

/-- One of the lock functions with its arguments. -/
inductive LockFn where
  | file
  | record (start len : ℤ)

/-- The function as a caller sees it, for the outcomes that `fcntl` has. -/
def LockFn.run (fn : LockFn) (strerror : ℤ → List Char) (errno : ℤ) (str : List Char) (fd : ℤ)
    (flags : BitVec 32) (errormsg : Bool) (outcomes : List Fcntl) : Locked :=
  match fn with
  | .file => fileLock strerror errno str fd flags errormsg outcomes
  | .record start len => recordLock strerror start len errno str fd flags errormsg outcomes

/-- The calls of `fcntl` and what was returned. -/
def Locked.tries (locked : Locked) : Tries ℤ := { calls := locked.calls, last := locked.ret }

/-- With `LOCK_NB` there is one call, and its result is returned. Without, the call is repeated
while a signal interrupts it. -/
structure MeetsRequest (locked : Locked) (flags : BitVec 32) (outcomes : List Fcntl) : Prop where
  once : Has flags lockNb → ∀ o ∈ outcomes.head?, locked.calls = 1 ∧ locked.ret = some o.ret
  repeats : ¬Has flags lockNb → ∀ before o after, outcomes = before ++ o :: after →
    (∀ b ∈ before, b.Failed eintr) → ¬o.Failed eintr →
      locked.calls = before.length + 1 ∧ locked.ret = some o.ret
  waits : (∀ o ∈ outcomes, ¬Has flags lockNb ∧ o.Failed eintr) →
    locked.calls = outcomes.length ∧ locked.ret = none

/-- The outcome of a call that is to be repeated. -/
def ToRepeat (flags : BitVec 32) (o : Fcntl) : Prop := ¬Has flags lockNb ∧ o.Failed eintr

instance (flags : BitVec 32) : DecidablePred (ToRepeat flags) :=
  fun _ => inferInstanceAs (Decidable (_ ∧ _))

theorem meetsRequest_iff_tries {locked : Locked} {flags : BitVec 32} {outcomes : List Fcntl} :
    MeetsRequest locked flags outcomes ↔
      locked.tries = (retry (ToRepeat flags) outcomes).map Fcntl.ret := by
  rw [Locked.tries, Tries.map, Tries.mk.injEq]
  constructor
  · rintro ⟨once, repeats, waits⟩
    obtain hall | ⟨before, o, after, rfl, hbefore, ho⟩ :=
      forall_or_exists_stop (ToRepeat flags) outcomes
    · rw [retry_of_forall hall]
      exact waits hall
    · rw [retry_of_stop hbefore ho]
      by_cases hnb : Has flags lockNb
      · -- no call is to be repeated, so this is the first
        cases before with
        | nil => exact once hnb o rfl
        | cons b before => exact absurd hnb (hbefore b List.mem_cons_self).1
      · exact repeats hnb before o after rfl (fun b hb => (hbefore b hb).2) fun h => ho ⟨hnb, h⟩
  · intro h
    refine ⟨fun hnb o ho => ?_, fun hnb before o after heq hbefore ho => ?_, fun hall => ?_⟩
    · obtain ⟨rest, rfl⟩ : ∃ rest, outcomes = o :: rest := List.head?_eq_some_iff.mp ho
      rwa [retry_cons_of_neg fun hrepeat => hrepeat.1 hnb] at h
    · subst heq
      rwa [retry_of_stop (fun b hb => ⟨hnb, hbefore b hb⟩) fun hrepeat => ho hrepeat.2] at h
    · have hwaits : ∀ o ∈ outcomes, ToRepeat flags o := hall
      rwa [retry_of_forall hwaits] at h

/-! ### The loop of the code -/

/-- The loop makes another call. -/
def Again (cmd : ℤ) : Fcntl → Prop
  | .success _ => False
  | .failure errno => retried cmd errno = true

instance (cmd : ℤ) : DecidablePred (Again cmd)
  | .success _ => inferInstanceAs (Decidable False)
  | .failure _ => inferInstanceAs (Decidable (_ = true))

section Loop

variable {strerror : ℤ → List Char} {fd cmd errno : ℤ} {str : List Char} {flags : BitVec 32}
  {errormsg : Bool}

theorem fcntlLoop_tries (outcomes : List Fcntl) :
    (fcntlLoop strerror fd cmd errormsg str errno outcomes).tries =
      (retry (Again cmd) outcomes).map Fcntl.ret := by
  induction outcomes generalizing errno with
  | nil => rfl
  | cons o outcomes ih =>
    cases o with
    | success value =>
      rw [retry_cons_of_neg not_false]
      rfl
    | failure e =>
      have hrest := @ih e
      rw [Locked.tries, Tries.map, Tries.mk.injEq] at hrest
      by_cases hagain : Again cmd (.failure e)
      · have hretried : retried cmd e = true := hagain
        rw [retry_cons_of_pos hagain, fcntlLoop, if_pos hretried, Locked.tries, Tries.map]
        dsimp only
        rw [hrest.1, hrest.2]
      · have hretried : ¬retried cmd e = true := hagain
        rw [retry_cons_of_neg hagain, fcntlLoop, if_neg hretried]
        rfl

/-- **The loop** repeats its call for the command that does not wait. -/
theorem LockFn.tries_eq (fn : LockFn) (hreq : (lockType flags).isSome) (outcomes : List Fcntl) :
    (fn.run strerror errno str fd flags errormsg outcomes).tries =
      (retry (Again (command flags)) outcomes).map Fcntl.ret := by
  obtain ⟨lType, htype⟩ := Option.isSome_iff_exists.mp hreq
  cases fn with
  | file =>
    rw [run, fileLock, lockIn, htype]
    exact fcntlLoop_tries outcomes
  | record start len =>
    rw [run, recordLock, lockIn, htype]
    exact fcntlLoop_tries outcomes

end Loop

/-! ### When the functions do what is asked for -/

/-- The outcome is a failure that the code takes for the other of the two cases. -/
def Misjudged (flags : BitVec 32) (o : Fcntl) : Prop :=
  o.Failed eintr ∨ Has flags lockNb ∧ (o.Failed eacces ∨ o.Failed efsexclwr)

instance (flags : BitVec 32) : DecidablePred (Misjudged flags) :=
  fun _ => inferInstanceAs (Decidable (_ ∨ _))

theorem again_iff {flags : BitVec 32} {o : Fcntl} :
    Again (command flags) o ↔
      Has flags lockNb ∧ (o.Failed eacces ∨ o.Failed eintr ∨ o.Failed efsexclwr) := by
  by_cases hnb : Has flags lockNb
  · cases o with
    | success value => simp [Again, Fcntl.Failed]
    | failure errno => simp [Again, retried, command, hnb, Fcntl.Failed]
  · cases o with
    | success value => simp [Again, Fcntl.Failed]
    | failure errno => simp [Again, retried, command, hnb, fSetlk, fSetlkw]

/-- A failure is misjudged if the code repeats a call that is not to be repeated, or the other way
round. -/
theorem not_misjudged_iff {flags : BitVec 32} {o : Fcntl} :
    ¬Misjudged flags o ↔ ¬Again (command flags) o ∧ ¬ToRepeat flags o := by
  rw [again_iff, Misjudged, ToRepeat]
  tauto

/-- **The locks.** A request is met if and only if the first call of `fcntl` is not interrupted and,
with `LOCK_NB`, does not fail with one of the errors that the loop takes for okay. -/
theorem LockFn.meetsRequest_iff (fn : LockFn) (strerror : ℤ → List Char) (errno : ℤ)
    (str : List Char) (fd : ℤ) {flags : BitVec 32} (hreq : (lockType flags).isSome)
    (errormsg : Bool) (outcomes : List Fcntl) :
    MeetsRequest (fn.run strerror errno str fd flags errormsg outcomes) flags outcomes ↔
      ∀ o ∈ outcomes.head?, ¬Misjudged flags o := by
  rw [meetsRequest_iff_tries, fn.tries_eq hreq,
    retry_map_eq_iff fun o h => h.2.1 (again_iff.mp h.1).1]
  exact forall₂_congr fun o _ => not_misjudged_iff.symm

theorem LockFn.meetsRequest_exclusive :
    MeetsRequest (LockFn.file.run (fun _ => []) 0 [] 3 2 true [.failure 35]) 2 [.failure 35] :=
  (LockFn.file.meetsRequest_iff (fun _ => []) 0 [] 3 (by decide) true [.failure 35]).mpr (by decide)

/-- A signal arrives while a lock is asked for without waiting: the call is made again. -/
theorem fileLock_not_meetsRequest :
    ¬MeetsRequest (fileLock (fun _ => []) 0 [] 3 (lockEx ||| lockNb) false
      [.failure eintr, .success 0]) (lockEx ||| lockNb) [.failure eintr, .success 0] := by
  intro h
  obtain ⟨hcalls, -⟩ := h.once (by decide) _ rfl
  exact absurd hcalls (by decide)

end FileLock

end SnowballLtp
