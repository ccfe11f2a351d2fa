import SnowballLtp.Machine.CInt
import SnowballLtp.Ltp.LioMethods
import SnowballLtp.Ltp.LioSync

/-!
# Asynchronous I/O

Waiting for asynchronous I/O, and the check of its result. `lio_check_asyncio` asks for the error
until it is not `EINPROGRESS` any more. After more than one question it returns the error with the
opposite sign, also where there is no error and the count of bytes is to be returned.

`lio_wait4asyncio` suspends where the method has none of the ways of waiting in `LIO_WAIT_TYPES`.
That mask has one way, which is tested next, so that the branches behind it are never taken.

## Main definitions

* `AsyncAnswers`: what the kernel says about asynchronous I/O.
* `lioCheckAsyncio`, `lioWait4asyncio`.
* `waitInOrder`: the waiting that is documented.

## Main results

* `lioCheckAsyncio_outcome`, `checksTransfer_iff`: the result that is returned.
* `lioWait4asyncio_eq`: the branches that are taken.
* `waitsInOrder_iff`.
-/

namespace SnowballLtp

namespace Lio

/-! ### Signals -/

/-- `aio_sigevent`. -/
structure Sigevent where
  notify : Notify
  signo : ℤ
  deriving DecidableEq, Repr

/-- `sighold`, which has no effect on a signal that cannot be held. -/
def sighold (holdable : ℤ → Bool) (sig : ℤ) : Run Unit :=
  modify fun s => if holdable sig then { s with held := sig :: s.held } else s

/-- `sigrelse`. -/
def sigrelse (sig : ℤ) : Run Unit :=
  modify fun s => { s with held := s.held.filter fun h => h ≠ sig }

/-! ### Checking -/

/-- What the kernel says about asynchronous I/O, beside the values of `aio_error`: whether `pause`
returns, and how often the process looks for the signal before it has come. -/
structure AsyncAnswers where
  suspend : Except Errno Unit
  aioReturn : ℤ
  pauses : Bool
  signalAfter : Option ℕ

/-- Calls of `aio_error` until it does not say `EINPROGRESS`: the last value, the number of calls,
and what it would say next. -/
def pollErrors (cnt : ℤ) : List ℤ → Option (ℤ × ℤ × List ℤ)
  | [] => none
  | ret :: errors =>
    if ret = einprogress then pollErrors (int32 (1 + cnt)) errors else some (ret, cnt, errors)

def awaitError : Run (ℤ × ℤ) := fun s =>
  match pollErrors 1 s.errors with
  | some (ret, cnt, errors) => .ok (ret, cnt) { s with errors }
  | none => .error .waiting { s with errors := [] }

/-- `lio_check_asyncio`. -/
def lioCheckAsyncio (answers : AsyncAnswers) (ioType : String) (size : ℤ) (event : Sigevent)
    (method : BitVec 32) : Run ℤ := do
  onlyIf (event.notify = .signal) (sigrelse event.signo)
  let (ret, cnt) ← awaitError
  if cnt > 1 then do
    complain (.hadToLoop ioType cnt method event.notify)
    return -ret
  else if ret ≠ 0 then do
    complain (.errorSet ioType ret method)
    return -ret
  else do
    let ret := int32 answers.aioReturn
    onlyIf (ret ≠ size) (complain (.returnNotAsExpected ioType size ret))
    return ret

/-! ### Waiting -/

def waited (w : Waiting) : Run Unit := modify fun s => { s with waits := s.waits ++ [w] }

/-- `aio_suspend`. An interruption is as good as the end of the I/O if the signal announces it. -/
def waitSuspended (answers : AsyncAnswers) (event : Sigevent) : Run ℤ := do
  waited .suspend
  match answers.suspend with
  | .ok () => return 0
  | .error errno =>
    if errno = eintr then
      if event.notify = .signal then return 0
      else do
        complain (.suspendInterrupted event.notify)
        return -errno
    else do
      complain (.suspendFailed errno)
      return -errno

/-- The loop around `aio_error`. -/
def waitPolling : Run ℤ := do
  waited .active
  let _ ← awaitError
  return 0

/-- `pause`. -/
def waitPaused (answers : AsyncAnswers) : Run ℤ := do
  waited .sigpause
  if answers.pauses then return 0 else throw .waiting

/-- The passes of the loop that waits for the signal. -/
def spin (signo : ℤ) : ℕ → Run Unit
  | 0 => pure ()
  | n + 1 => do
    sigrelse signo
    spin signo n

def waitSpinning (answers : AsyncAnswers) (event : Sigevent) : Run ℤ :=
  if event.notify = .signal then do
    sigrelse event.signo
    waited .sigactive
    match answers.signalAfter with
    | some n => do
      spin event.signo n
      return 0
    | none => throw .waiting
  else return -1

def waitForNothing : Run ℤ := do
  complain .waitNoneSelected
  return -1

/-- `LIO_WAIT_RECALL` and the variants of suspending. -/
def Suspends (method : BitVec 32) : Prop :=
  method &&& waitRecall ≠ 0 ∨ method &&& waitCbsuspend ≠ 0 ∨ method &&& waitSigsuspend ≠ 0

instance (method : BitVec 32) : Decidable (Suspends method) :=
  inferInstanceAs (Decidable (_ ∨ _ ∨ _))

/-- `lio_wait4asyncio`. -/
def lioWait4asyncio (answers : AsyncAnswers) (method : BitVec 32) (event : Sigevent) : Run ℤ :=
  if Suspends method ∨ method &&& waitTypes = 0 then waitSuspended answers event
  else if method &&& waitActive ≠ 0 then waitPolling
  else if method &&& waitSigpause ≠ 0 then waitPaused answers
  else if method &&& waitSigactive ≠ 0 then waitSpinning answers event
  else if method &&& waitNone ≠ 0 then waitForNothing
  else return -1

/-! ### The result of a check -/

section Check

variable {answers : AsyncAnswers} {ioType : String} {size : ℤ} {event : Sigevent}
  {method : BitVec 32} {s : Session} {k : ℕ} {e c : ℤ} {rest : List ℤ}

/-- `EINPROGRESS` some times and then something else. -/
theorem pollErrors_replicate (k : ℕ) (cnt : ℤ) (he : e ≠ einprogress) (rest : List ℤ) :
    pollErrors (int32 cnt) (List.replicate k einprogress ++ e :: rest) =
      some (e, int32 (k + cnt), rest) := by
  induction k generalizing cnt with
  | zero => rw [List.replicate_zero, List.nil_append, pollErrors, if_neg he, Int.natCast_zero,
      Int.zero_add]
  | succ k ih =>
    have hcnt : int32 (1 + int32 cnt) = int32 (1 + cnt) := by
      rw [int32_eq_wrap cnt, int32_eq_wrap, int32_eq_wrap, wrap_add_wrap]
    rw [List.replicate_succ, List.cons_append, pollErrors, if_pos rfl, hcnt, ih (1 + cnt),
      Int.natCast_add, Int.natCast_one, Int.add_assoc]

theorem awaitError_run (hs : s.errors = List.replicate k einprogress ++ e :: rest)
    (he : e ≠ einprogress) :
    awaitError.run s = .ok (e, int32 (k + 1)) { s with errors := rest } := by
  have hpoll := pollErrors_replicate k 1 he rest
  rw [← hs, show int32 1 = 1 by rfl] at hpoll
  simp only [awaitError, EStateM.run]
  rw [hpoll]

/-- **The result of a check** is the error with the opposite sign after more than one question, and
after an error; the count of bytes otherwise. -/
theorem lioCheckAsyncio_outcome (answers : AsyncAnswers) (ioType : String) (size : ℤ)
    (event : Sigevent) (method : BitVec 32)
    (hs : s.errors = List.replicate k einprogress ++ e :: rest) (he : e ≠ einprogress) :
    Outcome (lioCheckAsyncio answers ioType size event method) s
      (fun r _ => r = if 1 < int32 (k + 1) ∨ e ≠ 0 then -e else int32 answers.aioReturn)
      (fun _ _ => False) := by
  have hrelease : Outcome (onlyIf (event.notify = .signal) (sigrelse event.signo)) s
      (fun _ s₁ => s₁.errors = s.errors) fun _ _ => False :=
    Outcome.onlyIf (fun _ => Outcome.of_ok rfl rfl) fun _ => rfl
  refine hrelease.bind fun _ s₁ hs₁ => ?_
  refine Outcome.bind_of_ok (awaitError_run (hs₁.trans hs) he) ?_
  generalize int32 (k + 1) = cnt
  by_cases hcnt : 1 < cnt
  · rw [if_pos (Or.inl hcnt)]
    simp only [if_pos hcnt]
    exact Outcome.bind_of_ok rfl (Outcome.of_ok rfl rfl)
  · by_cases herr : e ≠ 0
    · rw [if_pos (Or.inr herr)]
      simp only [if_neg hcnt, if_pos herr]
      exact Outcome.bind_of_ok rfl (Outcome.of_ok rfl rfl)
    · rw [if_neg (not_or.mpr ⟨hcnt, herr⟩)]
      simp only [if_neg hcnt, if_neg herr]
      have hcomplain (s₂ : Session) : Outcome (onlyIf (int32 answers.aioReturn ≠ size)
          (complain (.returnNotAsExpected ioType size (int32 answers.aioReturn)))) s₂
          (fun _ _ => True) fun _ _ => False :=
        Outcome.onlyIf (fun _ => Outcome.of_ok rfl trivial) fun _ => trivial
      exact (hcomplain _).bind fun _ _ _ => Outcome.of_ok rfl rfl

/-- The result that is documented: the error with the opposite sign, and the count of bytes if there
is none, however often the kernel says `EINPROGRESS` before. -/
def ChecksTransfer (answers : AsyncAnswers) (ioType : String) (size : ℤ) (event : Sigevent)
    (method : BitVec 32) (e : ℤ) (s : Session) : Prop :=
  Outcome (lioCheckAsyncio answers ioType size event method) s
    (fun r _ => r = if e ≠ 0 then -e else answers.aioReturn) (fun _ _ => False)

/-- **The checks that give the transfer.** -/
theorem checksTransfer_iff (answers : AsyncAnswers) (ioType : String) (size : ℤ)
    (event : Sigevent) (method : BitVec 32)
    (hs : s.errors = List.replicate k einprogress ++ e :: rest) (he : e ≠ einprogress) :
    ChecksTransfer answers ioType size event method e s ↔
      e ≠ 0 ∨ answers.aioReturn = 0 ∨ int32 (k + 1) ≤ 1 ∧ InInt32 answers.aioReturn := by
  obtain ⟨r, s', hrun, hr⟩ :=
    (lioCheckAsyncio_outcome answers ioType size event method hs he).exists_ok
  rw [ChecksTransfer, Outcome.iff_of_ok hrun, hr]
  by_cases herr : e = 0
  · by_cases hcnt : 1 < int32 (k + 1)
    · rw [if_pos (Or.inl hcnt), if_neg (not_not_intro herr), herr]
      constructor
      · exact fun h => Or.inr (Or.inl (by omega))
      · rintro (hne | hzero | ⟨hle, -⟩)
        · exact absurd rfl hne
        · omega
        · omega
    · rw [if_neg (not_or.mpr ⟨hcnt, not_not_intro herr⟩), if_neg (not_not_intro herr),
        int32_eq_self_iff]
      constructor
      · exact fun h => Or.inr (Or.inr ⟨by omega, h⟩)
      · rintro (hne | hzero | ⟨-, hint⟩)
        · exact absurd herr hne
        · exact hzero ▸ ⟨by decide, by decide⟩
        · exact hint
  · rw [if_pos (Or.inr herr), if_pos herr]
    exact iff_of_true rfl (Or.inl herr)

end Check

/-- A process that has not done anything, and what `aio_error` is going to say. -/
def idle (errors : List ℤ) : Session :=
  { calls := [], memory := [], held := [], errors, waits := [], errormsg := none }

/-- Everything is well, and 10 bytes have been moved. -/
def allWell : AsyncAnswers :=
  { suspend := .ok (), aioReturn := 10, pauses := false, signalAfter := none }

theorem checksTransfer_atOnce :
    ChecksTransfer allWell "aio_write" 10 ⟨.none, 0⟩ ioAsync 0 (idle [0]) :=
  (checksTransfer_iff (k := 0) allWell "aio_write" 10 ⟨.none, 0⟩ ioAsync rfl (by decide)).mpr
    (Or.inr (Or.inr ⟨by decide, by decide, by decide⟩))

/-- One more question, and the 10 bytes are zero bytes. -/
theorem not_checksTransfer_afterOne :
    ¬ChecksTransfer allWell "aio_write" 10 ⟨.none, 0⟩ ioAsync 0 (idle [einprogress, 0]) := fun h =>
  have hrun : (lioCheckAsyncio allWell "aio_write" 10 ⟨.none, 0⟩ ioAsync).run
      (idle [einprogress, 0]) = .ok 0
        { idle [] with errormsg := some (.hadToLoop "aio_write" 2 ioAsync .none) } := rfl
  absurd ((Outcome.iff_of_ok hrun).mp h) (by decide)

/-! ### The ways of waiting -/

section Wait

variable {answers : AsyncAnswers} {method : BitVec 32} {event : Sigevent}

/-- The waiting that is documented: the first of the methods that are set, in the documented order,
and suspending if there is none. -/
def waitInOrder (answers : AsyncAnswers) (method : BitVec 32) (event : Sigevent) : Run ℤ :=
  if Suspends method then waitSuspended answers event
  else if method &&& waitActive ≠ 0 then waitPolling
  else if method &&& waitSigpause ≠ 0 then waitPaused answers
  else if method &&& waitSigactive ≠ 0 then waitSpinning answers event
  else if method &&& waitNone ≠ 0 then waitForNothing
  else waitSuspended answers event

/-- **The branches that are taken**: suspending, unless the method is to wait actively. -/
theorem lioWait4asyncio_eq (answers : AsyncAnswers) (method : BitVec 32) (event : Sigevent) :
    lioWait4asyncio answers method event =
      if Suspends method ∨ method &&& waitActive = 0 then waitSuspended answers event
      else waitPolling := by
  by_cases hactive : Suspends method ∨ method &&& waitActive = 0
  · rw [if_pos hactive]
    exact if_pos hactive
  · rw [if_neg hactive]
    exact (if_neg hactive).trans (if_pos (not_or.mp hactive).2)

/-- The value that a computation returns. -/
def returned : EStateM.Result Stop Session ℤ → Option ℤ
  | .ok r _ => some r
  | .error _ _ => none

/-- The way of waiting is the one that is documented. -/
def WaitsInOrder (method : BitVec 32) : Prop :=
  ∀ answers event s, (lioWait4asyncio answers method event).run s =
    (waitInOrder answers method event).run s

/-- **The methods that wait as documented.** -/
theorem waitsInOrder_iff (method : BitVec 32) :
    WaitsInOrder method ↔ Suspends method ∨ method &&& waitActive ≠ 0 ∨
      method &&& waitSigpause = 0 ∧ method &&& waitSigactive = 0 ∧ method &&& waitNone = 0 := by
  by_cases hsusp : Suspends method
  · refine iff_of_true (fun answers event s => ?_) (Or.inl hsusp)
    rw [lioWait4asyncio_eq, waitInOrder, if_pos (Or.inl hsusp), if_pos hsusp]
  by_cases hactive : method &&& waitActive = 0
  · constructor
    · -- an I/O that is over at once, and a signal that does not come
      intro h
      have hrun := h allWell ⟨.none, 0⟩ (idle [])
      rw [lioWait4asyncio_eq, if_pos (Or.inr hactive), waitInOrder, if_neg hsusp,
        if_neg (not_not_intro hactive)] at hrun
      replace hrun := congrArg returned hrun
      split_ifs at hrun with hpause hspin hnone
      · exact absurd hrun (by decide)
      · exact absurd hrun (by decide)
      · exact absurd hrun (by decide)
      · exact Or.inr (Or.inr ⟨not_not.mp hpause, not_not.mp hspin, not_not.mp hnone⟩)
    · rintro (h | h | ⟨hpause, hspin, hnone⟩) answers event s
      · exact absurd h hsusp
      · exact absurd hactive h
      · rw [lioWait4asyncio_eq, waitInOrder, if_pos (Or.inr hactive), if_neg hsusp,
          if_neg (not_not_intro hactive), if_neg (not_not_intro hpause),
          if_neg (not_not_intro hspin), if_neg (not_not_intro hnone)]
  · refine iff_of_true (fun answers event s => ?_) (Or.inr (Or.inl hactive))
    rw [lioWait4asyncio_eq, waitInOrder, if_neg (not_or.mpr ⟨hsusp, hactive⟩), if_neg hsusp,
      if_pos hactive]

/-- The token for asynchronous I/O with `pause`: the process is suspended instead. -/
theorem not_waitsInOrder_b : ¬WaitsInOrder (lioParseIoArg1 ['b']) := fun h => by
  have hrun := congrArg returned (h allWell ⟨.none, 0⟩ (idle []))
  exact absurd hrun (by decide)

end Wait

end Lio

end SnowballLtp
