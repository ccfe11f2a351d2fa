import SnowballLtp.Ltp.LioAsync

/-!
# Writing and reading a buffer

`lio_write_buffer` and `lio_read_buffer` look up the method, the position in the file and the signal
to use, and then make the calls of the method. The signal is held before an asynchronous request is
submitted. It is released when the request is refused, and by the check of the result when it is the
signal that announces the end of the I/O.

A signal is therefore left held after a request that was submitted if the method has
`LIO_USE_SIGNAL` and no way of waiting for the signal, or if suspending fails.

What the synchronous loop returns is what the whole call returns. It is the count of the last call
to `write` or `read`, where the amount of data of the whole call is documented.

## Main definitions

* `Kernel`: what the kernel says.
* `lioBuffer`, `lioWriteBuffer`, `lioReadBuffer`.
* `ReturnsTotal`, `LeavesHeld`.

## Main results

* `returnsTotal_iff`: when the amount of data is returned.
* `held_iff`: when the signal is left held.
-/

namespace SnowballLtp

namespace Lio

variable {δ : Type}

/-! ### The functions -/

/-- What the kernel says: the draws for a random method, the position in the file and the `errno`
behind it, the answers to `write` or `read`, whether an asynchronous request is submitted, the
answers to the calls with a vector and with a position, and which signals can be held. -/
structure Kernel (δ : Type) extends AsyncAnswers where
  fuel : ℕ
  lrandIo : ℤ
  lrandWait : ℤ
  lseek : ℤ
  lseekErrno : ℤ
  transfers : List (Except Errno δ)
  submit : Except Errno Unit
  vectored : Except Errno ℕ
  positioned : Except Errno ℕ
  holdable : ℤ → Bool

/-- The new method where `LIO_RANDOM` is set. -/
def chosenMethod (k : Kernel δ) (method : BitVec 32) : Except Stop (BitVec 32) :=
  if method &&& random ≠ 0 then
    match lioRandomMethods k.fuel k.lrandIo k.lrandWait (method.signExtend 64) with
    | some (.ok chosen) => .ok chosen
    | some (.error fault) => .error (.fault fault)
    | none => .error .waiting
  else .ok method

/-- The position in the file is asked for. On a pipe a random `pwrite` or `pread` becomes a `write`
or `read`; any other failure is what the function returns. -/
def seekMethod (k : Kernel δ) (omethod method : BitVec 32) : Except ℤ (BitVec 32) :=
  if int32 k.lseek = -1 then
    if k.lseekErrno = espipe then
      if method &&& ioSyncp ≠ 0 ∧ omethod &&& random ≠ 0 then .ok (method &&& ~~~ioSyncp ||| ioSync)
      else .ok method
    else .error (-k.lseekErrno)
  else .ok method

/-- The signal that is used. -/
def usedSignal (method : BitVec 32) (sig : ℤ) : ℤ :=
  let sig := if sig ≠ 0 ∧ method &&& useSignal = 0 ∧ method &&& waitSigtypes = 0 then 0 else sig
  if sig ≠ 0 ∧ method &&& waitCbtypes ≠ 0 then 0 else sig

/-- `aio_sigevent`. -/
def sigeventOf (method : BitVec 32) (sig : ℤ) : Sigevent :=
  if sig ≠ 0 ∧ method &&& waitSigtypes ≠ 0 then ⟨.signal, sig⟩
  else if method &&& waitCbtypes ≠ 0 then ⟨.thread, 0⟩
  else ⟨.none, 0⟩

/-- `sigset` with a handler, which also releases the signal. -/
def sigset (sig : ℤ) : Run Unit :=
  modify fun s => { s with held := s.held.filter fun h => h ≠ sig }

/-- A request is submitted while the signal is held. -/
def submitted (k : Kernel δ) (ioType : String) (size sig : ℤ) (next : Run ℤ) : Run ℤ := do
  onlyIf (sig ≠ 0) (sighold k.holdable sig)
  match k.submit with
  | .ok () => next
  | .error errno => do
    complain (.callFailed ioType size errno)
    onlyIf (sig ≠ 0) (sigrelse sig)
    return -errno

/-- The end of the asynchronous I/O. -/
def waitAndCheck (k : Kernel δ) (ioType : String) (size : ℤ) (event : Sigevent)
    (method : BitVec 32) : Run ℤ := do
  let ret ← lioWait4asyncio k.toAsyncAnswers method event
  if ret < 0 then return ret
  else if ret = 1 then return size
  else lioCheckAsyncio k.toAsyncAnswers ioType size event method

/-- `writev`, `readv`, `pwrite` and `pread`, which are called once. -/
def calledOnce (ioType : String) (size : ℤ) (answer : Except Errno ℕ) : Run ℤ :=
  match answer with
  | .ok ret => do
    onlyIf (ret ≠ size) (complain (.callReturned ioType size ret))
    return ret
  | .error errno => do
    complain (.callFailed ioType size errno)
    return -errno

/-- The calls of a method. -/
def perform (dir : Direction δ) (k : Kernel δ) (method : BitVec 32) (size sig : ℤ)
    (event : Sigevent) : Run ℤ :=
  if method &&& ioSync ≠ 0 ∨ method &&& (ioTypes ||| ioAtypes) = 0 then
    syncLoop dir k.transfers 0 size
  else if method &&& ioAsync ≠ 0 then
    submitted k dir.ioTypes.async size sig
      (waitAndCheck k dir.ioTypes.async size event method)
  else if method &&& ioSlistio ≠ 0 then
    submitted k dir.ioTypes.slistio size sig
      (lioCheckAsyncio k.toAsyncAnswers dir.ioTypes.slistio size event method)
  else if method &&& ioAlistio ≠ 0 then
    submitted k dir.ioTypes.alistio size sig
      (waitAndCheck k dir.ioTypes.alistio size event method)
  else if method &&& ioSyncv ≠ 0 then calledOnce dir.ioTypes.syncv size k.vectored
  else if method &&& ioSyncp ≠ 0 then calledOnce dir.ioTypes.syncp size k.positioned
  else return -1

/-- What the buffer functions have in common. -/
def lioBuffer (dir : Direction δ) (k : Kernel δ) (method : BitVec 32) (size sig : ℤ) : Run ℤ :=
  match chosenMethod k method with
  | .error stop => throw stop
  | .ok chosen =>
    match seekMethod k method chosen with
    | .error ret => do
      complain (.seekFailed k.lseekErrno)
      return ret
    | .ok chosen => do
      let used := usedSignal chosen sig
      onlyIf (used ≠ 0 ∧ chosen &&& waitSigtypes ≠ 0) (sigset used)
      perform dir k chosen size used (sigeventOf chosen used)

/-- `lio_write_buffer`. -/
def lioWriteBuffer (k : Kernel ℕ) (method : BitVec 32) (size sig : ℤ) : Run ℤ :=
  lioBuffer writing k method size sig

/-- `lio_read_buffer`. -/
def lioReadBuffer (k : Kernel (List UInt8)) (method : BitVec 32) (size sig : ℤ) : Run ℤ :=
  lioBuffer reading k method size sig

/-! ### The amount of data -/

section Total

variable {method : BitVec 32} {size sig : ℤ} {s : Session}

/-- The position in the file can be asked for, or the file is a pipe. -/
def Seekable (k : Kernel δ) : Prop := int32 k.lseek ≠ -1 ∨ k.lseekErrno = espipe

/-- A method that is not random stays as it is. -/
theorem methods_of_seekable (k : Kernel δ) (hrandom : method &&& random = 0) (hseek : Seekable k) :
    chosenMethod k method = .ok method ∧ seekMethod k method method = .ok method := by
  refine ⟨if_neg (not_not_intro hrandom), ?_⟩
  rw [seekMethod]
  by_cases hlseek : int32 k.lseek = -1
  · rw [if_pos hlseek, if_pos (hseek.resolve_left (not_not_intro hlseek)),
      if_neg fun h => h.2 hrandom]
  · rw [if_neg hlseek]

/-- A method with `LIO_IO_SYNC` runs the loop, after a change of the signals at most. -/
theorem lioBuffer_of_sync (dir : Direction δ) (k : Kernel δ) (hsync : method &&& ioSync ≠ 0)
    (hrandom : method &&& random = 0) (hseek : Seekable k) (size sig : ℤ) (s : Session) :
    ∃ held, (lioBuffer dir k method size sig).run s =
      (syncLoop dir k.transfers 0 size).run { s with held } := by
  obtain ⟨hchosen, hseeks⟩ := methods_of_seekable k hrandom hseek
  have hperform (sig : ℤ) (event : Sigevent) : perform dir k method size sig event =
      syncLoop dir k.transfers 0 size := if_pos (Or.inl hsync)
  by_cases hsig : usedSignal method sig ≠ 0 ∧ method &&& waitSigtypes ≠ 0
  · refine ⟨s.held.filter fun h => h ≠ usedSignal method sig, ?_⟩
    simp only [lioBuffer, hchosen, hseeks, hperform, onlyIf_of_pos hsig]
    rfl
  · refine ⟨s.held, ?_⟩
    simp only [lioBuffer, hchosen, hseeks, hperform, onlyIf_of_neg hsig]
    rfl

/-- The value returned is the amount of data that the calls of the loop have moved. -/
def ReturnsTotal (dir : Direction δ) (k : Kernel δ) (method : BitVec 32) (size sig : ℤ)
    (s : Session) : Prop :=
  ∃ r s', (lioBuffer dir k method size sig).run s = .ok r s' ∧ r = (joined s'.calls).length

theorem returnsTotal_iff_of_effects {dir : Direction δ} {k : Kernel δ}
    {inv : List UInt8 → List (Chunk UInt8) → Prop} (heff : Effects dir size inv)
    (hsync : method &&& ioSync ≠ 0) (hrandom : method &&& random = 0) (hseek : Seekable k)
    (hsize : 0 ≤ size) (hcalls : s.calls = []) (hinv : inv s.memory [])
    (hans : Transient dir size k.transfers) {r : ℤ} {s' : Session}
    (hrun : (lioBuffer dir k method size sig).run s = .ok r s') :
    ReturnsTotal dir k method size sig s ↔ FirstMovesAll dir size k.transfers := by
  obtain ⟨held, heq⟩ := lioBuffer_of_sync dir k hsync hrandom hseek size sig s
  have hstart : Moving size inv 0 size { s with held } := moving_start hsize hcalls hinv
  obtain ⟨gained, htotal, -, hiff⟩ :=
    (Outcome.iff_of_ok (heq ▸ hrun)).mp (syncLoop_returns heff hstart hans)
  rw [← hiff]
  constructor
  · rintro ⟨r₁, s₁, hrun₁, hr₁⟩
    obtain ⟨rfl, rfl⟩ := EStateM.Result.ok.inj (hrun₁.symm.trans hrun)
    omega
  · exact fun h => ⟨r, s', hrun, by omega⟩

end Total

/-- A kernel that refuses nothing, for the answers to `write` or `read`. -/
def steady (transfers : List (Except Errno δ)) : Kernel δ :=
  { allWell with
    fuel := 65
    lrandIo := 0
    lrandWait := 0
    lseek := 0
    lseekErrno := 0
    transfers
    submit := .ok ()
    vectored := .ok 10
    positioned := .ok 10
    holdable := fun sig => decide (1 ≤ sig ∧ sig ≤ 64 ∧ sig ≠ 9 ∧ sig ≠ 19) }

/-- A buffer of ten bytes. -/
def tenBytes : Session := { idle [0] with memory := List.replicate 10 65 }

/-- The computation releases the signal under the condition, and changes no signals otherwise. -/
def Releases (sig : ℤ) (released : Prop) (m : Run ℤ) : Prop :=
  ∀ s, Outcome m s
    (fun _ s' => (released → s'.held = s.held.filter fun h => h ≠ sig) ∧
      (¬released → s'.held = s.held))
    fun _ _ => True

/-- The computation changes no signals. -/
def KeepsHeld {α : Type} (m : Run α) : Prop :=
  ∀ held, Keeps (fun s => s.held = held) (fun _ => True) m

section Held

variable {answers : AsyncAnswers} {ioType : String} {size sig : ℤ} {event : Sigevent}
  {method : BitVec 32} {s : Session} {m : Run ℤ} {released : Prop}

theorem KeepsHeld.bind {α β : Type} {m : Run α} {f : α → Run β} (hm : KeepsHeld m)
    (hf : ∀ a, KeepsHeld (f a)) : KeepsHeld (m >>= f) :=
  fun held => (hm held).bind fun a => hf a held

theorem KeepsHeld.outcome {α : Type} {m : Run α} {held : List ℤ} (h : KeepsHeld m)
    (hs : s.held = held) : Outcome m s (fun _ s' => s'.held = held) fun _ _ => True :=
  (h held s hs).mono (fun _ _ hheld => hheld) fun _ _ _ => trivial

theorem keepsHeld_pure {α : Type} (a : α) : KeepsHeld (pure a : Run α) := fun _ => keeps_pure a

theorem keepsHeld_throw {α : Type} (stop : Stop) : KeepsHeld (throw stop : Run α) :=
  fun _ => keeps_throw trivial

theorem keepsHeld_complain (msg : Message) : KeepsHeld (complain msg) :=
  fun _ => keeps_modify fun _ h => h

theorem keepsHeld_onlyIf {c : Prop} [Decidable c] {m : Run Unit} (hm : KeepsHeld m) :
    KeepsHeld (onlyIf c m) := fun held => keeps_onlyIf fun _ => hm held

/-- A computation that says something and returns. -/
theorem keepsHeld_complain_pure (msg : Message) (r : ℤ) :
    KeepsHeld (do complain msg; return r) :=
  (keepsHeld_complain msg).bind fun _ => keepsHeld_pure r

theorem keepsHeld_awaitError : KeepsHeld awaitError := fun held s hs => by
  simp only [awaitError, Outcome, EStateM.run]
  cases pollErrors 1 s.errors with
  | none => exact ⟨trivial, hs⟩
  | some answer => exact hs

theorem keepsHeld_syncLoop (dir : Direction δ) (answers : List (Except Errno δ)) (pos : ℕ)
    (size : ℤ) : KeepsHeld (syncLoop dir answers pos size) := by
  induction answers generalizing pos size with
  | nil => exact KeepsHeld.bind (fun _ => keeps_modify fun _ h => h) fun _ => keepsHeld_throw _
  | cons answer answers ih =>
    cases answer with
    | error errno =>
      refine KeepsHeld.bind (fun _ => keeps_modify fun _ h => h) fun _ => ?_
      split_ifs
      · exact keepsHeld_complain_pure _ _
      · exact ih pos size
    | ok d =>
      refine KeepsHeld.bind (fun _ => keeps_modify fun _ h => h) fun _ => ?_
      split_ifs
      · exact keepsHeld_pure _
      · exact (keepsHeld_complain _).bind fun _ => ih _ _
      · exact keepsHeld_pure _

theorem keepsHeld_calledOnce (ioType : String) (size : ℤ) (answer : Except Errno ℕ) :
    KeepsHeld (calledOnce ioType size answer) := by
  cases answer with
  | ok ret => exact (keepsHeld_onlyIf (keepsHeld_complain _)).bind fun _ => keepsHeld_pure _
  | error errno => exact keepsHeld_complain_pure _ _

/-- **The check** releases the signal that announces the end of the I/O. -/
theorem releases_lioCheckAsyncio (answers : AsyncAnswers) (ioType : String) (size : ℤ)
    (method : BitVec 32) (hsigno : event.notify = .signal → event.signo = sig) :
    Releases sig (event.notify = .signal)
      (lioCheckAsyncio answers ioType size event method) := by
  intro s
  have hrelease : Outcome (onlyIf (event.notify = .signal) (sigrelse event.signo)) s
      (fun _ s₁ => (event.notify = .signal → s₁.held = s.held.filter fun h => h ≠ sig) ∧
        (event.notify ≠ .signal → s₁.held = s.held)) fun _ _ => True :=
    Outcome.onlyIf
      (fun h => Outcome.of_ok rfl ⟨fun _ => hsigno h ▸ rfl, fun hne => absurd h hne⟩)
      fun hne => ⟨fun h => absurd h hne, fun _ => rfl⟩
  refine hrelease.bind fun _ s₁ hs₁ => ?_
  refine Outcome.imp (KeepsHeld.outcome (KeepsHeld.bind keepsHeld_awaitError fun polled => ?_) rfl)
    fun _ _ heq => heq ▸ hs₁
  simp only
  split_ifs
  · exact keepsHeld_complain_pure _ _
  · exact keepsHeld_complain_pure _ _
  · exact (keepsHeld_onlyIf (keepsHeld_complain _)).bind fun _ => keepsHeld_pure _

/-- Suspending fails, and not by an interruption. -/
def SuspendFails (answers : AsyncAnswers) (method : BitVec 32) : Prop :=
  (Suspends method ∨ method &&& waitActive = 0) ∧
    ∃ errno, answers.suspend = .error errno ∧ errno ≠ eintr

/-- What waiting says, where a signal announces the end of the I/O. -/
theorem lioWait4asyncio_outcome (answers : AsyncAnswers) (method : BitVec 32) (event : Sigevent)
    (s : Session) :
    Outcome (lioWait4asyncio answers method event) s
      (fun r s' => s'.held = s.held ∧ r ≠ 1 ∧
        (event.notify = .signal → (r < 0 ↔ SuspendFails answers method)))
      fun _ _ => True := by
  rw [lioWait4asyncio_eq]
  split_ifs with hsuspends
  · refine Outcome.bind_of_ok rfl ?_
    cases hsuspend : answers.suspend with
    | ok done =>
      refine Outcome.of_ok rfl ⟨rfl, by decide, fun _ => iff_of_false (by decide) ?_⟩
      rintro ⟨-, errno, herr, -⟩
      rw [hsuspend] at herr
      cases herr
    | error errno =>
      have hpos := errno.2
      simp only
      split_ifs with hintr hnotify
      · refine Outcome.of_ok rfl ⟨rfl, by decide, fun _ => iff_of_false (by decide) ?_⟩
        rintro ⟨-, other, herr, hother⟩
        rw [hsuspend, Except.error.injEq] at herr
        exact hother (herr ▸ hintr)
      · exact Outcome.bind_of_ok rfl
          (Outcome.of_ok rfl ⟨rfl, by omega, fun h => absurd h hnotify⟩)
      · refine Outcome.bind_of_ok rfl (Outcome.of_ok rfl ⟨rfl, by omega, fun _ => ?_⟩)
        exact iff_of_true (by omega) ⟨hsuspends, errno, hsuspend, hintr⟩
  · refine Outcome.bind_of_ok rfl ?_
    refine Outcome.bind (@KeepsHeld.outcome { s with waits := s.waits ++ [.active] } _ _ s.held
      keepsHeld_awaitError rfl) fun _ s₁ hs₁ => ?_
    exact Outcome.of_ok rfl
      ⟨hs₁, by decide, fun _ => iff_of_false (by decide) fun h => hsuspends h.1⟩

/-- Waiting and checking release the signal, unless suspending fails. -/
theorem releases_waitAndCheck (k : Kernel δ) (ioType : String) (size : ℤ) (method : BitVec 32)
    (hsigno : event.notify = .signal → event.signo = sig) :
    Releases sig (event.notify = .signal ∧ ¬SuspendFails k.toAsyncAnswers method)
      (waitAndCheck k ioType size event method) := by
  intro s
  refine (lioWait4asyncio_outcome k.toAsyncAnswers method event s).bind ?_
  rintro r s₁ ⟨hheld, hone, hfails⟩
  by_cases hneg : r < 0
  · rw [if_pos hneg]
    refine Outcome.of_ok rfl ⟨fun h => absurd ((hfails h.1).mp hneg) h.2, fun _ => hheld⟩
  · rw [if_neg hneg, if_neg hone]
    refine (releases_lioCheckAsyncio k.toAsyncAnswers ioType size method hsigno s₁).imp ?_
    rintro _ s₂ ⟨hreleased, hkept⟩
    rw [hheld] at hreleased hkept
    refine ⟨fun h => hreleased h.1, fun h => hkept fun hnotify => ?_⟩
    exact h ⟨hnotify, fun hfail => hneg ((hfails hnotify).mpr hfail)⟩

/-- **A request** leaves the signal held if it is submitted and what follows does not release it. -/
theorem submitted_outcome (k : Kernel δ) (ioType : String) (size : ℤ) (hsig : sig ≠ 0)
    (hnext : Releases sig released m) (hs : sig ∉ s.held) :
    Outcome (submitted k ioType size sig m) s
      (fun _ s' => sig ∈ s'.held ↔
        k.submit = .ok () ∧ k.holdable sig = true ∧ ¬released)
      fun _ _ => True := by
  rw [submitted, onlyIf_of_pos hsig, onlyIf_of_pos hsig]
  refine Outcome.bind_of_ok rfl ?_
  cases hsubmit : k.submit with
  | ok done =>
    refine (hnext _).imp ?_
    rintro _ s' ⟨hreleased, hkept⟩
    by_cases hhold : k.holdable sig = true
    · simp only [if_pos hhold] at hreleased hkept
      by_cases hrel : released
      · rw [hreleased hrel]
        exact iff_of_false (by simp) fun h => h.2.2 hrel
      · rw [hkept hrel]
        exact iff_of_true List.mem_cons_self ⟨rfl, hhold, hrel⟩
    · simp only [if_neg hhold] at hreleased hkept
      refine iff_of_false ?_ fun h => hhold h.2.1
      by_cases hrel : released
      · rw [hreleased hrel]
        exact fun hmem => hs (List.mem_of_mem_filter hmem)
      · rw [hkept hrel]
        exact hs
  | error errno =>
    refine Outcome.bind_of_ok rfl (Outcome.bind_of_ok rfl (Outcome.of_ok rfl ?_))
    exact iff_of_false (by simp) fun h => by cases h.1

/-! ### What is left held -/

/-- The calls of the method are asynchronous, or those of `lio_listio`. -/
def Asynchronous (method : BitVec 32) : Prop :=
  method &&& ioSync = 0 ∧ method &&& ioAsyncTypes ≠ 0

/-- The process waits for the end of the I/O by itself. -/
def WaitsItself (method : BitVec 32) : Prop := method &&& ioAsync ≠ 0 ∨ method &&& ioSlistio = 0

theorem ioAsyncTypes_eq_zero_iff (method : BitVec 32) : method &&& ioAsyncTypes = 0 ↔
    method &&& ioAsync = 0 ∧ method &&& ioSlistio = 0 ∧ method &&& ioAlistio = 0 := by
  rw [ioAsyncTypes, BitVec.and_or_distrib_left, BitVec.and_or_distrib_left]
  exact BitVec.or_eq_zero_iff.trans ((and_congr_left' BitVec.or_eq_zero_iff).trans and_assoc)

theorem ioAsyncTypes_eq_zero_of_noType (h : method &&& (ioTypes ||| ioAtypes) = 0) :
    method &&& ioAsyncTypes = 0 := by
  calc method &&& ioAsyncTypes = method &&& (ioTypes ||| ioAtypes) &&& ioAsyncTypes := by
        rw [BitVec.and_assoc, show (ioTypes ||| ioAtypes) &&& ioAsyncTypes = ioAsyncTypes by decide]
    _ = 0 := by
        rw [h]
        exact BitVec.zero_and

/-- **The calls of a method**, as far as signals go. -/
theorem perform_cases (dir : Direction δ) (k : Kernel δ) (method : BitVec 32) (size sig : ℤ)
    (event : Sigevent) :
    (¬Asynchronous method ∧ KeepsHeld (perform dir k method size sig event)) ∨
      Asynchronous method ∧ ∃ ioType,
        (WaitsItself method ∧ perform dir k method size sig event =
          submitted k ioType size sig (waitAndCheck k ioType size event method)) ∨
        (¬WaitsItself method ∧ perform dir k method size sig event =
          submitted k ioType size sig
            (lioCheckAsyncio k.toAsyncAnswers ioType size event method)) := by
  have hzero := ioAsyncTypes_eq_zero_iff method
  rw [perform]
  split_ifs with hloop hasync hslistio halistio hsyncv hsyncp
  · refine Or.inl ⟨fun h => ?_, keepsHeld_syncLoop _ _ _ _⟩
    rcases hloop with hsync | hnone
    · exact hsync h.1
    · exact h.2 (ioAsyncTypes_eq_zero_of_noType hnone)
  all_goals
    have hsync : method &&& ioSync = 0 := not_not.mp (not_or.mp hloop).1
  · exact Or.inr ⟨⟨hsync, fun h => hasync (hzero.mp h).1⟩, _, Or.inl ⟨Or.inl hasync, rfl⟩⟩
  · exact Or.inr ⟨⟨hsync, fun h => hslistio (hzero.mp h).2.1⟩, _,
      Or.inr ⟨fun h => h.elim hasync hslistio, rfl⟩⟩
  · exact Or.inr ⟨⟨hsync, fun h => halistio (hzero.mp h).2.2⟩, _,
      Or.inl ⟨Or.inr (not_not.mp hslistio), rfl⟩⟩
  all_goals
    have hnone : ¬Asynchronous method := fun h =>
      h.2 (hzero.mpr ⟨not_not.mp hasync, not_not.mp hslistio, not_not.mp halistio⟩)
  · exact Or.inl ⟨hnone, keepsHeld_calledOnce _ _ _⟩
  · exact Or.inl ⟨hnone, keepsHeld_calledOnce _ _ _⟩
  · exact Or.inl ⟨hnone, keepsHeld_pure _⟩

/-- The method that is used in the end. -/
def MethodUsed (k : Kernel δ) (method used : BitVec 32) : Prop :=
  ∃ chosen, chosenMethod k method = .ok chosen ∧ seekMethod k method chosen = .ok used

/-- The method uses the signal. -/
def UsesSignal (method : BitVec 32) (sig : ℤ) : Prop :=
  sig ≠ 0 ∧ (method &&& useSignal ≠ 0 ∨ method &&& waitSigtypes ≠ 0) ∧ method &&& waitCbtypes = 0

/-- A request holds the signal, and neither the check nor anything else releases it. -/
structure StaysHeld (k : Kernel δ) (method : BitVec 32) (sig : ℤ) : Prop where
  asynchronous : Asynchronous method
  used : UsesSignal method sig
  submitted : k.submit = .ok ()
  holdable : k.holdable sig = true
  unreleased : method &&& waitSigtypes = 0 ∨
    WaitsItself method ∧ SuspendFails k.toAsyncAnswers method

/-- A call that leaves the signal held. -/
def LeavesHeld (k : Kernel δ) (method : BitVec 32) (sig : ℤ) : Prop :=
  ∃ used, MethodUsed k method used ∧ StaysHeld k used sig

theorem sigeventOf_notify (method : BitVec 32) (sig : ℤ) :
    (sigeventOf method sig).notify = .signal ↔ sig ≠ 0 ∧ method &&& waitSigtypes ≠ 0 := by
  rw [sigeventOf]
  split_ifs with hsignal hcb
  · exact iff_of_true rfl hsignal
  · exact iff_of_false (by decide) hsignal
  · exact iff_of_false (by decide) hsignal

theorem sigeventOf_signo (h : (sigeventOf method sig).notify = .signal) :
    (sigeventOf method sig).signo = sig := by
  rw [sigeventOf, if_pos ((sigeventOf_notify method sig).mp h)]

/-- A signal is used as it is, or not at all. -/
theorem usedSignal_cases (method : BitVec 32) (sig : ℤ) :
    usedSignal method sig = 0 ∨ usedSignal method sig = sig := by
  simp only [usedSignal]
  split_ifs
  all_goals first | exact Or.inl rfl | exact Or.inr rfl

theorem usedSignal_ne_zero_iff (method : BitVec 32) (sig : ℤ) :
    usedSignal method sig ≠ 0 ↔ UsesSignal method sig := by
  simp only [usedSignal, UsesSignal]
  split_ifs
  all_goals grind

/-- Without a signal no signal changes. -/
theorem submitted_zero (k : Kernel δ) (ioType : String) (size : ℤ) (hreleased : ¬released)
    (hnext : Releases sig released m) (s : Session) :
    Outcome (submitted k ioType size 0 m) s (fun _ s' => s'.held = s.held) fun _ _ => True := by
  rw [submitted, onlyIf_of_neg (not_not_intro rfl), onlyIf_of_neg (not_not_intro rfl)]
  refine Outcome.bind_of_ok rfl ?_
  cases k.submit with
  | ok done => exact (hnext s).imp fun _ _ h => h.2 hreleased
  | error errno => exact Outcome.bind_of_ok rfl (Outcome.bind_of_ok rfl (Outcome.of_ok rfl rfl))

/-- A request of an asynchronous method, whatever follows it. -/
theorem submitted_staysHeld (k : Kernel δ) (ioType : String) (size : ℤ)
    (hasync : Asynchronous method) (hnext : Releases (usedSignal method sig) released m)
    (hreleased : released ↔ (usedSignal method sig ≠ 0 ∧ method &&& waitSigtypes ≠ 0) ∧
      ¬(WaitsItself method ∧ SuspendFails k.toAsyncAnswers method))
    (hs : sig ∉ s.held) :
    Outcome (submitted k ioType size (usedSignal method sig) m) s
      (fun _ s' => sig ∈ s'.held ↔ StaysHeld k method sig) fun _ _ => True := by
  by_cases hused : usedSignal method sig = 0
  · have hnot : ¬released := fun h => (hreleased.mp h).1.1 hused
    rw [hused] at hnext ⊢
    refine (submitted_zero k ioType size hnot hnext s).imp fun _ s' hheld => ?_
    refine iff_of_false (hheld ▸ hs) fun h => ?_
    exact (usedSignal_ne_zero_iff method sig).mpr h.used hused
  · have heq := (usedSignal_cases method sig).resolve_left hused
    have hsig : sig ≠ 0 := heq ▸ hused
    rw [heq] at hnext ⊢
    refine (submitted_outcome k ioType size hsig hnext hs).imp fun _ s' hheld => ?_
    refine hheld.trans ⟨?_, ?_⟩
    · rintro ⟨hsubmit, hhold, hnot⟩
      refine ⟨hasync, (usedSignal_ne_zero_iff method sig).mp hused, hsubmit, hhold, ?_⟩
      by_cases hsigtypes : method &&& waitSigtypes = 0
      · exact Or.inl hsigtypes
      · refine Or.inr (not_not.mp fun hfails => hnot (hreleased.mpr ⟨⟨hused, hsigtypes⟩, hfails⟩))
    · rintro ⟨-, -, hsubmit, hhold, hunreleased⟩
      refine ⟨hsubmit, hhold, fun h => ?_⟩
      obtain ⟨⟨-, hsigtypes⟩, hfails⟩ := hreleased.mp h
      exact hunreleased.elim hsigtypes hfails

/-- The calls of a method, from a state in which the signal is not held. -/
theorem perform_outcome (dir : Direction δ) (k : Kernel δ) (method : BitVec 32) (size : ℤ)
    (hs : sig ∉ s.held) :
    Outcome (perform dir k method size (usedSignal method sig)
        (sigeventOf method (usedSignal method sig))) s
      (fun _ s' => sig ∈ s'.held ↔ StaysHeld k method sig) fun _ _ => True := by
  have hnotify := sigeventOf_notify method (usedSignal method sig)
  have hsigno (h : (sigeventOf method (usedSignal method sig)).notify = .signal) :
      (sigeventOf method (usedSignal method sig)).signo = usedSignal method sig :=
    sigeventOf_signo h
  rcases perform_cases dir k method size (usedSignal method sig)
    (sigeventOf method (usedSignal method sig)) with
    ⟨hasync, hkeeps⟩ | ⟨hasync, ioType, ⟨hwaits, heq⟩ | ⟨hwaits, heq⟩⟩
  · refine (hkeeps.outcome rfl).imp fun _ s' hheld => ?_
    exact iff_of_false (hheld ▸ hs) fun h => hasync h.asynchronous
  · rw [heq]
    refine submitted_staysHeld k ioType size hasync
      (releases_waitAndCheck k ioType size method hsigno) ?_ hs
    rw [hnotify]
    exact and_congr_right fun _ => not_congr (and_iff_right hwaits).symm
  · rw [heq]
    refine submitted_staysHeld k ioType size hasync
      (releases_lioCheckAsyncio k.toAsyncAnswers ioType size method hsigno) ?_ hs
    rw [hnotify]
    exact (and_iff_left fun h => hwaits h.1).symm

/-- **The calls that leave a signal held.** -/
theorem held_iff (dir : Direction δ) (k : Kernel δ) (method : BitVec 32) (size : ℤ)
    (hs : sig ∉ s.held) :
    Outcome (lioBuffer dir k method size sig) s
      (fun _ s' => sig ∉ s'.held ↔ ¬LeavesHeld k method sig) fun _ _ => True := by
  rw [lioBuffer]
  cases hchosen : chosenMethod k method with
  | error stop => exact Outcome.of_error rfl trivial
  | ok chosen =>
    simp only
    cases hseek : seekMethod k method chosen with
    | error ret =>
      refine Outcome.bind_of_ok rfl (Outcome.of_ok rfl (iff_of_true hs ?_))
      rintro ⟨used, ⟨other, hother, hused⟩, -⟩
      rw [hchosen, Except.ok.injEq] at hother
      rw [← hother, hseek] at hused
      cases hused
    | ok used =>
      have hleaves : LeavesHeld k method sig ↔ StaysHeld k used sig := by
        constructor
        · rintro ⟨other, ⟨first, hfirst, hother⟩, h⟩
          rw [hchosen, Except.ok.injEq] at hfirst
          rw [← hfirst, hseek, Except.ok.injEq] at hother
          exact hother ▸ h
        · exact fun h => ⟨used, ⟨chosen, hchosen, hseek⟩, h⟩
      rw [hleaves]
      have hset : Outcome (onlyIf (usedSignal used sig ≠ 0 ∧ used &&& waitSigtypes ≠ 0)
          (sigset (usedSignal used sig))) s (fun _ s₁ => sig ∉ s₁.held) fun _ _ => True :=
        Outcome.onlyIf (fun _ => Outcome.of_ok rfl fun hmem => hs (List.mem_of_mem_filter hmem))
          fun _ => hs
      refine hset.bind fun _ s₁ hs₁ => ?_
      exact (perform_outcome dir k used size hs₁).imp fun _ _ h => not_congr h

end Held

/-- A signal that nothing is to wait for is not used. -/
theorem held_iff_recall :
    Outcome (lioBuffer writing (steady []) (ioAsync ||| waitRecall) 10 12) (idle [0])
      (fun _ s' => 12 ∉ s'.held ↔ ¬LeavesHeld (steady ([] : List (Except Errno ℕ)))
        (ioAsync ||| waitRecall) 12) fun _ _ => True :=
  held_iff writing (steady []) (ioAsync ||| waitRecall) 10 List.not_mem_nil

/-- A handler of the caller's own: the I/O is over and the signal is still held. -/
theorem stillHeld_useSignal :
    ¬Outcome (lioWriteBuffer (steady []) (ioAsync ||| useSignal) 10 12) (idle [0])
      (fun _ s' => 12 ∉ s'.held) fun _ _ => True := fun h =>
  have hrun : (lioWriteBuffer (steady []) (ioAsync ||| useSignal) 10 12).run (idle [0]) =
      .ok 10 { idle [] with held := [12], waits := [.suspend] } := rfl
  absurd ((Outcome.iff_of_ok hrun).mp h) (by decide)

end Lio

end SnowballLtp
