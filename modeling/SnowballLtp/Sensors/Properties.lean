import Mathlib.Data.List.Basic
import SnowballLtp.Sensors.Stdio

/-!
# Setting and reading the properties of the sensors

The routines that write and read the attribute files of the gyroscope, the accelerometer, the
magnetometer and the pressure sensor. Each works through its files one after the other and folds
the results into one status. Some keep an error once it is seen, some overwrite it with the result
of the next access, and some count down the accesses that remain.

A status that is overwritten tells of the last access only: the routine returns 0 although an
earlier access failed.

## Main definitions

* `accessFiles`, `readProperties`: the two forms the routines have.
* `gyrSetProperties`, `gyrGetProperties`, `accSetProperties`, `accGetProperties`,
  `magSetProperties`, `magGetProperties`, `prsSetProperties`, `prsGetProperties`, `getVal`.
* `Routine.LosesFailure`: the behaviours under which a failure is overwritten.

## Main results

* `accessFiles_outcome`: the status of a routine that folds results.
* `readProperties_outcome`: a routine that counts returns 0 only if nothing failed.
* `reliable_iff`: when a routine returns 0 only if nothing failed.
-/

namespace SnowballLtp.Sensors

/-! ### The two forms -/

/-- What a routine does with an error that it has seen when a later access succeeds. -/
inductive Policy where
  /-- `if (access fails) val = EOF; else val = 0;`. -/
  | overwrite
  /-- `if (access fails) val = EOF;`. -/
  | keep
  deriving DecidableEq, Repr

/-- The status after an access. -/
def Policy.update : Policy → ℤ → Bool → ℤ
  | _, _, false => eof
  | overwrite, _, true => 0
  | keep, val, true => val

/-- An access to an open stream. -/
inductive Access where
  | fputc (c : Char)
  | fputs (s : String)
  | fscanf (format : Format)
  | fflush
  deriving DecidableEq, Repr

/-- How a routine leaves a stream. -/
inductive Finish where
  | fclose
  | close
  deriving DecidableEq, Repr

/-- One file of a routine: it is opened, accessed and left. -/
structure FileUse where
  path : String
  mode : FileMode
  accesses : List Access
  finish : Finish
  deriving DecidableEq, Repr

/-- One file of a routine that counts. -/
structure Reading where
  path : String
  format : Format
  /-- Whether the stream is closed behind the conversions, besides the close at the label. -/
  closed : Bool
  deriving DecidableEq, Repr

section

variable (world : World)

/-- The access, with its result if the routine tests it. -/
def Access.perform (f : Stream) : Access → Run (Option Bool)
  | fputc c => do return some (← Sensors.fputc world f c)
  | fputs s => do return some (← Sensors.fputs world f s)
  | fscanf format => do return some ((← Sensors.fscanf f format) = format.conversions)
  | fflush => do
    Sensors.fflush f
    return none

def Finish.perform (f : Stream) : Finish → Run Unit
  | fclose => Sensors.fclose f
  | close => Sensors.close f

/-- The accesses to one stream. -/
def accessStream (policy : Policy) (f : Stream) (val : ℤ) : List Access → Run ℤ
  | [] => pure val
  | access :: rest => do
    let result ← access.perform world f
    accessStream policy f (result.elim val (policy.update val)) rest

/-- The form of a routine that folds the results of its accesses into `val`. -/
def accessFiles (policy : Policy) (val : ℤ) : List FileUse → Run ℤ
  | [] => pure val
  | file :: rest => do
    let f ← fopenOrReturn world file.path file.mode
    let val ← accessStream world policy f val file.accesses
    file.finish.perform f
    accessFiles policy val rest

/-- The part of a counting routine for one file. An incomplete conversion goes to the label, where
the stream is closed and the count is returned. -/
def readOne (ret : ℤ) (file : Reading) (next : Stream → ℤ → Run ℤ) : Run ℤ := do
  let f ← fopenOrReturn world file.path .r
  let assigned ← fscanf f file.format
  if assigned ≠ file.format.conversions then do
    fclose f
    pure ret
  else do
    onlyIf file.closed (fclose f)
    next f (ret - 1)

/-- The form of a routine that counts down `ret`. Behind its last file it subtracts the files that
were skipped and falls through to the label. -/
def readProperties (skipped ret : ℤ) (file : Reading) : List Reading → Run ℤ
  | [] => readOne world ret file fun f ret => do
    fclose f
    pure (ret - skipped)
  | other :: rest => readOne world ret file fun _ ret => readProperties skipped ret other rest

end

/-! ### The gyroscope -/

def gyrFilepathActivate : String := "/sys/devices/platform/nmk-i2c.2/i2c-2/2-0068/powermode"
def gyrFilepathRange : String := "/sys/devices/platform/nmk-i2c.2/i2c-2/2-0068/range"
def gyrFilepathRate : String := "/sys/devices/platform/nmk-i2c.2/i2c-2/2-0068/datarate"
def gyrFilepathTemp : String := "/sys/devices/platform/nmk-i2c.2/i2c-2/2-0068/gyrotemp"

/-- The files of `gyr_set_properties`. -/
def gyrSetFiles : List FileUse :=
  [⟨gyrFilepathRate, .w, [.fputc '0'], .fclose⟩, ⟨gyrFilepathRange, .w, [.fputc '0'], .fclose⟩]

/-- `gyr_set_properties`. -/
def gyrSetProperties (world : World) : Run ℤ := accessFiles world .overwrite (-1) gyrSetFiles

/-- `gyr_get_properties`. All four streams are closed before the label. -/
def gyrGetProperties (world : World) : Run ℤ :=
  readProperties world 0 4 ⟨gyrFilepathActivate, formatD, true⟩
    [⟨gyrFilepathRange, formatD, true⟩, ⟨gyrFilepathRate, formatD, true⟩,
      ⟨gyrFilepathTemp, formatD, true⟩]

/-! ### The accelerometer -/

/-- The globals that the routines of the accelerometer read. -/
structure AccGlobals where
  id : ℤ
  accFilepathActivate : String
  accFilepathRange : String
  accFilepathSleepwake : String
  accFilepathRate : String
  deriving DecidableEq, Repr

/-- The files of `acc_set_properties`. -/
def accSetFiles (acc : AccGlobals) : List FileUse :=
  (if acc.id = 50 then
    [⟨acc.accFilepathRate, .w, [.fputc '0'], .fclose⟩,
      ⟨acc.accFilepathSleepwake, .w, [.fputc '0'], .fclose⟩]
  else []) ++
  [⟨acc.accFilepathRange, .w,
    [.fputc '1', .fflush, .fputc '2', .fflush, .fputc '3', .fflush, .fputc '0'], .fclose⟩]

/-- `acc_set_properties`. -/
def accSetProperties (world : World) (acc : AccGlobals) : Run ℤ :=
  accessFiles world .overwrite (-1) (accSetFiles acc)

/-- `acc_get_properties`. The stream of the last file is closed at the label only. -/
def accGetProperties (world : World) (acc : AccGlobals) : Run ℤ :=
  if acc.id = 50 then
    readProperties world 0 4 ⟨acc.accFilepathActivate, formatD, true⟩
      [⟨acc.accFilepathRange, formatD, true⟩, ⟨acc.accFilepathRate, formatD, true⟩,
        ⟨acc.accFilepathSleepwake, formatD, false⟩]
  else
    readProperties world 2 4 ⟨acc.accFilepathActivate, formatD, true⟩
      [⟨acc.accFilepathRange, formatD, false⟩]

/-! ### The magnetometer -/

def magFilepathRange : String := "/sys/devices/platform/nmk-i2c.2/i2c-2/2-001e/range"
def magFilepathActivate : String := "/sys/devices/platform/nmk-i2c.2/i2c-2/2-001e/mode"
def magFilepathRate : String := "/sys/devices/platform/nmk-i2c.2/i2c-2/2-001e/rate"
def magFilepathGain : String := "/sys/devices/platform/nmk-i2c.2/i2c-2/2-001e/gain"

/-- The files of `mag_set_properties`. -/
def magSetFiles : List FileUse :=
  [⟨magFilepathRate, .w, [.fputc '4'], .fclose⟩,
    ⟨magFilepathRange, .w,
      [.fputc '1', .fflush, .fputc '2', .fflush, .fputc '3', .fflush, .fputc '5', .fflush,
        .fputc '6', .fflush, .fputc '7', .fflush, .fputc '8', .fflush, .fputc '4'], .fclose⟩]

/-- `mag_set_properties`. -/
def magSetProperties (world : World) : Run ℤ := accessFiles world .overwrite (-1) magSetFiles

/-- `mag_get_properties`. -/
def magGetProperties (world : World) : Run ℤ :=
  readProperties world 0 4 ⟨magFilepathActivate, formatD, true⟩
    [⟨magFilepathRange, formatD, true⟩, ⟨magFilepathRate, formatD, true⟩,
      ⟨magFilepathGain, formatX, false⟩]

/-! ### The pressure sensor -/

def pathPrsPollrate : String := "/sys/devices/platform/nmk-i2c.2/i2c-2/2-005c/pollrate_ms"
def pathPrsDiffenable : String := "/sys/devices/platform/nmk-i2c.2/i2c-2/2-005c/diff_enable"
def pathPrsRef : String := "/sys/devices/platform/nmk-i2c.2/i2c-2/2-005c/press_reference"
def pathPrsLowpowEnable : String := "/sys/devices/platform/nmk-i2c.2/i2c-2/2-005c/lowpow_enable"
def pathPrsPressdata : String := "/sys/devices/platform/nmk-i2c.2/i2c-2/2-005c/press_data"
def pathPrsTempdata : String := "/sys/devices/platform/nmk-i2c.2/i2c-2/2-005c/temp_data"
def pathPrsDeltapresdata : String := "/sys/devices/platform/nmk-i2c.2/i2c-2/2-005c/deltapr_data"
def pathPrsRegval : String := "/sys/devices/platform/nmk-i2c.2/i2c-2/2-005c/reg_value"
def pathPrsRegaddr : String := "/sys/devices/platform/nmk-i2c.2/i2c-2/2-005c/reg_addr"

/-- The files of `get_val`. Their streams are passed to `close`. -/
def getValFiles : List FileUse :=
  [⟨pathPrsPressdata, .r, [.fscanf formatD], .close⟩,
    ⟨pathPrsTempdata, .r, [.fscanf formatD], .close⟩,
    ⟨pathPrsDeltapresdata, .r, [.fscanf formatD], .close⟩]

/-- `get_val`. Before the first conversion `ret` has an arbitrary value. -/
def getVal (world : World) (ret : ℤ) : Run ℤ := accessFiles world .overwrite ret getValFiles

/-- The files of `prs_set_properties`. -/
def prsSetFiles : List FileUse :=
  [⟨pathPrsPollrate, .w, [.fputc '0', .fputs "500"], .fclose⟩,
    ⟨pathPrsDiffenable, .w, [.fputc '0'], .fclose⟩, ⟨pathPrsRef, .w, [.fputc '0'], .fclose⟩,
    ⟨pathPrsLowpowEnable, .w, [.fputc '0'], .fclose⟩,
    ⟨pathPrsRegaddr, .w, [.fputs "0x34"], .fclose⟩]

/-- `prs_set_properties`. -/
def prsSetProperties (world : World) : Run ℤ := accessFiles world .keep 0 prsSetFiles

/-- The files of `prs_get_properties`. -/
def prsGetFiles : List FileUse :=
  [⟨pathPrsPollrate, .r, [.fscanf formatD], .fclose⟩,
    ⟨pathPrsDiffenable, .r, [.fscanf formatD], .fclose⟩,
    ⟨pathPrsRef, .r, [.fscanf formatD], .fclose⟩,
    ⟨pathPrsLowpowEnable, .r, [.fscanf formatD], .fclose⟩,
    ⟨pathPrsRegval, .r, [.fscanf formatD], .fclose⟩]

/-- `prs_get_properties`. -/
def prsGetProperties (world : World) : Run ℤ := accessFiles world .keep 0 prsGetFiles

/-! ### The answers of the files -/

/-- The result of an access to a stream with the given text, if the access is tested. -/
def Access.answer (world : World) (text : List Char) (puts : ℕ) : Access → Option Bool
  | fputc _ => some (world.put puts)
  | fputs _ => some (world.put puts)
  | fscanf format => some (scan format 0 text = format.conversions)
  | fflush => none

/-- The number of writes in an access. -/
def Access.puts : Access → ℕ
  | fputc _ => 1
  | fputs _ => 1
  | _ => 0

/-- The number of writes in a list of accesses. -/
def putsOf (accesses : List Access) : ℕ :=
  accesses.foldr (fun access count => access.puts + count) 0

/-- The results of the accesses to one stream, when `puts` writes have been made before. -/
def streamAnswers (world : World) (text : List Char) : (puts : ℕ) → List Access → List Bool
  | _, [] => []
  | puts, access :: rest =>
    (access.answer world text puts).toList ++ streamAnswers world text (puts + access.puts) rest

/-- The results of the accesses to all files, when every file opens. -/
def answers (world : World) : (fopens puts : ℕ) → List FileUse → List Bool
  | _, _, [] => []
  | fopens, puts, file :: rest =>
    streamAnswers world ((world.fopen fopens).getD []) puts file.accesses ++
      answers world (fopens + 1) (puts + putsOf file.accesses) rest

/-- The next calls of `fopen` succeed. -/
def Opens (world : World) (fopens count : ℕ) : Prop :=
  ∀ k < count, world.fopen (fopens + k) ≠ none

variable {world : World} {policy : Policy} {s s' : Session} {val ret : ℤ}

theorem opens_succ {fopens count : ℕ} : Opens world fopens (count + 1) ↔
    world.fopen fopens ≠ none ∧ Opens world (fopens + 1) count := by
  rw [Opens, Opens]
  constructor
  · intro h
    refine ⟨h 0 (Nat.succ_pos count), fun k hk => ?_⟩
    rw [Nat.add_assoc, Nat.add_comm 1 k]
    exact h (k + 1) (Nat.succ_lt_succ hk)
  · rintro ⟨hfirst, hrest⟩ k hk
    cases k with
    | zero => exact hfirst
    | succ k =>
      rw [Nat.add_comm k 1, ← Nat.add_assoc]
      exact hrest k (Nat.lt_of_succ_lt_succ hk)

/-! ### Folding results -/

theorem perform_run (f : Stream) (access : Access) (s : Session) :
    ∃ s', (access.perform world f).run s = .ok (access.answer world f.text s.puts) s' ∧
      Made 0 access.puts (∀ ok ∈ access.answer world f.text s.puts, ok = true) s s' := by
  cases access with
  | fputc c =>
    obtain ⟨s', hrun, hmade⟩ := @put_run world (.fputc f.number c) (fun _ => Iff.rfl) s
    exact ⟨s', run_bind_of_ok hrun, hmade.congr (by simp [Access.answer])⟩
  | fputs t =>
    obtain ⟨s', hrun, hmade⟩ := @put_run world (.fputs f.number t) (fun _ => Iff.rfl) s
    exact ⟨s', run_bind_of_ok hrun, hmade.congr (by simp [Access.answer])⟩
  | fscanf format =>
    obtain ⟨s', hrun, hmade⟩ := fscanf_run f format s
    exact ⟨s', run_bind_of_ok hrun, hmade.congr (by simp [Access.answer])⟩
  | fflush =>
    obtain ⟨s', hrun, hmade⟩ := note_run (.fflush f.number) s
    exact ⟨s', run_bind_of_ok hrun, hmade.congr (by simp [Access.answer, Event.Succeeded])⟩

/-- The accesses to one stream fold its answers. -/
theorem accessStream_run (f : Stream) (val : ℤ) (accesses : List Access) (s : Session) :
    ∃ s', (accessStream world policy f val accesses).run s =
        .ok ((streamAnswers world f.text s.puts accesses).foldl policy.update val) s' ∧
      Made 0 (putsOf accesses) (∀ ok ∈ streamAnswers world f.text s.puts accesses, ok = true)
        s s' := by
  induction accesses generalizing val s with
  | nil => exact ⟨s, EStateM.run_pure _ _, (Made.refl s).congr (by simp [streamAnswers])⟩
  | cons access rest ih =>
    obtain ⟨s₁, hrun₁, hmade₁⟩ := @perform_run world f access s
    obtain ⟨s₂, hrun₂, hmade₂⟩ :=
      ih ((access.answer world f.text s.puts).elim val (policy.update val)) s₁
    rw [hmade₁.puts] at hrun₂ hmade₂
    refine ⟨s₂, ?_, (hmade₁.trans hmade₂).congr ?_⟩
    · rw [accessStream, run_bind_of_ok hrun₁, hrun₂, streamAnswers, List.foldl_append]
      cases access.answer world f.text s.puts <;> rfl
    · simp only [streamAnswers, List.mem_append, Option.mem_toList, Option.mem_def, or_imp,
        forall_and]

theorem finish_run (f : Stream) (finish : Finish) (s : Session) :
    ∃ s', (finish.perform f).run s = .ok () s' ∧ Made 0 0 True s s' := by
  cases finish with
  | fclose => exact note_run (.fclose f.number) s
  | close => exact note_run (.close f.number) s

/-- **Folding.** When every file opens the status is folded from all answers. -/
theorem accessFiles_outcome (world : World) (policy : Policy) (val : ℤ) (files : List FileUse)
    (s : Session) :
    Outcome (accessFiles world policy val files) s
      (fun value s' => Opens world s.fopens files.length ∧
        value = (answers world s.fopens s.puts files).foldl policy.update val ∧
        ∃ fopens puts,
          Made fopens puts (∀ ok ∈ answers world s.fopens s.puts files, ok = true) s s')
      (fun value _ => value = -1 ∧ ¬Opens world s.fopens files.length) := by
  induction files generalizing val s with
  | nil =>
    refine Outcome.of_ok (EStateM.run_pure val s) ⟨?_, rfl, 0, 0, (Made.refl s).congr ?_⟩
    · exact fun k hk => absurd hk (Nat.not_lt_zero k)
    · simp [answers]
  | cons file rest ih =>
    rw [List.length_cons, opens_succ]
    refine Outcome.bind ((fopenOrReturn_outcome file.path file.mode s).mono (fun _ _ => id)
      fun _ _ h => ⟨h.1, fun hopens => hopens.1 h.2⟩) fun f s₁ ⟨hopen, hmade₁⟩ => ?_
    obtain ⟨s₂, hrun₂, hmade₂⟩ := @accessStream_run world policy f val file.accesses s₁
    obtain ⟨s₃, hrun₃, hmade₃⟩ := finish_run f file.finish s₂
    have hputs₁ : s₁.puts = s.puts := hmade₁.puts
    rw [hputs₁] at hrun₂ hmade₂
    have hmade := (hmade₁.trans hmade₂).trans hmade₃
    have hfopens₃ : s₃.fopens = s.fopens + 1 := hmade.fopens
    have hputs₃ : s₃.puts = s.puts + putsOf file.accesses := by
      rw [hmade.puts, Nat.zero_add, Nat.add_zero]
    have hanswers : answers world s.fopens s.puts (file :: rest) =
        streamAnswers world f.text s.puts file.accesses ++
          answers world s₃.fopens s₃.puts rest := by
      rw [answers, hopen, hfopens₃, hputs₃, Option.getD_some]
    rw [← hfopens₃, hanswers]
    refine Outcome.bind_of_ok hrun₂ (Outcome.bind_of_ok hrun₃ ?_)
    refine (ih _ s₃).mono (fun value s' h => ?_) fun value _ h => ⟨h.1, fun hopens => h.2 hopens.2⟩
    obtain ⟨hopens, hvalue, fopens, puts, hmade'⟩ := h
    refine ⟨⟨by simp [hopen], hopens⟩, ?_, _, _, (hmade.trans hmade').congr ?_⟩
    · rw [hvalue, List.foldl_append]
    · simp only [List.mem_append, or_imp, forall_and, true_and, and_true]

/-! ### Counting down -/

/-- Every call between two states succeeded. -/
def Sound (s s' : Session) : Prop := ∃ fopens puts, Made fopens puts True s s'

theorem Made.sound {fopens puts : ℕ} (h : Made fopens puts True s s') : Sound s s' :=
  ⟨fopens, puts, h⟩

theorem Sound.trans {s'' : Session} (h : Sound s s') (h' : Sound s' s'') : Sound s s'' := by
  obtain ⟨_, _, hmade⟩ := h
  obtain ⟨_, _, hmade'⟩ := h'
  exact ((hmade.trans hmade').congr and_self_iff).sound

theorem fclose_run (f : Stream) (s : Session) :
    ∃ s', (fclose f).run s = .ok () s' ∧ Sound s s' := by
  obtain ⟨s', hrun, hmade⟩ := note_run (.fclose f.number) s
  exact ⟨s', hrun, hmade.sound⟩

/-- One file of a counting routine: the file does not open, or the count is returned as it is, or
nothing fails and the rest follows. -/
theorem readOne_outcome {after : ℤ → Session → Prop} {next : Stream → ℤ → Run ℤ} (file : Reading)
    (s : Session) (hreturn : ∀ s', after ret s')
    (hnext : ∀ f s', Sound s s' → Outcome (next f (ret - 1)) s' after fun value _ => value = -1) :
    Outcome (readOne world ret file next) s after fun value _ => value = -1 := by
  refine Outcome.bind ((fopenOrReturn_outcome file.path .r s).mono (fun _ _ => id)
    fun _ _ h => h.1) fun f s₁ h₁ => ?_
  obtain ⟨s₂, hrun₂, hmade₂⟩ := fscanf_run f file.format s₁
  obtain ⟨s₃, hrun₃, hsound₃⟩ := fclose_run f s₂
  refine Outcome.bind_of_ok hrun₂ ?_
  by_cases hall : scan file.format 0 f.text = file.format.conversions
  · rw [if_neg (not_not_intro hall)]
    have hsound : Sound s s₂ := h₁.2.sound.trans (hmade₂.congr (iff_true_intro hall)).sound
    refine Outcome.bind (Outcome.onlyIf (fun _ => Outcome.of_ok hrun₃ (hsound.trans hsound₃))
      fun _ => hsound) fun _ s₄ hsound₄ => hnext f s₄ hsound₄
  · rw [if_pos hall]
    exact Outcome.bind_of_ok hrun₃ (Outcome.of_ok (EStateM.run_pure ret s₃) (hreturn s₃))

/-- **Counting.** A routine that counts down the files it reads and skips returns 0 only if nothing
failed. -/
theorem readProperties_outcome {skipped : ℤ} (hskipped : 0 ≤ skipped) (ret : ℤ) (file : Reading)
    (rest : List Reading) (hret : skipped + rest.length < ret) (s : Session) :
    Outcome (readProperties world skipped ret file rest) s
      (fun value s' => value = 0 → Sound s s') fun value _ => value = -1 := by
  induction rest generalizing ret file s with
  | nil =>
    have hpos : ret ≠ 0 := by
      rw [List.length_nil] at hret
      omega
    refine readOne_outcome file s (fun _ hzero => absurd hzero hpos) fun f s₁ h₁ => ?_
    obtain ⟨s₂, hrun₂, h₂⟩ := fclose_run f s₁
    exact Outcome.bind_of_ok hrun₂ (Outcome.of_ok (EStateM.run_pure _ s₂) fun _ => h₁.trans h₂)
  | cons other rest ih =>
    rw [List.length_cons] at hret
    have hpos : ret ≠ 0 := by omega
    refine readOne_outcome file s (fun _ hzero => absurd hzero hpos) fun f s₁ h₁ => ?_
    exact (ih (ret - 1) other (by omega) s₁).mono (fun _ _ h hzero => h₁.trans (h hzero))
      fun _ _ => id

/-! ### The routines -/

/-- The routines of the sensors, with the globals and the uninitialised variable that they read. -/
inductive Routine where
  | gyrSetProperties
  | gyrGetProperties
  | accSetProperties (acc : AccGlobals)
  | accGetProperties (acc : AccGlobals)
  | magSetProperties
  | magGetProperties
  | prsSetProperties
  | prsGetProperties
  | getVal (ret : ℤ)
  deriving DecidableEq, Repr

namespace Routine

def run (world : World) : Routine → Run ℤ
  | gyrSetProperties => Sensors.gyrSetProperties world
  | gyrGetProperties => Sensors.gyrGetProperties world
  | accSetProperties acc => Sensors.accSetProperties world acc
  | accGetProperties acc => Sensors.accGetProperties world acc
  | magSetProperties => Sensors.magSetProperties world
  | magGetProperties => Sensors.magGetProperties world
  | prsSetProperties => Sensors.prsSetProperties world
  | prsGetProperties => Sensors.prsGetProperties world
  | getVal ret => Sensors.getVal world ret

/-- A call: what the routine returns, at its end or early, and the calls that it made. -/
def call (world : World) (routine : Routine) : ℤ × List Event :=
  match (routine.run world).run Session.initial with
  | .ok value s => (value, s.log)
  | .error value s => (value, s.log)

/-- The files of a routine that overwrites its status. -/
def overwriting : Routine → Option (List FileUse)
  | gyrSetProperties => some gyrSetFiles
  | accSetProperties acc => some (accSetFiles acc)
  | magSetProperties => some magSetFiles
  | getVal _ => some getValFiles
  | _ => none

/-- The routine overwrites its status, all its files open, its last access succeeds and an earlier
one fails. -/
def LosesFailure (world : World) (routine : Routine) : Prop :=
  ∃ files ∈ routine.overwriting, Opens world 0 files.length ∧
    (answers world 0 0 files).getLast? = some true ∧ false ∈ answers world 0 0 files

end Routine

example (world : World) : answers world 0 0 gyrSetFiles = [world.put 0, world.put 1] := rfl

/-- A routine returns 0 only if every call that it tests succeeded. -/
def Reliable (world : World) (routine : Routine) : Prop :=
  (routine.call world).1 = 0 → ∀ e ∈ (routine.call world).2, e.Succeeded

variable {routine : Routine} {files : List FileUse} {skipped : ℤ}

/-- What holds of the end of a routine, returned early or not, holds of a call. -/
theorem Routine.call_of_outcome (post : ℤ → List Event → Prop)
    (h : Outcome (routine.run world) Session.initial (fun value s' => post value s'.log)
      fun value s' => post value s'.log) :
    post (routine.call world).1 (routine.call world).2 := by
  rw [Outcome] at h
  rw [call]
  cases hrun : (routine.run world).run Session.initial with
  | ok value s' => simpa only [hrun] using h
  | error value s' => simpa only [hrun] using h

/-- What a routine that folds returns and logs: the answers of all files decide its status and
whether something failed, or a file did not open. -/
def Folded (world : World) (policy : Policy) (val : ℤ) (files : List FileUse) (value : ℤ)
    (log : List Event) : Prop :=
  (Opens world 0 files.length ∧ value = (answers world 0 0 files).foldl policy.update val ∧
    ((∀ e ∈ log, e.Succeeded) ↔ false ∉ answers world 0 0 files)) ∨
  value = -1 ∧ ¬Opens world 0 files.length

theorem call_accessFiles (hrun : routine.run world = accessFiles world policy val files) :
    Folded world policy val files (routine.call world).1 (routine.call world).2 := by
  have hanswers : (∀ ok ∈ answers world 0 0 files, ok = true) ↔
      false ∉ answers world 0 0 files := by
    simp only [← Bool.not_eq_false, List.forall_mem_ne']
  refine Routine.call_of_outcome (Folded world policy val files) ?_
  rw [hrun]
  refine (accessFiles_outcome world policy val files Session.initial).mono
    (fun value s' h => .inl ?_) fun _ _ => .inr
  obtain ⟨hopens, hvalue, fopens, puts, hmade⟩ := h
  exact ⟨hopens, hvalue, hmade.succeeded_iff.trans hanswers⟩

theorem foldl_overwrite {results : List Bool} (hresults : results ≠ []) (val : ℤ) :
    results.foldl Policy.overwrite.update val =
      if results.getLast? = some true then 0 else eof := by
  obtain rfl | ⟨init, last, rfl⟩ := List.eq_nil_or_concat results
  · exact absurd rfl hresults
  · rw [List.concat_eq_append, List.foldl_append, List.getLast?_concat]
    cases last <;> simp [Policy.update]

theorem foldl_keep (results : List Bool) (val : ℤ) :
    results.foldl Policy.keep.update val = if false ∈ results then eof else val := by
  induction results generalizing val with
  | nil => simp
  | cons ok rest ih =>
    rw [List.foldl_cons, ih]
    cases ok <;> simp [Policy.update]

/-- A routine that keeps an error. -/
theorem reliable_of_keep (hrun : routine.run world = accessFiles world .keep 0 files) :
    Reliable world routine := by
  intro hzero
  obtain ⟨-, hvalue, hsucceeded⟩ | ⟨hvalue, -⟩ := call_accessFiles hrun
  · rw [foldl_keep] at hvalue
    refine hsucceeded.mpr fun hfalse => ?_
    rw [if_pos hfalse, hzero] at hvalue
    exact absurd hvalue (by decide)
  · rw [hzero] at hvalue
    exact absurd hvalue (by decide)

/-- A routine that overwrites its status. -/
theorem reliable_iff_of_overwrite (hfiles : routine.overwriting = some files)
    (hrun : routine.run world = accessFiles world .overwrite val files)
    (hanswers : answers world 0 0 files ≠ []) :
    Reliable world routine ↔ ¬routine.LosesFailure world := by
  have hloses : routine.LosesFailure world ↔ Opens world 0 files.length ∧
      (answers world 0 0 files).getLast? = some true ∧ false ∈ answers world 0 0 files := by
    simp [Routine.LosesFailure, hfiles]
  rw [hloses, Reliable]
  obtain ⟨hopens, hvalue, hsucceeded⟩ | ⟨hvalue, hopens⟩ := call_accessFiles hrun
  · rw [hsucceeded, hvalue, foldl_overwrite hanswers]
    by_cases hlast : (answers world 0 0 files).getLast? = some true
    · simp [hlast, hopens]
    · simp [hlast, eof]
  · simp [hvalue, hopens]

/-- A routine that does not overwrite its status. -/
theorem reliable_iff_of_reliable (hfiles : routine.overwriting = none)
    (hreliable : Reliable world routine) :
    Reliable world routine ↔ ¬routine.LosesFailure world := by
  simp [Routine.LosesFailure, hfiles, hreliable]

/-- A routine that counts. -/
theorem reliable_of_count {file : Reading} {rest : List Reading} (hskipped : 0 ≤ skipped)
    (hret : skipped + rest.length < ret)
    (hrun : routine.run world = readProperties world skipped ret file rest) :
    Reliable world routine := by
  refine Routine.call_of_outcome (fun value log => value = 0 → ∀ e ∈ log, e.Succeeded) ?_
  rw [hrun]
  refine (readProperties_outcome hskipped ret file rest hret Session.initial).mono
    (fun value s' h hzero => ?_) fun value s' h hzero => absurd (h.symm.trans hzero) (by decide)
  obtain ⟨fopens, puts, hmade⟩ := h hzero
  exact hmade.succeeded_iff.mpr trivial

theorem answers_accSetFiles_ne_nil (world : World) (acc : AccGlobals) :
    answers world 0 0 (accSetFiles acc) ≠ [] := by
  rw [accSetFiles]
  split_ifs <;> exact List.cons_ne_nil _ _

theorem reliable_accGetProperties (world : World) (acc : AccGlobals) :
    Reliable world (.accGetProperties acc) := by
  by_cases hid : acc.id = 50
  · exact reliable_of_count (Int.le_refl 0) (by simp) (if_pos hid)
  · exact reliable_of_count (by decide) (by simp) (if_neg hid)

/-- **Lost failures.** A routine returns 0 only if every call that it tests succeeded, except when
it overwrites its status, all its files open, and after a failed access the last one succeeds. -/
theorem reliable_iff (world : World) (routine : Routine) :
    Reliable world routine ↔ ¬routine.LosesFailure world := by
  cases routine with
  | gyrSetProperties => exact reliable_iff_of_overwrite rfl rfl (List.cons_ne_nil _ _)
  | gyrGetProperties =>
    exact reliable_iff_of_reliable rfl (reliable_of_count (Int.le_refl 0) (by decide) rfl)
  | accSetProperties acc =>
    exact reliable_iff_of_overwrite rfl rfl (answers_accSetFiles_ne_nil world acc)
  | accGetProperties acc => exact reliable_iff_of_reliable rfl (reliable_accGetProperties world acc)
  | magSetProperties => exact reliable_iff_of_overwrite rfl rfl (List.cons_ne_nil _ _)
  | magGetProperties =>
    exact reliable_iff_of_reliable rfl (reliable_of_count (Int.le_refl 0) (by decide) rfl)
  | prsSetProperties => exact reliable_iff_of_reliable rfl (reliable_of_keep rfl)
  | prsGetProperties => exact reliable_iff_of_reliable rfl (reliable_of_keep rfl)
  | getVal ret => exact reliable_iff_of_overwrite rfl rfl (List.cons_ne_nil _ _)

/-- Files that all open, where only the first write fails. -/
def firstPutFails : World where
  fopen _ := some "0".toList
  put n := n ≠ 0

/-- `gyr_set_properties` returns 0 although it could not write the data rate. -/
theorem gyrSetProperties_loses_failure :
    (Routine.gyrSetProperties.call firstPutFails).1 = 0 ∧
      .fputc 0 '0' false ∈ (Routine.gyrSetProperties.call firstPutFails).2 ∧
      ¬Reliable firstPutFails .gyrSetProperties := by
  have hzero : (Routine.gyrSetProperties.call firstPutFails).1 = 0 := rfl
  have hmem : .fputc 0 '0' false ∈ (Routine.gyrSetProperties.call firstPutFails).2 :=
    List.mem_cons_of_mem _ (List.mem_cons_self ..)
  exact ⟨hzero, hmem, fun h => absurd (h hzero _ hmem) Bool.false_ne_true⟩

end SnowballLtp.Sensors
