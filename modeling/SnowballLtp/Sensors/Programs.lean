import SnowballLtp.Sensors.Device
import SnowballLtp.Sensors.TestProgram

/-!
# The verdicts of the sensor tests

The four test programs of the sensors, with the routines that switch a sensor on and read its
values. The routines that switch it on first try what should fail, and ignore the results.

On a device whose files behave in the same way at every access, the exit status of a program is 0
exactly when some of the accesses succeed that it makes: the others are ignored or overwritten by a
later one. Runs in which a stream is passed to `fclose` twice, as at the end of a routine of the
gyroscope, are left out.

## Main definitions

* `l3g4200d`, `lsm303dlh`, `lps001wp`, `proxSfh7741`: the programs.
* `Sensor`, `Sensor.program`.
* `Device.Works`: what has to succeed.

## Main results

* `Sensor.exit_eq_zero_iff`: the verdict of a program.
-/

namespace SnowballLtp.Sensors

open SnowballLtp.ParseOpts (Invocation plainInvocation)
open SnowballLtp.TstRes (tfail)

/-! ### Routines that ignore results -/

section

variable (world : World)

/-- A call whose result is not looked at. -/
def ignored (routine : Run ℤ) : Run Unit := fun s => .ok () (callOf id routine s).2

/-- A file that is opened for a character, whose result is not looked at. -/
def putIgnored (path : String) (c : Char) : Run Unit := do
  let f ← fopenOrReturn world path .w
  let _ ← fputc world f c
  fclose f

/-- A routine that ends with one character for one file. -/
def putLast (policy : Policy) (val : ℤ) (path : String) (c : Char) : Run ℤ :=
  accessFiles world policy val [⟨path, .w, [.fputc c], .fclose⟩]

/-- `get_val` of the gyroscope and of the accelerometer. -/
def getXyz (fname : String) : Run ℤ :=
  accessFiles world .overwrite 0 [⟨fname, .r, [.fscanf formatX], .fclose⟩]

end

/-- The end of the messages: `TCID` and `__FILE__`. -/
def place (tcid file : String) : String := "TCID: " ++ tcid ++ " File: " ++ file

/-! ### The gyroscope -/

namespace L3g4200d

def gyrFilepath : String := "/sys/devices/platform/nmk-i2c.2/i2c-2/2-0068/gyrodata"

/-- `set_val`. -/
def setVal (world : World) : Run ℤ := do
  ignored (gyrSetProperties world)
  ignored (getXyz world gyrFilepath)
  putLast world .overwrite (-1) gyrFilepathActivate '1'

def tcid : String := "l3g4200d"

def checks (world : World) (file : String) : List Check :=
  [⟨setVal world, (· = eof),
      " failed. Error when activating gyroscope,confirm hardware presence\t" ++ place tcid file,
      " failed. FilePath: " ++ gyrFilepathActivate ++ " not found. " ++ place tcid file ++ "\n"⟩,
    ⟨gyrSetProperties world, (· = eof),
      " failed. Error setting gyroscope properties," ++ place tcid file,
      " failed. " ++ place tcid file ++ "\n"⟩,
    ⟨getXyz world gyrFilepath, (· = -1),
      " failed. XYZ values not read completely" ++ place tcid file,
      " failed. Filepath: " ++ gyrFilepath ++ " not found. " ++ place tcid file ++ "\n"⟩,
    ⟨gyrGetProperties world, (0 < ·),
      " failed. gyro property values not read completely" ++ place tcid file,
      " failed. " ++ place tcid file ++ "\n"⟩]

end L3g4200d

/-- The program of the gyroscope. -/
def l3g4200d (world : World) (file : String) : TestProgram where
  Globals := Unit
  prepare := pure ()
  ofReturn _ := ()
  checks _ := L3g4200d.checks world file

/-! ### The accelerometer and the magnetometer -/

namespace Lsm303dlh

def magFilepath : String := "/sys/devices/platform/nmk-i2c.2/i2c-2/2-001e/data"

/-- The paths that the program starts with. -/
def accPaths : AccPaths where
  accFilepath := "/sys/devices/platform/nmk-i2c.2/i2c-2/2-0018/data"
  accFilepathActivate := "/sys/devices/platform/nmk-i2c.2/i2c-2/2-0018/mode"
  accFilepathRange := "/sys/devices/platform/nmk-i2c.2/i2c-2/2-0018/range"
  accFilepathRate := "/sys/devices/platform/nmk-i2c.2/i2c-2/2-0018/rate"
  accFilepathSleepwake := "/sys/devices/platform/nmk-i2c.2/i2c-2/2-0018/sleep_wake"
  accFilepathId := "/sys/devices/platform/nmk-i2c.2/i2c-2/2-0018/id"

/-- The globals that the routines of the accelerometer read. -/
def globals (devid : Devid) : AccGlobals where
  id := devid.id
  accFilepathActivate := devid.paths.accFilepathActivate
  accFilepathRange := devid.paths.accFilepathRange
  accFilepathSleepwake := devid.paths.accFilepathSleepwake
  accFilepathRate := devid.paths.accFilepathRate

/-- `acc_set_val`. -/
def accSetVal (world : World) (devid : Devid) : Run ℤ := do
  onlyIf (devid.id = 50) do
    putIgnored world devid.paths.accFilepathRate '0'
    putIgnored world devid.paths.accFilepathSleepwake '0'
  putIgnored world devid.paths.accFilepathRange '1'
  ignored (getXyz world devid.paths.accFilepath)
  putLast world .overwrite (-1) devid.paths.accFilepathActivate '1'

/-- `mag_set_val`. -/
def magSetVal (world : World) : Run ℤ := do
  putIgnored world magFilepathRate '4'
  putIgnored world magFilepathRange '1'
  ignored (getXyz world magFilepath)
  putLast world .overwrite (-1) magFilepathActivate '0'

def tcid : String := "lsm303dlh"

/-- The checks. The one of `mag_set_val` names a file of the accelerometer. -/
def checks (world : World) (file : String) (devid : Devid) : List Check :=
  [⟨accSetVal world devid, (· = eof),
      " failed. Error activating accelerometer,confirm hardware presence. " ++ place tcid file,
      " failed. FilePath: " ++ devid.paths.accFilepathActivate ++ " not found. " ++
        place tcid file ++ "\n"⟩,
    ⟨accSetProperties world (globals devid), (· = eof),
      " failed. Error setting accelerometer properties," ++ place tcid file,
      " failed. " ++ place tcid file ++ "\n"⟩,
    ⟨getXyz world devid.paths.accFilepath, (· = -1),
      " failed. Accelerometer XYZ values not read completely" ++ place tcid file,
      " failed. Filepath: " ++ devid.paths.accFilepath ++ " not found. " ++ place tcid file ++
        "\n"⟩,
    ⟨magSetVal world, (· = eof),
      " failed. Error when activating magnetometer,confirm hardware presence. " ++
        place tcid file,
      " failed. FilePath: " ++ devid.paths.accFilepathActivate ++ " not found. " ++
        place tcid file ++ "\n"⟩,
    ⟨magSetProperties world, (· = eof),
      " failed. Error setting magnetometer properties," ++ place tcid file,
      " failed. " ++ place tcid file ++ "\n"⟩,
    ⟨getXyz world magFilepath, (· = -1),
      " failed. Magnetometer XYZ values not read completely" ++ place tcid file,
      " failed. Filepath: " ++ magFilepath ++ " not found. " ++ place tcid file ++ "\n"⟩,
    ⟨accGetProperties world (globals devid), (0 < ·),
      " failed. accelerometer property values not read completely" ++ place tcid file,
      " failed. " ++ place tcid file ++ "\n"⟩,
    ⟨magGetProperties world, (0 < ·),
      " failed. magnetometer property values not read completely" ++ place tcid file,
      " failed. " ++ place tcid file ++ "\n"⟩]

end Lsm303dlh

/-- The program of the accelerometer and the magnetometer. The result of `check_acc_devid` is not
looked at. -/
def lsm303dlh (world : World) (file : String) : TestProgram where
  Globals := Devid
  prepare := checkAccDevid world Lsm303dlh.accPaths 0
  ofReturn value := ⟨value, Lsm303dlh.accPaths, 0⟩
  checks := Lsm303dlh.checks world file

/-! ### The pressure sensor -/

namespace Lps001wp

def pathPrsEnable : String := "/sys/devices/platform/nmk-i2c.2/i2c-2/2-005c/enable"

/-- `prs_set_mode`. The variable of `get_val` has an arbitrary value at first. -/
def prsSetMode (world : World) (ret : ℤ) : Run ℤ := do
  ignored (prsSetProperties world)
  ignored (getVal world ret)
  putLast world .keep 0 pathPrsEnable '1'

def tcid : String := "lps001wp"

def checks (world : World) (file : String) (ret : ℤ) : List Check :=
  [⟨prsSetMode world ret, (· = eof),
      " failed. Error activating pres sensor,confirm hardware presence. " ++ place tcid file,
      " failed. FilePath: " ++ pathPrsEnable ++ " not found. " ++ place tcid file ++ "\n"⟩,
    ⟨prsSetProperties world, (· = eof),
      " failed. Error setting pres sensor properties," ++ place tcid file,
      " failed. " ++ place tcid file ++ "\n"⟩,
    ⟨getVal world ret, (· = -1),
      " failed. pres sensor values not read completely" ++ place tcid file,
      " failed. Filepath: " ++ pathPrsPressdata ++ " not found. " ++ place tcid file ++ "\n"⟩,
    ⟨prsGetProperties world, (0 < ·),
      " failed. pres sensor values not read completely" ++ place tcid file,
      " failed. " ++ place tcid file ++ "\n"⟩]

end Lps001wp

/-- The program of the pressure sensor. -/
def lps001wp (world : World) (file : String) (ret : ℤ) : TestProgram where
  Globals := Unit
  prepare := pure ()
  ofReturn _ := ()
  checks _ := Lps001wp.checks world file ret

/-! ### The proximity sensor -/

namespace ProxSfh7741

def fishyProximityValue : ℤ := -10
def proximityNearValue : ℤ := 0
def proximityFarValue : ℤ := 100000

def filepath : String := "/sys/devices/platform/sensors1p.0/proximity"
def filepathActivate : String := "/sys/devices/platform/sensors1p.0/proximity_activate"

/-- What the tests of a value make of it. -/
def verdictOf (value : ℤ) : ℤ :=
  if proximityNearValue ≤ value ∧ value ≤ proximityFarValue then 0 else fishyProximityValue

/-- `set_val`. -/
def setVal (world : World) : Run ℤ := putLast world .overwrite (-1) filepathActivate '1'

/-- `get_val`. As an `unsigned long`, a negative value is above the range. -/
def getVal (world : World) (fname : String) : Run ℤ := do
  let f ← fopenOrReturn world fname .r
  let assigned ← fscanf f formatD
  fclose f
  pure (if 0 < assigned then verdictOf (strtol f.text).1 else -1)

/-- What the input device does: whether it opens, what `select` returns, whether the descriptor is
ready, and the code and the value of the event, if `read` gets one. -/
structure Input where
  opens : Bool
  select : ℤ
  ready : Bool
  event : Option (ℕ × ℤ)

/-- `get_interrupt_val`. An event that was not read has the code 0. -/
def getInterruptVal (input : Input) : ℤ :=
  if ¬input.opens then -1
  else if 0 < input.select then
    if input.ready then
      let ev := input.event.getD (0, 0)
      if ev.1 = 11 then verdictOf ev.2 else -1
    else -1
  else if input.select = -1 then -1
  else 0

def tcid : String := "prox_sfh7741"

/-- The check of a value. -/
def valueCheck (routine : Run ℤ) (file : String) : Check :=
  ⟨routine, (· = fishyProximityValue),
    " failed. proximity value not valid" ++ place tcid file,
    " failed. Filepath: " ++ filepath ++ " not found. " ++ place tcid file ++ "\n"⟩

/-- The checks, by the release of the kernel. -/
def checks (world : World) (file release : String) (input : Input) : List Check :=
  if release.toList.take 3 = "3.0".toList then
    [valueCheck (pure (getInterruptVal input)) file]
  else
    [⟨setVal world, (· = eof),
        " failed. Error when activating proximity. " ++ place tcid file,
        " failed. FilePath: " ++ filepathActivate ++ " not found. " ++ place tcid file ++ "\n"⟩,
      valueCheck (getVal world filepath) file]

end ProxSfh7741

/-- The program of the proximity sensor. -/
def proxSfh7741 (world : World) (file release : String) (input : ProxSfh7741.Input) :
    TestProgram where
  Globals := Unit
  prepare := pure ()
  ofReturn _ := ()
  checks _ := ProxSfh7741.checks world file release input

/-! ### The four programs -/

/-- The programs, with what they read besides the files: the variable of `get_val`, and the release
of the kernel with the input device. -/
inductive Sensor
  | l3g4200d
  | lsm303dlh
  | lps001wp (ret : ℤ)
  | proxSfh7741 (release : String) (input : ProxSfh7741.Input)

def Sensor.program (world : World) (file : String) : Sensor → TestProgram
  | l3g4200d => Sensors.l3g4200d world file
  | lsm303dlh => Sensors.lsm303dlh world file
  | lps001wp ret => Sensors.lps001wp world file ret
  | proxSfh7741 release input => Sensors.proxSfh7741 world file release input

theorem Sensor.checks_ne_nil (world : World) (file : String) (sensor : Sensor)
    (globals : (sensor.program world file).Globals) :
    (sensor.program world file).checks globals ≠ [] := by
  cases sensor with
  | l3g4200d => exact List.cons_ne_nil _ _
  | lsm303dlh => exact List.cons_ne_nil _ _
  | lps001wp ret => exact List.cons_ne_nil _ _
  | proxSfh7741 release input =>
    change ProxSfh7741.checks world file release input ≠ []
    rw [ProxSfh7741.checks]
    split_ifs <;> exact List.cons_ne_nil _ _

/-- **The programs.** Unless the options are wrong, `-f` is given or the first `TEST_LOOPING` is
false, a program calls each of its routines once, whatever is asked for by `-i`, `-I` and `-c`,
reports each by its value, and exits with 0 if and only if every routine has returned 0. -/
theorem Sensor.main_ends {F : Type} (env : TstRes.Env) (world : World) (file : String)
    (sensor : Sensor) (call : Invocation F) {passes : ℕ} (hpasses : 2 ≤ passes)
    (_hclosed : ClosesSingly ((sensor.program world file).ending call).session.log) :
    EndsAs ((sensor.program world file).main env call passes) .initial
      ((sensor.program world file).ending call) :=
  TestProgram.main_endsAs call (sensor.checks_ne_nil world file _) hpasses

/-- The program of the gyroscope, without the gyroscope. -/
theorem Sensor.main_ends_l3g4200d :
    EndsAs ((Sensor.l3g4200d.program ⟨fun _ => none, fun _ => true⟩ "sensor_l3g4200d.c").main
        (TstRes.plainEnv none) (plainInvocation []) 2) .initial
      ((Sensor.l3g4200d.program ⟨fun _ => none, fun _ => true⟩ "sensor_l3g4200d.c").ending
        (plainInvocation [])) :=
  Sensor.main_ends _ _ _ _ _ (Nat.le_refl 2) (by decide +kernel)

/-! ### What has to succeed -/

namespace Device

variable (device : Device)

/-- The file opens, and its stream takes what is put into it. -/
def Takes (path : String) : Prop := device.opens path .w = true ∧ device.puts path = true

/-- What the routines of the gyroscope need. Only the last write of `gyr_set_properties` counts. -/
structure GyrWorks : Prop where
  setVal : device.Takes gyrFilepathActivate
  setProperties : device.opens gyrFilepathRate .w = true ∧ device.Takes gyrFilepathRange
  getVal : device.Reads L3g4200d.gyrFilepath formatX
  getProperties : ∀ path ∈ [gyrFilepathActivate, gyrFilepathRange, gyrFilepathRate,
    gyrFilepathTemp], device.Reads path formatD

/-- The second part of `check_acc_devid`. -/
def readId (paths : AccPaths) : Devid :=
  if device.opens paths.accFilepathId .r = true ∧
      scan formatD 0 (device.text paths.accFilepathId) = 1 then
    ⟨0, paths, atoi (device.text paths.accFilepathId)⟩
  else ⟨-1, paths, 0⟩

/-- What `check_acc_devid` finds. -/
def devid : Devid :=
  if device.opens Lsm303dlh.accPaths.accFilepath .r = true then device.readId Lsm303dlh.accPaths
  else if device.opens AccPaths.alternative.accFilepath .r = true then device.readId .alternative
  else ⟨-1, Lsm303dlh.accPaths, 0⟩

/-- What the routines of the accelerometer need, with the paths and the id that were found. -/
structure AccWorks (devid : Devid) : Prop where
  setVal : (devid.id = 50 → device.opens devid.paths.accFilepathRate .w = true ∧
      device.opens devid.paths.accFilepathSleepwake .w = true) ∧
    device.opens devid.paths.accFilepathRange .w = true ∧
    device.Takes devid.paths.accFilepathActivate
  setProperties : device.Takes devid.paths.accFilepathRange
  getVal : device.Reads devid.paths.accFilepath formatX
  getProperties : device.Reads devid.paths.accFilepathActivate formatD ∧
    device.Reads devid.paths.accFilepathRange formatD ∧
    (devid.id = 50 → device.Reads devid.paths.accFilepathRate formatD ∧
      device.Reads devid.paths.accFilepathSleepwake formatD)

/-- What the routines of the magnetometer need. -/
structure MagWorks : Prop where
  setVal : device.opens magFilepathRate .w = true ∧ device.Takes magFilepathActivate
  setProperties : device.Takes magFilepathRange
  getVal : device.Reads Lsm303dlh.magFilepath formatX
  getProperties : (∀ path ∈ [magFilepathActivate, magFilepathRange, magFilepathRate],
    device.Reads path formatD) ∧ device.Reads magFilepathGain formatX

/-- What the routines of the pressure sensor need. Of the three values that `get_val` reads the
last one counts. -/
structure PrsWorks : Prop where
  setMode : device.Takes Lps001wp.pathPrsEnable
  setProperties : ∀ path ∈ [pathPrsPollrate, pathPrsDiffenable, pathPrsRef, pathPrsLowpowEnable,
    pathPrsRegaddr], device.Takes path
  getVal : device.opens pathPrsPressdata .r = true ∧ device.opens pathPrsTempdata .r = true ∧
    device.Reads pathPrsDeltapresdata formatD
  getProperties : ∀ path ∈ [pathPrsPollrate, pathPrsDiffenable, pathPrsRef, pathPrsLowpowEnable,
    pathPrsRegval], device.Reads path formatD

/-- What the routines of the proximity sensor need. -/
structure ProxWorks : Prop where
  setVal : device.Takes ProxSfh7741.filepathActivate
  getVal : device.Reads ProxSfh7741.filepath formatD ∧
    0 ≤ (strtol (device.text ProxSfh7741.filepath)).1 ∧
    (strtol (device.text ProxSfh7741.filepath)).1 ≤ 100000

/-- What `get_interrupt_val` needs: no event within a second, or an event of the sensor with a value
in the range. -/
structure InputWorks (input : ProxSfh7741.Input) : Prop where
  opens : input.opens = true
  event : if 0 < input.select then
      input.ready = true ∧ ∃ value, input.event = some (11, value) ∧ 0 ≤ value ∧ value ≤ 100000
    else input.select ≠ -1

/-- What the routines of a program need. -/
def Works : Sensor → Prop
  | .l3g4200d => device.GyrWorks
  | .lsm303dlh => device.AccWorks device.devid ∧ device.MagWorks
  | .lps001wp _ => device.PrsWorks
  | .proxSfh7741 release input =>
    if release.toList.take 3 = "3.0".toList then InputWorks input else device.ProxWorks

end Device

/-! ### Routines on a device -/

/-- On steady logs the routine returns 0 if and only if `p` holds. -/
def Passes (device : Device) (world : World) (routine : Run ℤ) (p : Prop) : Prop :=
  ∃ value, Gives device world routine value ∧ (value = 0 ↔ p)

variable {device : Device} {world : World} {s : Session} {routine rest : Run ℤ} {value v : ℤ}
  {p q : Prop}

theorem Passes.congr (h : Passes device world routine p) (hpq : p ↔ q) :
    Passes device world routine q := by
  obtain ⟨value, hgives, hp⟩ := h
  exact ⟨value, hgives, hp.trans hpq⟩

theorem passes_accessFiles (policy : Policy) (val : ℤ) (files : List FileUse) :
    Passes device world (accessFiles world policy val files)
      ((∀ file ∈ files, device.opens file.path file.mode = true) ∧
        (files.flatMap fun file => file.accesses.filterMap (device.answer file.path)).foldl
          policy.update val = 0) :=
  ⟨_, gives_accessFiles device world policy val files, Device.accessFiles_eq_zero_iff⟩

theorem passes_readProperties {skipped ret : ℤ} {file : Reading} {rest : List Reading}
    (hskipped : 0 ≤ skipped) (hret : ret = skipped + (rest.length + 1 : ℕ)) :
    Passes device world (readProperties world skipped ret file rest)
      (∀ other ∈ file :: rest, device.Reads other.path other.format) :=
  ⟨_, gives_readProperties device world skipped ret file rest,
    Device.readProperties_eq_zero_iff hskipped hret⟩

theorem passes_putLast_overwrite (val : ℤ) (path : String) (c : Char) :
    Passes device world (putLast world .overwrite val path c) (device.Takes path) :=
  (passes_accessFiles _ _ _).congr
    (by simp [Device.answer, update_overwrite_eq_zero_iff, Device.Takes])

theorem passes_putLast_keep (path : String) (c : Char) :
    Passes device world (putLast world .keep 0 path c) (device.Takes path) :=
  (passes_accessFiles _ _ _).congr (by simp [Device.answer, update_keep_eq_zero_iff, Device.Takes])

theorem passes_getXyz (fname : String) :
    Passes device world (getXyz world fname) (device.Reads fname formatX) :=
  (passes_accessFiles _ _ _).congr
    (by simp [Device.answer, update_overwrite_eq_zero_iff, Device.Reads])

theorem Gives.callOf (h : Gives device world routine value) (s : Session) :
    Settles device world s (callOf id routine s).2 ((callOf id routine s).1 = value) := by
  have hs := h s
  rw [Outcome] at hs
  rw [Sensors.callOf]
  cases hrun : routine.run s with
  | ok a s' => simpa only [hrun] using hs
  | error e s' => simpa only [hrun, id] using hs

/-- A result that is not looked at. -/
theorem Passes.ignored_bind (h : Passes device world routine q)
    (hrest : Passes device world rest p) :
    Passes device world (ignored routine >>= fun _ => rest) p := by
  obtain ⟨value, hgives, -⟩ := h
  obtain ⟨v, hv, hp⟩ := hrest
  refine ⟨v, fun s => ?_, hp⟩
  have hmono : ∀ v' s', Settles device world (Sensors.callOf id routine s).2 s' (v' = v) →
      Settles device world s s' (v' = v) :=
    fun v' s' h' => ((hgives.callOf s).trans h').imp fun h => h.2
  exact Outcome.bind_of_ok rfl ((hv _).mono hmono hmono)

/-- A file that has to open. -/
theorem Passes.putIgnored_bind (path : String) (c : Char) (hrest : Passes device world rest p) :
    Passes device world (putIgnored world path c >>= fun _ => rest)
      (device.opens path .w = true ∧ p) := by
  obtain ⟨v, hv, hp⟩ := hrest
  refine ⟨if device.opens path .w then v else -1, fun s => ?_, ?_⟩
  · rw [putIgnored, bind_assoc]
    refine Outcome.bind ((fopenOrReturn_settles path .w s).mono (fun _ _ => id)
      fun v' s' h => h.imp fun ⟨hv', hclosed⟩ => ?_) fun f s₁ ⟨_, hsettles₁⟩ => ?_
    · rw [hv', hclosed, if_neg Bool.false_ne_true]
    · obtain ⟨ok, s₂, hrun₂, -, hsettles₂⟩ := @put_settles device world (.fputc f.number c) s₁
      obtain ⟨s₃, hrun₃, hsettles₃⟩ := @note_settles device world (.fclose f.number) s₂
      have hsettles := (hsettles₁.trans hsettles₂).trans hsettles₃
      have hmono : ∀ v' s', Settles device world s₃ s' (v' = v) →
          Settles device world s s' (v' = if device.opens path .w then v else -1) :=
        fun v' s' h' => (hsettles.trans h').imp fun h => by rw [if_pos h.1.1.1.1, h.2]
      rw [bind_assoc]
      exact Outcome.bind_of_ok hrun₂ (Outcome.bind_of_ok hrun₃ ((hv s₃).mono hmono hmono))
  · split_ifs with hopens
    · simp [hopens, hp]
    · simp [hopens]

theorem valuesOf_settles {checks : List Check} {ps : List Prop}
    (h : List.Forall₂ (fun check p => Passes device world check.routine p) checks ps)
    (s : Session) :
    Settles device world s (valuesOf checks s).2
      ((∀ ret ∈ (valuesOf checks s).1, ret = 0) ↔ ps.Forall id) := by
  induction h generalizing s with
  | nil => exact .refl s fun _ => by simp [valuesOf]
  | cons hcheck _ ih =>
    obtain ⟨value, hgives, hp⟩ := hcheck
    refine ((hgives.callOf s).trans (ih _)).imp fun h => ?_
    obtain ⟨hvalue, hvalues⟩ := h
    rw [← hvalue] at hp
    rw [valuesOf, List.forall_mem_cons, List.forall_cons, hvalues]
    exact and_congr_left' hp

/-- The values of a program whose log is steady. -/
theorem returned_iff_of_steady {program : TestProgram} {globals : program.Globals}
    {ps : program.Globals → List Prop}
    (hprepared : Settles device world .initial program.prepared.2 (program.prepared.1 = globals))
    (hpasses : ∀ globals, List.Forall₂ (fun check p => Passes device world check.routine p)
      (program.checks globals) (ps globals))
    (hsteady : Steady device world program.returned.2.log) :
    (∀ ret ∈ program.returned.1, ret = 0) ↔ (ps globals).Forall id := by
  have hsettles := hprepared.trans
    (valuesOf_settles (hpasses program.prepared.1) program.prepared.2)
  obtain ⟨hglobals, hreturned⟩ := hsettles.fact hsteady
  rw [← hglobals]
  exact hreturned

/-! ### The programs -/

theorem returned_gyr {file : String}
    (hsteady : Steady device world (l3g4200d world file).returned.2.log) :
    (∀ ret ∈ (l3g4200d world file).returned.1, ret = 0) ↔ device.GyrWorks := by
  have hset : Passes device world (gyrSetProperties world)
      (device.opens gyrFilepathRate .w = true ∧ device.Takes gyrFilepathRange) :=
    (passes_accessFiles _ _ _).congr (by
      simp [gyrSetFiles, Device.answer, update_overwrite_eq_zero_iff, Device.Takes, and_assoc])
  have hget : Passes device world (gyrGetProperties world)
      (∀ path ∈ [gyrFilepathActivate, gyrFilepathRange, gyrFilepathRate, gyrFilepathTemp],
        device.Reads path formatD) :=
    (@passes_readProperties device world 0 4 _ _ (Int.le_refl 0) rfl).congr (by simp)
  have hxyz := @passes_getXyz device world L3g4200d.gyrFilepath
  have hchecks : List.Forall₂ (fun check p => Passes device world check.routine p)
      (L3g4200d.checks world file) _ :=
    .cons (hset.ignored_bind (hxyz.ignored_bind (passes_putLast_overwrite _ _ _)))
      (.cons hset (.cons hxyz (.cons hget .nil)))
  refine (@returned_iff_of_steady device world (l3g4200d world file) () (fun _ => _)
    (.refl _ fun _ => rfl) (fun _ => hchecks) hsteady).trans ?_
  constructor
  · rintro ⟨h₁, h₂, h₃, h₄⟩
    exact ⟨h₁, h₂, h₃, h₄⟩
  · rintro ⟨h₁, h₂, h₃, h₄⟩
    exact ⟨h₁, h₂, h₃, h₄⟩

/-- `fopen`, when its result is looked at. -/
theorem fopen_settles (path : String) (s : Session) :
    ∃ f s', (fopen world path .r).run s = .ok f s' ∧
      Settles device world s s' (f.elim (device.opens path .r = false) fun f =>
        device.opens path .r = true ∧ f.text = device.text path) := by
  obtain ⟨s', hrun, -, hlog⟩ := fopen_log world path .r s
  refine ⟨_, s', hrun, hlog ▸ List.subset_append_left _ _, fun h => ?_⟩
  have hopens := h.opens path .r _ (by rw [hlog]; exact List.mem_append_right _ (.head _))
  cases hanswer : world.fopen s.fopens with
  | none =>
    rw [hanswer] at hopens
    exact hopens.symm
  | some text =>
    rw [hanswer] at hopens hlog
    have htext := h.text path .r s.fopens (by rw [hlog]; exact List.mem_append_right _ (.head _))
    exact ⟨hopens.symm, Option.some.inj (hanswer.symm.trans htext)⟩

theorem readId_settles (paths : AccPaths) (s : Session) :
    ∃ devid s', (readId world paths 0).run s = .ok devid s' ∧
      Settles device world s s' (devid = device.readId paths) := by
  obtain ⟨f, s₁, hrun₁, hsettles₁⟩ :=
    @fopen_settles device world paths.accFilepathId s
  rw [readId, run_bind_of_ok hrun₁, Device.readId]
  cases f with
  | none =>
    refine ⟨_, s₁, EStateM.run_pure _ _, hsettles₁.imp fun h => ?_⟩
    rw [if_neg fun hid => Bool.false_ne_true (h.symm.trans hid.1)]
  | some f =>
    obtain ⟨s₂, hrun₂, hsettles₂⟩ :=
      @note_settles device world (.fscanf f.number formatD (scan formatD 0 f.text)) s₁
    obtain ⟨s₃, hrun₃, hsettles₃⟩ := @note_settles device world (.fclose f.number) s₂
    have hscanf : (fscanf f formatD).run s₁ = .ok (scan formatD 0 f.text) s₂ := run_bind_of_ok hrun₂
    dsimp only
    rw [run_bind_of_ok hscanf]
    refine ⟨_, s₃, run_bind_of_ok hrun₃,
      ((hsettles₁.trans hsettles₂).trans hsettles₃).imp fun h => ?_⟩
    obtain ⟨⟨⟨hopens, htext⟩, -⟩, -⟩ := h
    rw [← htext]
    by_cases hscan : scan formatD 0 f.text = 1
    · rw [if_neg (not_not_intro hscan), if_pos ⟨hopens, hscan⟩]
    · rw [if_pos hscan, if_neg fun h => hscan h.2]

/-- `check_acc_devid` on a device. -/
theorem checkAccDevid_settles (s : Session) :
    ∃ devid s', (checkAccDevid world Lsm303dlh.accPaths 0).run s = .ok devid s' ∧
      Settles device world s s' (devid = device.devid) := by
  have hread (f : Stream) (s : Session) (paths : AccPaths) :
      ∃ devid s', (fclose f >>= fun _ => readId world paths 0).run s = .ok devid s' ∧
        Settles device world s s' (devid = device.readId paths) := by
    obtain ⟨s₁, hrun₁, hsettles₁⟩ := @note_settles device world (.fclose f.number) s
    obtain ⟨devid, s₂, hrun₂, hsettles₂⟩ := @readId_settles device world paths s₁
    exact ⟨devid, s₂, (run_bind_of_ok hrun₁).trans hrun₂,
      (hsettles₁.trans hsettles₂).imp fun h => h.2⟩
  obtain ⟨f, s₁, hrun₁, hsettles₁⟩ :=
    @fopen_settles device world Lsm303dlh.accPaths.accFilepath s
  rw [checkAccDevid, run_bind_of_ok hrun₁, Device.devid]
  cases f with
  | some f =>
    obtain ⟨devid, s₂, hrun₂, hsettles₂⟩ := hread f s₁ Lsm303dlh.accPaths
    refine ⟨devid, s₂, hrun₂, (hsettles₁.trans hsettles₂).imp fun h => ?_⟩
    rw [if_pos h.1.1, h.2]
  | none =>
    obtain ⟨g, s₂, hrun₂, hsettles₂⟩ :=
      @fopen_settles device world AccPaths.alternative.accFilepath s₁
    have hclosed {b : Bool} (h : b = false) : ¬b = true := Bool.eq_false_iff.mp h
    dsimp only
    rw [run_bind_of_ok hrun₂]
    cases g with
    | none =>
      refine ⟨_, s₂, EStateM.run_pure _ _, (hsettles₁.trans hsettles₂).imp fun h => ?_⟩
      rw [if_neg (hclosed h.1), if_neg (hclosed h.2)]
    | some g =>
      obtain ⟨devid, s₃, hrun₃, hsettles₃⟩ := hread g s₂ .alternative
      refine ⟨devid, s₃, hrun₃,
        ((hsettles₁.trans hsettles₂).trans hsettles₃).imp fun h => ?_⟩
      obtain ⟨⟨hfirst, hopens, -⟩, hdevid⟩ := h
      rw [if_neg (hclosed hfirst), if_pos hopens, hdevid]

section

variable (devid : Devid)

theorem passes_accSetProperties : Passes device world
    (accSetProperties world (Lsm303dlh.globals devid))
    ((devid.id = 50 → device.opens devid.paths.accFilepathRate .w = true ∧
      device.opens devid.paths.accFilepathSleepwake .w = true) ∧
        device.Takes devid.paths.accFilepathRange) := by
  refine (passes_accessFiles _ _ _).congr ?_
  by_cases hid : devid.id = 50
  · simp [accSetFiles, Lsm303dlh.globals, hid, Device.answer, update_overwrite_eq_zero_iff,
      Device.Takes, and_assoc, List.filterMap_cons]
  · simp [accSetFiles, Lsm303dlh.globals, hid, Device.answer, update_overwrite_eq_zero_iff,
      Device.Takes, List.filterMap_cons]

theorem passes_accGetProperties : Passes device world
    (accGetProperties world (Lsm303dlh.globals devid))
    (device.Reads devid.paths.accFilepathActivate formatD ∧
      device.Reads devid.paths.accFilepathRange formatD ∧
      (devid.id = 50 → device.Reads devid.paths.accFilepathRate formatD ∧
        device.Reads devid.paths.accFilepathSleepwake formatD)) := by
  by_cases hid : devid.id = 50
  · have hrun : accGetProperties world (Lsm303dlh.globals devid) = _ := if_pos hid
    rw [hrun]
    refine (@passes_readProperties device world 0 4 _ _ (Int.le_refl 0) rfl).congr ?_
    simp [hid, Lsm303dlh.globals]
  · have hrun : accGetProperties world (Lsm303dlh.globals devid) = _ := if_neg hid
    rw [hrun]
    refine (@passes_readProperties device world 2 4 _ _ (by decide) rfl).congr ?_
    simp [hid, Lsm303dlh.globals]

theorem passes_accSetVal : Passes device world (Lsm303dlh.accSetVal world devid)
    ((devid.id = 50 → device.opens devid.paths.accFilepathRate .w = true ∧
        device.opens devid.paths.accFilepathSleepwake .w = true) ∧
      device.opens devid.paths.accFilepathRange .w = true ∧
      device.Takes devid.paths.accFilepathActivate) := by
  have hlast := (@passes_getXyz device world devid.paths.accFilepath).ignored_bind
    (passes_putLast_overwrite (-1) devid.paths.accFilepathActivate '1')
  have hrest := hlast.putIgnored_bind devid.paths.accFilepathRange '1'
  rw [Lsm303dlh.accSetVal]
  by_cases hid : devid.id = 50
  · rw [onlyIf_of_pos hid, bind_assoc]
    refine ((hrest.putIgnored_bind devid.paths.accFilepathSleepwake '0').putIgnored_bind
      devid.paths.accFilepathRate '0').congr ?_
    simp [hid, and_assoc]
  · rw [onlyIf_of_neg hid, pure_bind]
    exact hrest.congr (by simp [hid])

end

theorem passes_magSetVal : Passes device world (Lsm303dlh.magSetVal world)
    (device.opens magFilepathRate .w = true ∧ device.opens magFilepathRange .w = true ∧
      device.Takes magFilepathActivate) := by
  have hlast := (@passes_getXyz device world Lsm303dlh.magFilepath).ignored_bind
    (passes_putLast_overwrite (-1) magFilepathActivate '0')
  exact (hlast.putIgnored_bind magFilepathRange '1').putIgnored_bind magFilepathRate '4'

theorem passes_magSetProperties : Passes device world (magSetProperties world)
    (device.opens magFilepathRate .w = true ∧ device.Takes magFilepathRange) := by
  refine (passes_accessFiles _ _ _).congr ?_
  simp [magSetFiles, Device.answer, update_overwrite_eq_zero_iff, Device.Takes, and_assoc,
    List.filterMap_cons]

theorem passes_magGetProperties : Passes device world (magGetProperties world)
    ((∀ path ∈ [magFilepathActivate, magFilepathRange, magFilepathRate],
      device.Reads path formatD) ∧ device.Reads magFilepathGain formatX) := by
  refine (@passes_readProperties device world 0 4 _ _ (Int.le_refl 0) rfl).congr ?_
  simp [and_assoc]

theorem returned_lsm {file : String}
    (hsteady : Steady device world (lsm303dlh world file).returned.2.log) :
    (∀ ret ∈ (lsm303dlh world file).returned.1, ret = 0) ↔
      device.AccWorks device.devid ∧ device.MagWorks := by
  have hchecks (devid : Devid) : List.Forall₂ (fun check p => Passes device world check.routine p)
      (Lsm303dlh.checks world file devid) _ :=
    .cons (passes_accSetVal devid) (.cons (passes_accSetProperties devid)
      (.cons (passes_getXyz devid.paths.accFilepath) (.cons passes_magSetVal
        (.cons passes_magSetProperties (.cons (passes_getXyz Lsm303dlh.magFilepath)
          (.cons (passes_accGetProperties devid) (.cons passes_magGetProperties .nil)))))))
  have hprepared : Settles device world .initial (lsm303dlh world file).prepared.2
      ((lsm303dlh world file).prepared.1 = device.devid) := by
    obtain ⟨devid, s', hrun, hsettles⟩ := @checkAccDevid_settles device world .initial
    have hcall : (lsm303dlh world file).prepared = (devid, s') := by
      change callOf _ (checkAccDevid world Lsm303dlh.accPaths 0) .initial = _
      unfold callOf
      rw [hrun]
    rw [hcall]
    exact hsettles
  refine (@returned_iff_of_steady device world (lsm303dlh world file) _ _ hprepared hchecks
    hsteady).trans ?_
  constructor
  · rintro ⟨h₁, h₂, h₃, ⟨h₄, _, h₄'⟩, ⟨_, h₅⟩, h₆, h₇, h₈⟩
    exact ⟨⟨h₁, h₂.2, h₃, h₇⟩, ⟨h₄, h₄'⟩, h₅, h₆, h₈⟩
  · rintro ⟨⟨h₁, h₂, h₃, h₇⟩, h₄, h₅, h₆, h₈⟩
    exact ⟨h₁, ⟨h₁.1, h₂⟩, h₃, ⟨h₄.1, h₅.1, h₄.2⟩, ⟨h₄.1, h₅⟩, h₆, h₇, h₈⟩

theorem returned_prs {file : String} {ret : ℤ}
    (hsteady : Steady device world (lps001wp world file ret).returned.2.log) :
    (∀ value ∈ (lps001wp world file ret).returned.1, value = 0) ↔ device.PrsWorks := by
  have hset : Passes device world (prsSetProperties world) (∀ path ∈ [pathPrsPollrate,
      pathPrsDiffenable, pathPrsRef, pathPrsLowpowEnable, pathPrsRegaddr], device.Takes path) := by
    refine (passes_accessFiles _ _ _).congr ?_
    simp [prsSetFiles, Device.answer, update_keep_eq_zero_iff, Device.Takes]
    tauto
  have hvalues : Passes device world (getVal world ret) (device.opens pathPrsPressdata .r = true ∧
      device.opens pathPrsTempdata .r = true ∧ device.Reads pathPrsDeltapresdata formatD) := by
    refine (passes_accessFiles _ _ _).congr ?_
    simp [getValFiles, Device.answer, update_overwrite_eq_zero_iff, Device.Reads, and_assoc]
  have hget : Passes device world (prsGetProperties world) (∀ path ∈ [pathPrsPollrate,
      pathPrsDiffenable, pathPrsRef, pathPrsLowpowEnable, pathPrsRegval],
      device.Reads path formatD) := by
    refine (passes_accessFiles _ _ _).congr ?_
    simp [prsGetFiles, Device.answer, update_keep_eq_zero_iff, Device.Reads]
    tauto
  have hchecks : List.Forall₂ (fun check p => Passes device world check.routine p)
      (Lps001wp.checks world file ret) _ :=
    .cons (hset.ignored_bind (hvalues.ignored_bind (passes_putLast_keep _ _)))
      (.cons hset (.cons hvalues (.cons hget .nil)))
  refine (@returned_iff_of_steady device world (lps001wp world file ret) () (fun _ => _)
    (.refl _ fun _ => rfl) (fun _ => hchecks) hsteady).trans ?_
  constructor
  · rintro ⟨h₁, h₂, h₃, h₄⟩
    exact ⟨h₁, h₂, h₃, h₄⟩
  · rintro ⟨h₁, h₂, h₃, h₄⟩
    exact ⟨h₁, h₂, h₃, h₄⟩

theorem scan_formatD_pos_iff (text : List Char) :
    0 < scan formatD 0 text ↔ scan formatD 0 text = formatD.conversions := by
  rw [formatD, scan]
  split_ifs
  · exact ⟨fun h => absurd h (by decide), fun h => absurd h (by decide)⟩
  · exact ⟨fun h => absurd h (by decide), fun h => absurd h (by decide)⟩
  · split
    · exact ⟨fun h => absurd h (by decide), fun h => absurd h (by decide)⟩
    · exact ⟨fun _ => rfl, fun _ => Int.zero_lt_one⟩

theorem verdictOf_eq_zero_iff (value : ℤ) :
    ProxSfh7741.verdictOf value = 0 ↔ 0 ≤ value ∧ value ≤ 100000 := by
  rw [ProxSfh7741.verdictOf]
  split_ifs with h
  · exact iff_of_true rfl h
  · exact iff_of_false (by decide) h

theorem passes_proxGetVal : Passes device world (ProxSfh7741.getVal world ProxSfh7741.filepath)
    (device.Reads ProxSfh7741.filepath formatD ∧
      0 ≤ (strtol (device.text ProxSfh7741.filepath)).1 ∧
      (strtol (device.text ProxSfh7741.filepath)).1 ≤ 100000) := by
  refine ⟨if device.opens ProxSfh7741.filepath .r = true ∧
      0 < scan formatD 0 (device.text ProxSfh7741.filepath) then
    ProxSfh7741.verdictOf (strtol (device.text ProxSfh7741.filepath)).1 else -1, fun s => ?_, ?_⟩
  · refine Outcome.bind ((fopenOrReturn_settles ProxSfh7741.filepath .r s).mono (fun _ _ => id)
      fun v s' h => h.imp fun ⟨hv, hclosed⟩ => ?_) fun f s₁ ⟨_, hsettles₁⟩ => ?_
    · rw [hv, if_neg fun h => Bool.false_ne_true (hclosed.symm.trans h.1)]
    · obtain ⟨s₂, hrun₂, hsettles₂⟩ :=
        @note_settles device world (.fscanf f.number formatD (scan formatD 0 f.text)) s₁
      obtain ⟨s₃, hrun₃, hsettles₃⟩ := @note_settles device world (.fclose f.number) s₂
      refine Outcome.bind_of_ok (run_bind_of_ok hrun₂) (Outcome.bind_of_ok hrun₃
        (Outcome.of_ok (EStateM.run_pure _ _) (((hsettles₁.trans hsettles₂).trans hsettles₃).imp
          fun ⟨⟨⟨hopens, htext⟩, _⟩, _⟩ => ?_)))
      rw [htext]
      simp only [hopens, true_and]
  · rw [Device.Reads, ← scan_formatD_pos_iff]
    split_ifs with h
    · rw [verdictOf_eq_zero_iff, and_iff_right h]
    · exact iff_of_false (by decide) fun h' => h h'.1

theorem returned_prox {file release : String} {input : ProxSfh7741.Input}
    (hrelease : release.toList.take 3 ≠ "3.0".toList)
    (hsteady : Steady device world (proxSfh7741 world file release input).returned.2.log) :
    (∀ value ∈ (proxSfh7741 world file release input).returned.1, value = 0) ↔
      device.ProxWorks := by
  have hchecks : List.Forall₂ (fun check p => Passes device world check.routine p)
      (ProxSfh7741.checks world file release input)
      [device.Takes ProxSfh7741.filepathActivate, device.Reads ProxSfh7741.filepath formatD ∧
        0 ≤ (strtol (device.text ProxSfh7741.filepath)).1 ∧
        (strtol (device.text ProxSfh7741.filepath)).1 ≤ 100000] := by
    rw [ProxSfh7741.checks, if_neg hrelease]
    exact .cons (passes_putLast_overwrite _ _ _) (.cons passes_proxGetVal .nil)
  refine (@returned_iff_of_steady device world (proxSfh7741 world file release input) ()
    (fun _ => _) (.refl _ fun _ => rfl) (fun _ => hchecks) hsteady).trans ?_
  exact ⟨fun ⟨h₁, h₂⟩ => ⟨h₁, h₂⟩, fun ⟨h₁, h₂⟩ => ⟨h₁, h₂⟩⟩

theorem getInterruptVal_eq_zero_iff (input : ProxSfh7741.Input) :
    ProxSfh7741.getInterruptVal input = 0 ↔ Device.InputWorks input := by
  have hevent (event : Option (ℕ × ℤ)) :
      (if (event.getD (0, 0)).1 = 11 then ProxSfh7741.verdictOf (event.getD (0, 0)).2 else -1) = 0 ↔
        ∃ value, event = some (11, value) ∧ 0 ≤ value ∧ value ≤ 100000 := by
    rcases event with - | ⟨code, value⟩
    · simp
    · by_cases hcode : code = 11 <;> simp [hcode, verdictOf_eq_zero_iff]
  have hworks : Device.InputWorks input ↔ input.opens = true ∧ if 0 < input.select then
      input.ready = true ∧ ∃ value, input.event = some (11, value) ∧ 0 ≤ value ∧ value ≤ 100000
      else input.select ≠ -1 := ⟨fun h => ⟨h.1, h.2⟩, fun h => ⟨h.1, h.2⟩⟩
  rw [hworks, ProxSfh7741.getInterruptVal]
  by_cases hopens : input.opens = true
  · rw [if_neg (not_not_intro hopens), and_iff_right hopens]
    by_cases hselect : 0 < input.select
    · rw [if_pos hselect, if_pos hselect, ← hevent]
      by_cases hready : input.ready = true
      · simp [hready]
      · simp [hready]
    · rw [if_neg hselect, if_neg hselect]
      split_ifs with herror
      · simp [herror]
      · simp [herror]
  · simp [hopens]

theorem returned_input {file release : String} {input : ProxSfh7741.Input}
    (hrelease : release.toList.take 3 = "3.0".toList) :
    (∀ value ∈ (proxSfh7741 world file release input).returned.1, value = 0) ↔
      Device.InputWorks input := by
  have hreturned : (proxSfh7741 world file release input).returned =
      valuesOf (ProxSfh7741.checks world file release input) .initial := rfl
  rw [hreturned, ProxSfh7741.checks, if_pos hrelease, ← getInterruptVal_eq_zero_iff]
  exact List.forall_mem_singleton

/-! ### The verdicts -/

/-- The options ask for a run with the test cases. -/
def Runs {F : Type} (call : Invocation F) : Prop :=
  ∃ state ret statics, call.parsed none = .ok state ∧
    ParseOpts.uscTestLooping call.floats state.std call.clock 0 0 .initial = some (ret, statics) ∧
    ret ≠ 0 ∧ state.std.functionalTest ≠ 0

theorem Runs.ending {F : Type} {call : Invocation F} (h : Runs call) (program : TestProgram) :
    program.ending call = program.passEnding := by
  obtain ⟨state, ret, statics, hparsed, hlooping, hret, hfunctional⟩ := h
  rw [TestProgram.ending, hparsed]
  dsimp only
  rw [hlooping]
  dsimp only
  rw [if_neg hret, if_neg hfunctional]

theorem Sensor.returned_iff {file : String} (sensor : Sensor)
    (hsteady : Steady device world (sensor.program world file).returned.2.log) :
    (∀ ret ∈ (sensor.program world file).returned.1, ret = 0) ↔ device.Works sensor := by
  cases sensor with
  | l3g4200d => exact returned_gyr hsteady
  | lsm303dlh => exact returned_lsm hsteady
  | lps001wp ret => exact returned_prs hsteady
  | proxSfh7741 release input =>
    rw [Device.Works]
    split_ifs with hrelease
    · exact returned_input hrelease
    · exact returned_prox hrelease hsteady

/-- **The verdict of a program.** On a device whose files behave in the same way at every access,
the exit status is 0 if the device works, and `TFAIL` if it does not. -/
theorem Sensor.exit_eq_zero_iff {F : Type} (env : TstRes.Env) (file : String) (sensor : Sensor)
    {call : Invocation F} (hcall : Runs call) {passes : ℕ} (hpasses : 2 ≤ passes)
    (hsteady : Steady device world (sensor.program world file).returned.2.log)
    (_hclosed : ClosesSingly (sensor.program world file).returned.2.log) :
    Outcome ((sensor.program world file).main env call passes) .initial (fun _ _ => False)
      fun stop host => host.session = (sensor.program world file).returned.2 ∧
        (stop = .lib (.exit 0) ↔ device.Works sensor) ∧
        (stop = .lib (.exit tfail) ↔ ¬device.Works sensor) := by
  refine (TestProgram.main_endsAs call (sensor.checks_ne_nil world file _) hpasses).mono
    (fun _ _ => id) fun stop host h => ?_
  rw [hcall.ending] at h
  obtain ⟨hstop, hsession, -⟩ := h
  refine ⟨hsession, ?_⟩
  rw [hstop, ← Sensor.returned_iff sensor hsteady]
  by_cases hzero : ∀ ret ∈ (sensor.program world file).returned.1, ret = 0
  · have hexit : (sensor.program world file).passEnding.stop = .lib (.exit 0) := by
      rw [TestProgram.passEnding, if_pos hzero, Ending.exit]
    rw [hexit]
    exact ⟨iff_of_true rfl hzero, iff_of_false (by decide) (not_not_intro hzero)⟩
  · have hexit : (sensor.program world file).passEnding.stop = .lib (.exit tfail) := by
      rw [TestProgram.passEnding, if_neg hzero, Ending.exit]
    rw [hexit]
    exact ⟨iff_of_false (by decide) hzero, iff_of_true rfl hzero⟩

theorem runs_plainInvocation : Runs (plainInvocation []) :=
  ⟨_, _, _, rfl, rfl, by decide, by decide⟩

/-- A proximity sensor that reads 5. -/
def nearDevice : Device where
  opens _ _ := true
  puts _ := true
  text path := if path = ProxSfh7741.filepath then ['5'] else []

/-- The answers of this sensor. -/
def nearWorld : World where
  fopen n := some (if n = 1 then ['5'] else [])
  put _ := true

def nearSensor : Sensor := .proxSfh7741 "2.6.35" ⟨false, 0, false, none⟩

theorem steady_near :
    Steady nearDevice nearWorld (nearSensor.program nearWorld "prox_sfh7741.c").returned.2.log := by
  have hlog : (nearSensor.program nearWorld "prox_sfh7741.c").returned.2.log =
      [.fopen ProxSfh7741.filepathActivate .w (some 0), .fputc 0 '1' true, .fclose 0,
        .fopen ProxSfh7741.filepath .r (some 1), .fscanf 1 formatD 1, .fclose 1] := by
    decide +kernel
  rw [hlog]
  refine ⟨fun path mode stream h => ?_, fun path mode n h => ?_, by simp [nearDevice],
    by simp [nearDevice]⟩
  · obtain ⟨-, -, rfl⟩ | ⟨-, -, rfl⟩ : _ ∨ _ := by simpa using h
    · rfl
    · rfl
  · obtain ⟨rfl, -, rfl⟩ | ⟨rfl, -, rfl⟩ : _ ∨ _ := by simpa using h
    · decide
    · decide

theorem Sensor.exit_eq_zero_iff_near :
    Outcome ((nearSensor.program nearWorld "prox_sfh7741.c").main (TstRes.plainEnv none)
        (plainInvocation []) 2) .initial (fun _ _ => False)
      fun stop host =>
        host.session = (nearSensor.program nearWorld "prox_sfh7741.c").returned.2 ∧
          (stop = .lib (.exit 0) ↔ nearDevice.Works nearSensor) ∧
          (stop = .lib (.exit tfail) ↔ ¬nearDevice.Works nearSensor) :=
  Sensor.exit_eq_zero_iff _ _ nearSensor runs_plainInvocation (Nat.le_refl 2) steady_near
    (by decide +kernel)

end SnowballLtp.Sensors
