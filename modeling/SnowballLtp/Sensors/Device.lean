import SnowballLtp.Sensors.Closing

/-!
# Routines on a device

The files of a device behave in the same way at every access: a file opens or does not, its streams
take what `fputc` and `fputs` put into them or do not, and it holds one text. A log is steady when
the calls in it were answered so.
On a steady log the value of a routine is a function of the device, whatever else the program does
before and after it.

## Main definitions

* `Device`, `Steady`.
* `Device.accessFiles`, `Device.readProperties`: the two forms of a routine, on a device.
* `Gives`: the value of a routine on steady logs.

## Main results

* `gives_accessFiles`, `gives_readProperties`.
-/

namespace SnowballLtp.Sensors

/-- The files of a device. -/
structure Device where
  opens : String → FileMode → Bool
  /-- Whether `fputc` and `fputs` succeed on a stream of the file. -/
  puts : String → Bool
  text : String → List Char

/-- The calls of a log are answered as the device does. -/
structure Steady (device : Device) (world : World) (log : List Event) : Prop where
  opens : ∀ path mode stream, Event.fopen path mode stream ∈ log →
    stream.isSome = device.opens path mode
  text : ∀ path mode n, Event.fopen path mode (some n) ∈ log →
    world.fopen n = some (device.text path)
  fputc : ∀ path mode n c ok, Event.fopen path mode (some n) ∈ log →
    Event.fputc n c ok ∈ log → ok = device.puts path
  fputs : ∀ path mode n t ok, Event.fopen path mode (some n) ∈ log →
    Event.fputs n t ok ∈ log → ok = device.puts path

namespace Device

variable (device : Device)

/-- The result of an access to a file, if the access is tested. -/
def answer (path : String) : Access → Option Bool
  | .fputc _ => some (device.puts path)
  | .fputs _ => some (device.puts path)
  | .fscanf format => some (scan format 0 (device.text path) = format.conversions)
  | .fflush => none

/-- The value of a routine that folds results. -/
def accessFiles (policy : Policy) (val : ℤ) : List FileUse → ℤ
  | [] => val
  | file :: rest =>
    if device.opens file.path file.mode then
      accessFiles policy
        ((file.accesses.filterMap (device.answer file.path)).foldl policy.update val) rest
    else -1

/-- The value of a routine that counts. -/
def readProperties (skipped ret : ℤ) (file : Reading) : List Reading → ℤ
  | [] =>
    if device.opens file.path .r then
      if scan file.format 0 (device.text file.path) ≠ file.format.conversions then ret
      else ret - 1 - skipped
    else -1
  | other :: rest =>
    if device.opens file.path .r then
      if scan file.format 0 (device.text file.path) ≠ file.format.conversions then ret
      else readProperties skipped (ret - 1) other rest
    else -1

end Device

/-! ### Steady logs -/

variable {device : Device} {world : World} {s s' s'' : Session} {log : List Event}

theorem Steady.mono (h : Steady device world log) {log' : List Event} (hsub : log' ⊆ log) :
    Steady device world log' where
  opens path mode stream hopen := h.opens path mode stream (hsub hopen)
  text path mode n hopen := h.text path mode n (hsub hopen)
  fputc path mode n c ok hopen hput := h.fputc path mode n c ok (hsub hopen) (hsub hput)
  fputs path mode n t ok hopen hput := h.fputs path mode n t ok (hsub hopen) (hsub hput)

/-- The log has grown, and `fact` holds if it is steady. -/
structure Settles (device : Device) (world : World) (s s' : Session) (fact : Prop) : Prop where
  subset : s.log ⊆ s'.log
  fact : Steady device world s'.log → fact

variable {p q : Prop}

theorem Settles.refl (s : Session) (h : Steady device world s.log → p) :
    Settles device world s s p := ⟨List.Subset.refl _, h⟩

theorem Settles.trans (h : Settles device world s s' p) (h' : Settles device world s' s'' q) :
    Settles device world s s'' (p ∧ q) where
  subset := List.Subset.trans h.subset h'.subset
  fact hsteady := ⟨h.fact (hsteady.mono h'.subset), h'.fact hsteady⟩

theorem Settles.imp (h : Settles device world s s' p) (hpq : p → q) :
    Settles device world s s' q := ⟨h.subset, fun hsteady => hpq (h.fact hsteady)⟩

/-- The value of a routine when the log is steady, whether it returns at its end or earlier. -/
def Gives (device : Device) (world : World) (routine : Run ℤ) (value : ℤ) : Prop :=
  ∀ s, Outcome routine s (fun v s' => Settles device world s s' (v = value))
    fun v s' => Settles device world s s' (v = value)

/-! ### Calls -/

theorem fopenOrReturn_settles (path : String) (mode : FileMode) (s : Session) :
    Outcome (fopenOrReturn world path mode) s
      (fun f s' => Event.fopen path mode (some f.number) ∈ s'.log ∧
        Settles device world s s' (device.opens path mode = true ∧ f.text = device.text path))
      fun v s' => Settles device world s s' (v = -1 ∧ device.opens path mode = false) := by
  obtain ⟨s', hrun, -, hlog⟩ := fopen_log world path mode s
  have hsub : s.log ⊆ s'.log := hlog ▸ List.subset_append_left _ _
  refine Outcome.bind_of_ok hrun ?_
  cases hanswer : world.fopen s.fopens with
  | none =>
    rw [hanswer, Option.map_none] at hlog
    have hmem : Event.fopen path mode none ∈ s'.log := by rw [hlog]; simp
    exact Outcome.of_error rfl ⟨hsub, fun h => ⟨rfl, (h.opens _ _ _ hmem).symm⟩⟩
  | some text =>
    rw [hanswer, Option.map_some] at hlog
    have hmem : Event.fopen path mode (some s.fopens) ∈ s'.log := by rw [hlog]; simp
    refine Outcome.of_ok rfl ⟨hmem, hsub, fun h => ⟨(h.opens _ _ _ hmem).symm, ?_⟩⟩
    exact Option.some.inj (hanswer.symm.trans (h.text _ _ _ hmem))

theorem note_settles (event : Event) (s : Session) :
    ∃ s', (note event).run s = .ok () s' ∧ Settles device world s s' True := by
  obtain ⟨s', hrun, -, hlog⟩ := note_log event s
  exact ⟨s', hrun, hlog ▸ List.subset_append_left _ _, fun _ => trivial⟩

theorem put_settles (event : Bool → Event) (s : Session) :
    ∃ ok s', (put world event).run s = .ok ok s' ∧ event ok ∈ s'.log ∧
      Settles device world s s' True := by
  refine ⟨world.put s.puts, _, by rw [put, run_bind_of_ok (EStateM.run_get s),
    run_bind_of_ok (EStateM.run_set _ s), EStateM.run_pure], ?_, ?_, fun _ => trivial⟩
  · simp
  · exact List.subset_append_left _ _

variable {path : String} {mode : FileMode} {f : Stream}

theorem perform_settles (hopen : Event.fopen path mode (some f.number) ∈ s.log) (access : Access) :
    ∃ result s', (access.perform world f).run s = .ok result s' ∧
      Settles device world s s'
        (f.text = device.text path → result = device.answer path access) := by
  cases access with
  | fputc c =>
    obtain ⟨ok, s', hrun, hmem, hsettles⟩ := @put_settles device world (.fputc f.number c) s
    refine ⟨some ok, s', run_bind_of_ok hrun, hsettles.subset, fun h _ => ?_⟩
    exact congrArg some (h.fputc _ _ _ _ _ (hsettles.subset hopen) hmem)
  | fputs t =>
    obtain ⟨ok, s', hrun, hmem, hsettles⟩ := @put_settles device world (.fputs f.number t) s
    refine ⟨some ok, s', run_bind_of_ok hrun, hsettles.subset, fun h _ => ?_⟩
    exact congrArg some (h.fputs _ _ _ _ _ (hsettles.subset hopen) hmem)
  | fscanf format =>
    obtain ⟨s', hrun, hsettles⟩ :=
      @note_settles device world (.fscanf f.number format (scan format 0 f.text)) s
    refine ⟨_, s', run_bind_of_ok (run_bind_of_ok hrun), hsettles.imp fun _ htext => ?_⟩
    rw [Device.answer, htext]
  | fflush =>
    obtain ⟨s', hrun, hsettles⟩ := @note_settles device world (.fflush f.number) s
    exact ⟨none, s', run_bind_of_ok hrun, hsettles.imp fun _ _ => rfl⟩

theorem finish_settles (f : Stream) (finish : Finish) (s : Session) :
    ∃ s', (finish.perform f).run s = .ok () s' ∧ Settles device world s s' True := by
  cases finish with
  | fclose => exact note_settles (.fclose f.number) s
  | close => exact note_settles (.close f.number) s

/-! ### Folding and counting -/

theorem accessStream_settles (policy : Policy) (val : ℤ) (accesses : List Access)
    (hopen : Event.fopen path mode (some f.number) ∈ s.log) :
    ∃ v s', (accessStream world policy f val accesses).run s = .ok v s' ∧
      Settles device world s s' (f.text = device.text path →
        v = (accesses.filterMap (device.answer path)).foldl policy.update val) := by
  induction accesses generalizing val s with
  | nil => exact ⟨val, s, EStateM.run_pure _ _, .refl s fun _ _ => rfl⟩
  | cons access rest ih =>
    obtain ⟨result, s₁, hrun₁, hsettles₁⟩ :=
      @perform_settles _ world _ _ _ _ hopen access
    obtain ⟨v, s₂, hrun₂, hsettles₂⟩ :=
      ih (result.elim val (policy.update val)) (hsettles₁.subset hopen)
    refine ⟨v, s₂, by rw [accessStream, run_bind_of_ok hrun₁, hrun₂],
      (hsettles₁.trans hsettles₂).imp fun ⟨hresult, hv⟩ htext => ?_⟩
    rw [hv htext, hresult htext, List.filterMap_cons]
    cases device.answer path access <;> rfl

variable (device world)

theorem gives_accessFiles (policy : Policy) (val : ℤ) (files : List FileUse) :
    Gives device world (accessFiles world policy val files)
      (device.accessFiles policy val files) := by
  induction files generalizing val with
  | nil => exact fun s => Outcome.of_ok (EStateM.run_pure _ _) (.refl s fun _ => rfl)
  | cons file rest ih =>
    intro s
    refine Outcome.bind ((fopenOrReturn_settles file.path file.mode s).mono (fun _ _ => id)
      fun v s' h => h.imp fun ⟨hv, hclosed⟩ => ?_) fun f s₁ ⟨hopen, hsettles₁⟩ => ?_
    · rw [hv, Device.accessFiles, hclosed, if_neg Bool.false_ne_true]
    · obtain ⟨v, s₂, hrun₂, hsettles₂⟩ :=
        @accessStream_settles device world _ _ _ _ policy val file.accesses hopen
      obtain ⟨s₃, hrun₃, hsettles₃⟩ := @finish_settles device world f file.finish s₂
      have hsettles := (hsettles₁.trans hsettles₂).trans hsettles₃
      have hvalue : ∀ v' s', Settles device world s₃ s' (v' = device.accessFiles policy v rest) →
          Settles device world s s' (v' = device.accessFiles policy val (file :: rest)) :=
        fun v' s' h => (hsettles.trans h).imp fun ⟨⟨⟨⟨hopens, htext⟩, hv⟩, _⟩, hv'⟩ => by
          rw [hv', hv htext, Device.accessFiles, if_pos hopens]
      exact Outcome.bind_of_ok hrun₂ (Outcome.bind_of_ok hrun₃ ((ih v s₃).mono hvalue hvalue))

/-- One file of a routine that counts. -/
theorem readOne_settles {ret value : ℤ} {next : Stream → ℤ → Run ℤ} (file : Reading) {rest : ℤ}
    (hvalue : value = if device.opens file.path .r then
        if scan file.format 0 (device.text file.path) ≠ file.format.conversions then ret else rest
      else -1)
    (hnext : ∀ f, Gives device world (next f (ret - 1)) rest) :
    Gives device world (readOne world ret file next) value := by
  intro s
  refine Outcome.bind ((fopenOrReturn_settles file.path .r s).mono (fun _ _ => id)
    fun v s' h => h.imp fun ⟨hv, hclosed⟩ => ?_) fun f s₁ ⟨hopen, hsettles₁⟩ => ?_
  · rw [hv, hvalue, hclosed, if_neg Bool.false_ne_true]
  · obtain ⟨s₂, hrun₂, hsettles₂⟩ :=
      @note_settles device world (.fscanf f.number file.format (scan file.format 0 f.text)) s₁
    obtain ⟨s₃, hrun₃, hsettles₃⟩ := @note_settles device world (.fclose f.number) s₂
    have hsettles := hsettles₁.trans hsettles₂
    refine Outcome.bind_of_ok (run_bind_of_ok hrun₂) ?_
    by_cases hall : scan file.format 0 f.text = file.format.conversions
    · rw [if_neg (not_not_intro hall)]
      have hrest : ∀ s₄, Settles device world s s₄ (device.opens file.path .r = true ∧
          f.text = device.text file.path) → ∀ v' s', Settles device world s₄ s' (v' = rest) →
          Settles device world s s' (v' = value) :=
        fun s₄ h₄ v' s' h => (h₄.trans h).imp fun ⟨⟨hopens, htext⟩, hv'⟩ => by
          rw [hv', hvalue, if_pos hopens, ← htext, if_neg (not_not_intro hall)]
      refine Outcome.bind (Outcome.onlyIf (fun _ => Outcome.of_ok hrun₃
        ((hsettles.trans hsettles₃).imp fun h => h.1.1)) fun _ => hsettles.imp fun h => h.1)
        fun _ s₄ h₄ => (hnext f s₄).mono (hrest s₄ h₄) (hrest s₄ h₄)
    · rw [if_pos hall]
      refine Outcome.bind_of_ok hrun₃ (Outcome.of_ok (EStateM.run_pure _ _)
        ((hsettles.trans hsettles₃).imp fun ⟨⟨⟨hopens, htext⟩, _⟩, _⟩ => ?_))
      rw [hvalue, if_pos hopens, ← htext, if_pos hall]

theorem gives_readProperties (skipped ret : ℤ) (file : Reading) (rest : List Reading) :
    Gives device world (readProperties world skipped ret file rest)
      (device.readProperties skipped ret file rest) := by
  induction rest generalizing ret file with
  | nil =>
    refine readOne_settles device world file rfl fun f s => ?_
    obtain ⟨s', hrun, hsettles⟩ := @note_settles device world (.fclose f.number) s
    exact Outcome.bind_of_ok hrun (Outcome.of_ok (EStateM.run_pure _ _) (hsettles.imp fun _ => rfl))
  | cons other rest ih => exact readOne_settles device world file rfl fun f => ih (ret - 1) other

/-! ### When a routine returns 0 -/

variable {device}

theorem update_keep_eq_zero_iff {val : ℤ} {ok : Bool} :
    Policy.keep.update val ok = 0 ↔ val = 0 ∧ ok = true := by
  cases ok <;> simp [Policy.update, eof]

theorem update_overwrite_eq_zero_iff {val : ℤ} {ok : Bool} :
    Policy.overwrite.update val ok = 0 ↔ ok = true := by
  cases ok <;> simp [Policy.update, eof]

/-- The value is folded from all results when all files open. -/
theorem Device.accessFiles_eq_zero_iff {policy : Policy} {val : ℤ} {files : List FileUse} :
    device.accessFiles policy val files = 0 ↔
      (∀ file ∈ files, device.opens file.path file.mode = true) ∧
        (files.flatMap fun file => file.accesses.filterMap (device.answer file.path)).foldl
          policy.update val = 0 := by
  induction files generalizing val with
  | nil => simp [Device.accessFiles]
  | cons file rest ih =>
    rw [Device.accessFiles, List.forall_mem_cons, List.flatMap_cons, List.foldl_append]
    by_cases hopens : device.opens file.path file.mode = true
    · rw [if_pos hopens, ih, and_iff_right hopens]
    · rw [if_neg hopens]
      simp [hopens]

/-- The file opens, and all conversions are assigned. -/
def Device.Reads (device : Device) (path : String) (format : Format) : Prop :=
  device.opens path .r = true ∧ scan format 0 (device.text path) = format.conversions

/-- A routine that counts from the number of its files has to read them all. -/
theorem Device.readProperties_eq_zero_iff {skipped ret : ℤ} {file : Reading} {rest : List Reading}
    (hskipped : 0 ≤ skipped) (hret : ret = skipped + (rest.length + 1 : ℕ)) :
    device.readProperties skipped ret file rest = 0 ↔
      ∀ other ∈ file :: rest, device.Reads other.path other.format := by
  have hne : ret ≠ 0 := by omega
  rw [List.forall_mem_cons, Device.Reads]
  induction rest generalizing ret file with
  | nil =>
    rw [Device.readProperties]
    split_ifs with hopens hall
    · simp [hopens, hall, hne]
    · have hzero : ret - 1 - skipped = 0 := by
        rw [hret, List.length_nil]
        omega
      simpa [hopens, hzero] using hall
    · simp [hopens]
  | cons other rest ih =>
    rw [Device.readProperties]
    split_ifs with hopens hall
    · simp [hopens, hall, hne]
    · have hcount : ret - 1 = skipped + (rest.length + 1 : ℕ) := by
        rw [hret, List.length_cons]
        omega
      have hne' : ret - 1 ≠ 0 := by omega
      refine (ih hcount hne').trans ?_
      rw [List.forall_mem_cons, Device.Reads]
      simp [hopens, not_not.mp hall]
    · simp [hopens]

end SnowballLtp.Sensors
