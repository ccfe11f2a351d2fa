import Mathlib.Data.Nat.Find
import Mathlib.Algebra.Order.Ring.Int

/-!
# Loading the test module

`stedma40_test_init` creates a debugfs directory and in it one file for each test, all of them
under `tc_mutex`. A step that fails jumps to the label `out`, which releases the mutex and nothing
else: the directory and the files created so far stay behind, although the module is not loaded.
`stedma40_test_exit` removes them with `debugfs_remove_recursive`, but is called only when the
module was loaded.

## Main definitions

* `Dentry`, `DebugfsEntry`, `TestInit.Kernel`: the entries of debugfs.
* `TestInit.World`: the answers of the kernel.
* `stedma40TestInit`, `stedma40TestExit`.
* `TestInit.LeavesNothing`, `TestInit.FailsFirst`.

## Main results

* `createFiles_of_first`: what the loop does until a step fails.
* `stedma40TestInit_tcMutexHeld`: the mutex is released on every path.
* `leavesNothing_iff`.
* `stedma40TestExit_init`: the exit would remove what the load has created.
-/

namespace SnowballLtp.Dma.TestInit

/-- What `debugfs_create_dir` and `debugfs_create_file` return. -/
inductive Dentry where
  /-- A pointer to the new entry. -/
  | entry
  | null
  | errPtr (err : ℤ) (isErrValue : -4095 ≤ err ∧ err < 0)
  deriving DecidableEq

/-- An entry of debugfs that the module has created. -/
inductive DebugfsEntry where
  | dir (name : String)
  | file (name : String) (parent : Dentry) (iPrivate : ℕ)
  deriving DecidableEq

/-- What the module has in the kernel. -/
structure Kernel where
  /-- The entries that exist, the most recent first. -/
  debugfs : List DebugfsEntry
  /-- The variable `debugfs_dir`. -/
  debugfsDir : Dentry
  tcMutexHeld : Bool
  deriving DecidableEq

/-- The module before it is loaded. -/
def Kernel.initial : Kernel := ⟨[], .null, false⟩

/-- The answers of the kernel; those for the test `i` are at `i`. -/
structure World where
  mutexLockInterruptible : ℤ
  debugfsCreateDir : Dentry
  snprintf : ℕ → ℤ
  debugfsCreateFile : ℕ → Dentry

/-- `name`, after `snprintf(name, 32, "test_%d", i)`. -/
def testName (i : ℕ) : String := String.ofList (("test_" ++ toString i).toList.take 31)

/-- The loop of `stedma40_test_init` with the given number of tests to go, from test `i` on. -/
def createFiles (w : World) : (n i : ℕ) → Kernel → ℤ × Kernel
  | 0, _, s => (0, s)
  | n + 1, i, s =>
    let err := w.snprintf i
    if err < 0 then (err, s)
    else
      match w.debugfsCreateFile i with
      | .errPtr err _ => (err, s)
      | .null => createFiles w n (i + 1) s
      | .entry => createFiles w n (i + 1)
          { s with debugfs := .file (testName i) s.debugfsDir i :: s.debugfs }

/-- The label `out`. -/
def out (r : ℤ × Kernel) : ℤ × Kernel := (r.1, { r.2 with tcMutexHeld := false })

/-- `stedma40_test_init`. -/
def stedma40TestInit (w : World) (nbrTests : ℕ) (s : Kernel) : ℤ × Kernel :=
  let err := w.mutexLockInterruptible
  if err ≠ 0 then (err, s)
  else
    let s := { s with tcMutexHeld := true, debugfsDir := w.debugfsCreateDir }
    match w.debugfsCreateDir with
    | .errPtr err _ => out (err, s)
    | .null => out (createFiles w (nbrTests - 1) 1 s)
    | .entry => out (createFiles w (nbrTests - 1) 1
        { s with debugfs := .dir "ste_dma40_test" :: s.debugfs })

/-- `debugfs_remove_recursive` on the directory of the module. -/
def debugfsRemoveRecursive (dentry : Dentry) (s : Kernel) : Kernel :=
  match dentry with
  | .entry => { s with debugfs := s.debugfs.filter fun e =>
      match e with
      | .dir _ => false
      | .file _ parent _ => parent ≠ .entry }
  | _ => s

/-- `stedma40_test_exit`. -/
def stedma40TestExit (s : Kernel) : Kernel := debugfsRemoveRecursive s.debugfsDir s

/-- A load that reports an error leaves neither an entry nor the mutex. -/
def LeavesNothing (w : World) (nbrTests : ℕ) : Prop :=
  (stedma40TestInit w nbrTests .initial).1 ≠ 0 →
    (stedma40TestInit w nbrTests .initial).2.debugfs = [] ∧
      (stedma40TestInit w nbrTests .initial).2.tcMutexHeld = false

/-- The step for the test `i` fails. -/
def World.StepFails (w : World) (i : ℕ) : Prop :=
  w.snprintf i < 0 ∨ ∃ err h, w.debugfsCreateFile i = .errPtr err h

/-- The first step that fails is the one for the test `k`. -/
def World.FirstFails (w : World) (nbrTests k : ℕ) : Prop :=
  1 ≤ k ∧ k < nbrTests ∧ w.StepFails k ∧ ∀ j, 1 ≤ j → j < k → ¬ w.StepFails j

/-- When the loop is entered and a step of it fails, nothing has been created before. -/
def FailsFirst (w : World) (nbrTests : ℕ) : Prop :=
  w.mutexLockInterruptible = 0 → (¬ ∃ err h, w.debugfsCreateDir = .errPtr err h) →
    ∀ k, w.FirstFails nbrTests k →
      w.debugfsCreateDir = .null ∧ ∀ j, 1 ≤ j → j < k → w.debugfsCreateFile j = .null

/-! ### The loop -/

section

variable {w : World} {n i k : ℕ} {s : Kernel}

/-- A step that fails ends the loop with its error. -/
theorem createFiles_of_fails (h : w.StepFails i) :
    (createFiles w (n + 1) i s).1 ≠ 0 ∧ (createFiles w (n + 1) i s).2 = s := by
  rw [createFiles]
  by_cases hname : w.snprintf i < 0
  · simp only [if_pos hname]
    exact ⟨hname.ne, trivial⟩
  · obtain ⟨err, herr, hfile⟩ := h.resolve_left hname
    simp only [if_neg hname, hfile]
    exact ⟨herr.2.ne, trivial⟩

/-- The file of the test `i`, if the kernel creates it. -/
def World.newFile (w : World) (parent : Dentry) (i : ℕ) : List DebugfsEntry :=
  if w.debugfsCreateFile i = .entry then [.file (testName i) parent i] else []

/-- A step that does not fail. -/
theorem createFiles_of_not_fails (h : ¬ w.StepFails i) :
    createFiles w (n + 1) i s = createFiles w n (i + 1)
      { s with debugfs := w.newFile s.debugfsDir i ++ s.debugfs } := by
  obtain ⟨hname, hfile⟩ := not_or.mp h
  rw [createFiles, World.newFile]
  cases hanswer : w.debugfsCreateFile i with
  | errPtr err herr => exact absurd ⟨err, herr, hanswer⟩ hfile
  | null => simp [hname]
  | entry => simp [hname]

theorem newFile_eq_nil_iff (h : ¬ w.StepFails i) (parent : Dentry) :
    w.newFile parent i = [] ↔ w.debugfsCreateFile i = .null := by
  rw [World.newFile]
  cases hanswer : w.debugfsCreateFile i with
  | errPtr err herr => exact absurd (.inr ⟨err, herr, hanswer⟩) h
  | null => simp
  | entry => simp

theorem createFiles_fst_eq_zero (h : ∀ j, i ≤ j → j < i + n → ¬ w.StepFails j) :
    (createFiles w n i s).1 = 0 := by
  induction n generalizing i s with
  | zero => rfl
  | succ n ih =>
    rw [createFiles_of_not_fails (h i le_rfl (by omega))]
    exact ih fun j hj hlt => h j (by omega) (by omega)

/-- **The loop** up to the first step that fails. -/
theorem createFiles_of_first (hik : i ≤ k) (hk : k < i + n) (hfails : w.StepFails k)
    (hbefore : ∀ j, i ≤ j → j < k → ¬ w.StepFails j) :
    (createFiles w n i s).1 ≠ 0 ∧
      ((createFiles w n i s).2.debugfs = [] ↔
        s.debugfs = [] ∧ ∀ j, i ≤ j → j < k → w.debugfsCreateFile j = .null) := by
  induction n generalizing i s with
  | zero => omega
  | succ n ih =>
    rcases Nat.lt_or_eq_of_le hik with hlt | rfl
    · have hnot := hbefore i le_rfl hlt
      obtain ⟨hret, hnil⟩ := ih (i := i + 1)
        (s := { s with debugfs := w.newFile s.debugfsDir i ++ s.debugfs }) hlt (by omega)
        fun j hj => hbefore j (by omega)
      rw [createFiles_of_not_fails hnot]
      refine ⟨hret, hnil.trans ?_⟩
      rw [List.append_eq_nil_iff, newFile_eq_nil_iff hnot]
      constructor
      · rintro ⟨⟨hfile, hs⟩, hrest⟩
        refine ⟨hs, fun j hj hjk => ?_⟩
        rcases Nat.lt_or_eq_of_le hj with hj | rfl
        · exact hrest j hj hjk
        · exact hfile
      · rintro ⟨hs, hall⟩
        exact ⟨⟨hall i le_rfl hlt, hs⟩, fun j hj => hall j (by omega)⟩
    · obtain ⟨hret, hs⟩ := createFiles_of_fails (n := n) (s := s) hfails
      rw [hs]
      exact ⟨hret, fun h => ⟨h, fun j hj hlt => absurd hj (by omega)⟩, fun h => h.1⟩

theorem createFiles_debugfsDir : (createFiles w n i s).2.debugfsDir = s.debugfsDir := by
  induction n generalizing i s with
  | zero => rfl
  | succ n ih =>
    by_cases hfails : w.StepFails i
    · rw [(createFiles_of_fails hfails).2]
    · rw [createFiles_of_not_fails hfails, ih]

/-- The files are created in the directory that the variable `debugfs_dir` points at. -/
theorem createFiles_mem {e : DebugfsEntry} (h : e ∈ (createFiles w n i s).2.debugfs) :
    e ∈ s.debugfs ∨ ∃ name iPrivate, e = .file name s.debugfsDir iPrivate := by
  induction n generalizing i s with
  | zero => exact .inl h
  | succ n ih =>
    by_cases hfails : w.StepFails i
    · rw [(createFiles_of_fails hfails).2] at h
      exact .inl h
    · rw [createFiles_of_not_fails hfails] at h
      rcases ih h with h | h
      · rcases List.mem_append.mp h with h | h
        · rw [World.newFile, List.mem_ite_nil_right, List.mem_singleton] at h
          exact .inr ⟨_, _, h.2⟩
        · exact .inl h
      · exact .inr h

end

/-! ### The module -/

section

variable {w : World} {nbrTests : ℕ}

/-- The kernel when the loop begins. -/
def World.atLoop (w : World) (s : Kernel) : Kernel where
  debugfs := if w.debugfsCreateDir = .entry then .dir "ste_dma40_test" :: s.debugfs else s.debugfs
  debugfsDir := w.debugfsCreateDir
  tcMutexHeld := true

theorem stedma40TestInit_eq (hlock : w.mutexLockInterruptible = 0)
    (hdir : ¬ ∃ err h, w.debugfsCreateDir = .errPtr err h) (s : Kernel) :
    stedma40TestInit w nbrTests s = out (createFiles w (nbrTests - 1) 1 (w.atLoop s)) := by
  simp only [stedma40TestInit, hlock, World.atLoop, ne_eq, not_true_eq_false, ↓reduceIte]
  cases hanswer : w.debugfsCreateDir with
  | errPtr err herr => exact absurd ⟨err, herr, hanswer⟩ hdir
  | null => simp
  | entry => simp

/-- **The mutex** is released on every path. -/
theorem stedma40TestInit_tcMutexHeld (w : World) (nbrTests : ℕ) :
    (stedma40TestInit w nbrTests .initial).2.tcMutexHeld = false := by
  simp only [stedma40TestInit]
  split
  · rfl
  · cases w.debugfsCreateDir <;> rfl

theorem exists_firstFails {j : ℕ} (hj : 1 ≤ j) (hlt : j < nbrTests) (h : w.StepFails j) :
    ∃ k, w.FirstFails nbrTests k := by
  classical
  have hex : ∃ k, 1 ≤ k ∧ w.StepFails k := ⟨j, hj, h⟩
  obtain ⟨hone, hfails⟩ := Nat.find_spec hex
  exact ⟨Nat.find hex, hone, (Nat.find_min' hex ⟨hj, h⟩).trans_lt hlt, hfails,
    fun i hi hik hfail => Nat.find_min hex hik ⟨hi, hfail⟩⟩

/-- A load whose first step to fail is the one for the test `k`. -/
theorem stedma40TestInit_of_firstFails {k : ℕ} (hlock : w.mutexLockInterruptible = 0)
    (hdir : ¬ ∃ err h, w.debugfsCreateDir = .errPtr err h) (hk : w.FirstFails nbrTests k) :
    (stedma40TestInit w nbrTests .initial).1 ≠ 0 ∧
      ((stedma40TestInit w nbrTests .initial).2.debugfs = [] ↔
        w.debugfsCreateDir = .null ∧ ∀ j, 1 ≤ j → j < k → w.debugfsCreateFile j = .null) := by
  obtain ⟨hone, hlt, hfails, hbefore⟩ := hk
  obtain ⟨hret, hnil⟩ := createFiles_of_first (n := nbrTests - 1) (s := w.atLoop .initial) hone
    (by omega) hfails hbefore
  have hloop : (w.atLoop .initial).debugfs = [] ↔ w.debugfsCreateDir = .null := by
    cases hanswer : w.debugfsCreateDir with
    | errPtr err herr => exact absurd ⟨err, herr, hanswer⟩ hdir
    | null => simp [World.atLoop, Kernel.initial, hanswer]
    | entry => simp [World.atLoop, hanswer]
  rw [stedma40TestInit_eq hlock hdir]
  exact ⟨hret, hnil.trans (and_congr_left' hloop)⟩

/-- **What a failed load leaves.** Nothing stays behind if and only if nothing has been created in
front of the first step that fails. -/
theorem leavesNothing_iff (w : World) (nbrTests : ℕ) :
    LeavesNothing w nbrTests ↔ FailsFirst w nbrTests := by
  constructor
  · intro h hlock hdir k hk
    obtain ⟨hret, hnil⟩ := stedma40TestInit_of_firstFails hlock hdir hk
    exact hnil.mp (h hret).1
  · intro h hret
    refine ⟨?_, stedma40TestInit_tcMutexHeld w nbrTests⟩
    by_cases hlock : w.mutexLockInterruptible = 0
    case neg => simp [stedma40TestInit, hlock, Kernel.initial]
    by_cases hdir : ∃ err h, w.debugfsCreateDir = .errPtr err h
    · obtain ⟨err, herr, hdir⟩ := hdir
      simp [stedma40TestInit, hlock, hdir, out, Kernel.initial]
    by_cases hfails : ∃ j, 1 ≤ j ∧ j < nbrTests ∧ w.StepFails j
    · obtain ⟨j, hj, hlt, hfail⟩ := hfails
      obtain ⟨k, hk⟩ := exists_firstFails hj hlt hfail
      exact (stedma40TestInit_of_firstFails hlock hdir hk).2.mpr (h hlock hdir k hk)
    · rw [stedma40TestInit_eq hlock hdir] at hret
      refine absurd (createFiles_fst_eq_zero fun j hj hlt hfail => ?_) hret
      exact hfails ⟨j, hj, by omega, hfail⟩

/-- The directory is created, and the file of the first test is refused. -/
def firstRefused : World where
  mutexLockInterruptible := 0
  debugfsCreateDir := .entry
  snprintf := fun _ => 6
  debugfsCreateFile := fun _ => .errPtr (-12) (by decide)

/-- Its directory stays behind. -/
theorem firstRefused_not_leavesNothing : ¬ LeavesNothing firstRefused 70 := by
  intro h
  exact absurd (h (by decide)).1 (by decide)

/-- **The exit of the module** would remove what the load has created, if debugfs has given it a
directory. -/
theorem stedma40TestExit_init (hdir : w.debugfsCreateDir = .entry) :
    (stedma40TestExit (stedma40TestInit w nbrTests .initial).2).debugfs = [] := by
  by_cases hlock : w.mutexLockInterruptible = 0
  case neg => simp [stedma40TestInit, hlock, stedma40TestExit, debugfsRemoveRecursive,
    Kernel.initial]
  have hparent : (out (createFiles w (nbrTests - 1) 1 (w.atLoop .initial))).2.debugfsDir =
      .entry := createFiles_debugfsDir.trans hdir
  rw [stedma40TestInit_eq hlock (by simp [hdir]), stedma40TestExit, hparent]
  refine List.filter_eq_nil_iff.mpr fun e he => ?_
  rcases createFiles_mem he with h | ⟨name, iPrivate, rfl⟩
  · simp only [World.atLoop, hdir, ↓reduceIte, Kernel.initial, List.mem_singleton] at h
    simp [h]
  · simp [World.atLoop, hdir]

end

end SnowballLtp.Dma.TestInit
