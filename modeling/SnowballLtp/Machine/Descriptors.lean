import Mathlib.Data.List.Basic

/-!
# Open files of a process

The descriptors of a process are the numbers of the places of a list, at which there is an open file
or none. A file that is opened gets the lowest free number.

## Main definitions

* `install`, `IsOpen`.

## Main results

* `isOpen_install`, `IsOpen.install`: the new descriptor, and the others.
* `IsOpen.set_none`: what closing one leaves of the others.
-/

namespace SnowballLtp

variable {α : Type}

/-- The lowest free number, and the files when `x` has been opened there. -/
def install (x : α) : List (Option α) → ℕ × List (Option α)
  | [] => (0, [some x])
  | none :: files => (0, some x :: files)
  | some y :: files => ((install x files).1 + 1, some y :: (install x files).2)

/-- The descriptor is one of this file. -/
def IsOpen (files : List (Option α)) (d : ℕ) (x : α) : Prop := files[d]? = some (some x)

theorem isOpen_install (x : α) (files : List (Option α)) :
    IsOpen (install x files).2 (install x files).1 x := by
  induction files with
  | nil => rfl
  | cons file files ih =>
    cases file with
    | none => rfl
    | some y => exact ih

/-- The descriptors in use stay what they are. -/
theorem IsOpen.install {files : List (Option α)} {d : ℕ} {y : α} (h : IsOpen files d y) (x : α) :
    IsOpen (install x files).2 d y := by
  induction files generalizing d with
  | nil => cases h
  | cons file files ih =>
    cases d with
    | zero =>
      obtain rfl : file = some y := Option.some.inj h
      rfl
    | succ d =>
      cases file with
      | none => exact h
      | some z => exact ih h

/-- A descriptor stays what it is when another one is closed. -/
theorem IsOpen.set_none {files : List (Option α)} {d e : ℕ} {x : α} (h : IsOpen files d x)
    (hne : e ≠ d) : IsOpen (files.set e none) d x := by
  rw [IsOpen, List.getElem?_set_ne hne]
  exact h

theorem IsOpen.mem {files : List (Option α)} {d : ℕ} {x : α} (h : IsOpen files d x) :
    some x ∈ files :=
  List.mem_of_getElem? h

/-- A descriptor in use is not given out again. -/
theorem IsOpen.ne_install {files : List (Option α)} {d : ℕ} {y : α} (h : IsOpen files d y) (x : α) :
    (SnowballLtp.install x files).1 ≠ d := by
  induction files generalizing d with
  | nil => cases h
  | cons file files ih =>
    cases d with
    | zero =>
      obtain rfl : file = some y := Option.some.inj h
      simp [SnowballLtp.install]
    | succ d =>
      cases file with
      | none => simp [SnowballLtp.install]
      | some z =>
        have hne := ih (h : IsOpen files d y)
        simpa [SnowballLtp.install] using hne

end SnowballLtp
