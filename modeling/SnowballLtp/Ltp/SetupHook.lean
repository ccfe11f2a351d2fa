import Mathlib.Algebra.GroupWithZero.Nat
import Mathlib.Algebra.Order.BigOperators.Group.List
import Mathlib.Algebra.Order.Group.Nat
import Mathlib.Data.Int.Notation
import SnowballLtp.Machine.CInt
import SnowballLtp.Machine.Reachability

/-!
# The copies of a test program

`usc_global_setup_hook` forks `STD_COPIES - 1` copies of a program. With the option `-p` every copy
then waits for `SIGUSR1`: it puts `STD_go` in the place of the default action, calls `pause`, and
puts the default action back. A signal that is sent to all of them at once kills a copy that has not
come to its first call of `signal`, or has made its second one, and is lost on a copy between the
first call and `pause`.

## Main definitions

* `Copy`, `Label`, `hookMachine`: the copies and their steps.
* `sent`: the states in which the signals come.

## Main results

* `copies_of_run`: how many copies are made, by whom, and in how many steps.
* `all_returned_iff`: when all copies get through.
-/

namespace SnowballLtp

namespace SetupHook

/-! ### The copies and their steps -/

/-- The action of `SIGUSR1`. -/
inductive Action where
  /-- `SIG_DFL`, which ends the process. -/
  | dfl
  /-- `STD_go`, which does nothing. -/
  | stdGo
  deriving DecidableEq, Repr

/-- Where a process is in `usc_global_setup_hook`. -/
inductive Stage where
  /-- At the head of the loop. -/
  | loop (cnt : ℤ)
  /-- In front of the first call of `signal`. -/
  | signal
  /-- In front of `pause`. -/
  | beforePause
  | pausing
  /-- In front of the second call of `signal`. -/
  | restore
  | returned
  | killed
  deriving DecidableEq, Repr

/-- A process, with the place of its parent among the processes. -/
structure Copy where
  parent : Option ℕ
  stage : Stage
  action : Action
  tmpFunc : Action
  deriving DecidableEq, Repr

/-- The processes in the order in which they were made. -/
abbrev Group := List Copy

/-- The steps. -/
inductive Label where
  /-- The process at a place calls `fork`, which succeeds or fails. -/
  | fork (i : ℕ) (ok : Bool)
  /-- The process at a place goes on from where it does not call `fork`. -/
  | run (i : ℕ)
  /-- `SIGUSR1` is sent to all processes. -/
  | go
  deriving DecidableEq, Repr

section Steps

variable (copies : ℤ) (pause : Bool)

/-- A process goes on without `fork`. -/
def Copy.run (p : Copy) : Option Copy :=
  match p.stage with
  | .loop cnt =>
    if cnt < copies then none
    else some { p with stage := if pause then .signal else .returned }
  | .signal => some { p with stage := .beforePause, action := .stdGo, tmpFunc := p.action }
  | .beforePause => some { p with stage := .pausing }
  | .pausing => none
  | .restore => some { p with stage := .returned, action := p.tmpFunc }
  | .returned => none
  | .killed => none

/-- A process gets the signal. -/
def Copy.go (p : Copy) : Copy :=
  match p.stage, p.action with
  | .killed, _ => p
  | _, .dfl => { p with stage := .killed }
  | .pausing, .stdGo => { p with stage := .restore }
  | _, .stdGo => p

/-- The child of a process. The loop advances the `cnt` that is set to stop it. -/
def Copy.child (p : Copy) (i : ℕ) : Copy :=
  { p with parent := some i, stage := .loop (int32 (copies + 1)) }

/-- The processes after a call of `fork`. -/
def forkAt (s : Group) (i : ℕ) (p : Copy) (cnt : ℤ) (ok : Bool) : Group :=
  s.set i { p with stage := .loop (int32 (cnt + 1)) } ++ if ok then [p.child copies i] else []

def next (s : Group) : Label → Option Group
  | .fork i ok =>
    match s[i]? with
    | none => none
    | some p =>
      match p.stage with
      | .loop cnt => if cnt < copies then some (forkAt copies s i p cnt ok) else none
      | _ => none
  | .run i =>
    match s[i]? with
    | none => none
    | some p => (p.run copies pause).map (s.set i)
  | .go => some (s.map Copy.go)

/-- The process that calls the hook. -/
def caller : Copy := ⟨none, .loop 1, .dfl, .dfl⟩

def hookMachine : Machine Group Label where
  init s := s = [caller]
  next := next copies pause

/-- No process can go on by itself. -/
def Final (s : Group) : Prop := ∀ l, l ≠ .go → next copies pause s l = none

/-- The states in which the signals of a run come. -/
def sent : List Label → Group → List Group
  | [], _ => []
  | l :: ls, s => (if l = .go then [s] else []) ++ (next copies pause s l).elim [] (sent ls)

end Steps

/-- Whether the step is a call of `fork`. -/
def Label.isFork : Label → Bool
  | .fork _ _ => true
  | _ => false

/-- Whether the step is one of a process. -/
def Label.isStep : Label → Bool
  | .go => false
  | _ => true

/-- Whether the step makes a process. -/
def Label.forked : Label → Bool
  | .fork _ ok => ok
  | _ => false

/-- What a step does. -/
inductive Stepped (copies : ℤ) (pause : Bool) (s : Group) : Label → Group → Prop
  | fork {i p cnt} (ok : Bool) (hi : s[i]? = some p) (hstage : p.stage = .loop cnt)
      (hlt : cnt < copies) : Stepped copies pause s (.fork i ok) (forkAt copies s i p cnt ok)
  | run {i p p'} (hi : s[i]? = some p) (hrun : p.run copies pause = some p') :
      Stepped copies pause s (.run i) (s.set i p')
  | go : Stepped copies pause s .go (s.map Copy.go)

variable {copies : ℤ} {pause : Bool} {s s' : Group} {l : Label} {ls : List Label} {p p' : Copy}
  {i : ℕ}

theorem next_cases (h : next copies pause s l = some s') : Stepped copies pause s l s' := by
  cases l with
  | fork i ok =>
    rw [next] at h
    split at h
    · cases h
    · next p hi =>
      split at h
      · next cnt hstage =>
        obtain ⟨hlt, h⟩ := Option.ite_none_right_eq_some.mp h
        obtain rfl := Option.some.inj h
        exact .fork ok hi hstage hlt
      · cases h
  | run i =>
    rw [next] at h
    split at h
    · cases h
    · next p hi =>
      obtain ⟨p', hrun, rfl⟩ := Option.map_eq_some_iff.mp h
      exact .run hi hrun
  | go =>
    obtain rfl := Option.some.inj h
    exact .go

/-- How a process goes on. -/
theorem run_cases (h : p.run copies pause = some p') :
    (∃ cnt, p.stage = .loop cnt ∧ copies ≤ cnt ∧
      p' = { p with stage := if pause then .signal else .returned }) ∨
    (p.stage = .signal ∧
      p' = { p with stage := .beforePause, action := .stdGo, tmpFunc := p.action }) ∨
    (p.stage = .beforePause ∧ p' = { p with stage := .pausing }) ∨
    (p.stage = .restore ∧ p' = { p with stage := .returned, action := p.tmpFunc }) := by
  rw [Copy.run] at h
  split at h
  · next cnt hstage =>
    obtain ⟨hge, h⟩ := Option.ite_none_left_eq_some.mp h
    exact .inl ⟨cnt, hstage, not_lt.mp hge, (Option.some.inj h).symm⟩
  · next hstage => exact .inr (.inl ⟨hstage, (Option.some.inj h).symm⟩)
  · next hstage => exact .inr (.inr (.inl ⟨hstage, (Option.some.inj h).symm⟩))
  · cases h
  · next hstage => exact .inr (.inr (.inr ⟨hstage, (Option.some.inj h).symm⟩))
  · cases h
  · cases h

/-- Where a process may be that cannot go on by itself. -/
theorem Final.stage (h : Final copies pause s) (hp : p ∈ s) :
    p.stage = .pausing ∨ p.stage = .returned ∨ p.stage = .killed := by
  obtain ⟨i, hi⟩ := List.getElem?_of_mem hp
  have hrun := h (.run i) (by simp)
  have hfork := h (.fork i true) (by simp)
  simp only [next, hi, Copy.run] at hrun hfork
  cases hstage : p.stage with
  | loop cnt =>
    simp only [hstage] at hrun hfork
    by_cases hlt : cnt < copies
    · rw [if_pos hlt] at hfork
      cases hfork
    · rw [if_neg hlt] at hrun
      cases hrun
  | signal => simp [hstage] at hrun
  | beforePause => simp [hstage] at hrun
  | restore => simp [hstage] at hrun
  | pausing => exact .inl rfl
  | returned => exact .inr (.inl rfl)
  | killed => exact .inr (.inr rfl)

/-! ### How many copies are made -/

/-- How often a process still calls `fork`. -/
def Copy.left (copies : ℤ) (p : Copy) : ℕ :=
  match p.stage with
  | .loop cnt => (copies - cnt).toNat
  | _ => 0

/-- How many steps a process still takes behind the loop. -/
def Stage.ahead : Stage → ℕ
  | .loop _ => 5
  | .signal => 4
  | .beforePause => 3
  | .pausing => 2
  | .restore => 1
  | .returned => 0
  | .killed => 0

/-- A bound for the steps that a process and its children still take. -/
def Copy.weight (copies : ℤ) (p : Copy) : ℕ := 6 * p.left copies + p.stage.ahead

def rank (copies : ℤ) (s : Group) : ℕ := (s.map (Copy.weight copies)).sum

theorem left_of_loop {cnt : ℤ} (h : p.stage = .loop cnt) :
    p.left copies = (copies - cnt).toNat := by
  rw [Copy.left, h]

theorem left_eq_zero (h : ∀ cnt, p.stage ≠ .loop cnt) : p.left copies = 0 := by
  rw [Copy.left]
  split
  · next cnt hstage => exact absurd hstage (h cnt)
  · rfl

theorem left_child (i : ℕ) (hlow : -2147483648 ≤ copies) (hcopies : copies < 2147483647) :
    (p.child copies i).left copies = 0 := by
  have hcnt : int32 (copies + 1) = copies + 1 := int32_eq_self ⟨by omega, by omega⟩
  rw [left_of_loop rfl, hcnt]
  omega

theorem run_spec (h : p.run copies pause = some p') : p'.parent = p.parent ∧
    p.left copies = 0 ∧ (∀ cnt, p'.stage ≠ .loop cnt) ∧ p'.stage.ahead < p.stage.ahead := by
  obtain ⟨cnt, hstage, hge, rfl⟩ | ⟨hstage, rfl⟩ | ⟨hstage, rfl⟩ | ⟨hstage, rfl⟩ := run_cases h
  · refine ⟨rfl, ?_, ?_, ?_⟩
    · rw [left_of_loop hstage]
      omega
    · cases pause <;> simp
    · rw [hstage]
      cases pause <;> simp [Stage.ahead]
  all_goals simp [left_eq_zero, hstage, Stage.ahead]

theorem go_spec (p : Copy) : p.go.parent = p.parent ∧ (p.go = p ∨ p.go.stage = .killed ∨
    p.stage = .pausing ∧ p.go.stage = .restore) := by
  obtain ⟨parent, stage, action, tmpFunc⟩ := p
  cases stage <;> cases action <;> simp [Copy.go]

theorem weight_go (p : Copy) : p.go.weight copies ≤ p.weight copies := by
  obtain ⟨-, h | h | ⟨h, h'⟩⟩ := go_spec p
  · exact Nat.le_of_eq (by rw [h])
  · rw [Copy.weight, left_eq_zero (by simp [h]), h]
    exact Nat.zero_le _
  · rw [Copy.weight, Copy.weight, left_eq_zero (by simp [h']), left_eq_zero (by simp [h]), h, h']
    decide

/-- The processes after a fork. -/
theorem getElem?_forkAt_cases {cnt : ℤ} {ok : Bool} {j : ℕ} {q : Copy}
    (h : (forkAt copies s i p cnt ok)[j]? = some q) :
    j = i ∧ q = { p with stage := .loop (int32 (cnt + 1)) } ∨ j ≠ i ∧ s[j]? = some q ∨
      j = s.length ∧ q = p.child copies i := by
  rw [forkAt, List.getElem?_append] at h
  split_ifs at h with hj hok
  · exact (getElem?_set_cases h).imp_right .inl
  · rw [List.length_set] at hj h
    obtain ⟨hlen, hq⟩ := List.getElem?_eq_some_iff.mp h
    rw [List.length_singleton] at hlen
    refine .inr (.inr ⟨by omega, ?_⟩)
    rw [← hq, List.getElem_singleton]
  · cases h

/-- What is known of the processes behind a run. -/
structure Spread (copies : ℤ) (ls : List Label) (s : Group) : Prop where
  length : s.length = 1 + ls.countP Label.forked
  /-- The first process makes all calls of `fork`. -/
  root : ∀ p, s[0]? = some p → p.stage ≠ .killed →
    ls.countP Label.isFork + p.left copies = (copies - 1).toNat
  cnt : ∀ p ∈ s, ∀ cnt, p.stage = .loop cnt → 1 ≤ cnt
  child : ∀ i p, s[i + 1]? = some p → p.parent = some 0 ∧ p.left copies = 0
  steps : ls.countP Label.isStep + rank copies s ≤ 6 * (copies - 1).toNat + 5

/-- A process that calls `fork` is the first one. -/
theorem Spread.eq_zero (h : Spread copies ls s) {cnt : ℤ} (hi : s[i]? = some p)
    (hstage : p.stage = .loop cnt) (hlt : cnt < copies) : i = 0 := by
  cases i with
  | zero => rfl
  | succ i =>
    have hleft := (h.child i p hi).2
    rw [left_of_loop hstage] at hleft
    omega

theorem Spread.fork (h : Spread copies ls s) (hcopies : copies < 2147483647) {cnt : ℤ} (ok : Bool)
    (hi : s[i]? = some p) (hstage : p.stage = .loop cnt) (hlt : cnt < copies) :
    Spread copies (ls ++ [.fork i ok]) (forkAt copies s i p cnt ok) := by
  obtain rfl := h.eq_zero hi hstage hlt
  have hmem := List.mem_of_getElem? hi
  have hpos := h.cnt p hmem cnt hstage
  have hlen : 0 < s.length := List.length_pos_of_mem hmem
  have hnext : int32 (cnt + 1) = cnt + 1 := int32_eq_self ⟨by omega, by omega⟩
  have hchild : (p.child copies 0).left copies = 0 := left_child 0 (by omega) hcopies
  have hleft : (copies - (cnt + 1)).toNat + 1 = (copies - cnt).toNat := by omega
  refine ⟨?_, fun q hq hkilled => ?_, fun q hq cnt' hstage' => ?_, fun j q hq => ?_, ?_⟩
  · rw [forkAt, List.length_append, List.length_set, h.length, List.countP_append]
    cases ok with
    | false => simp [Label.forked]
    | true =>
      simp [Label.forked]
      omega
  · obtain ⟨-, rfl⟩ | ⟨hne, -⟩ | ⟨hzero, -⟩ := getElem?_forkAt_cases hq
    · have hroot := h.root p hi (by simp [hstage])
      rw [left_of_loop hstage] at hroot
      rw [left_of_loop rfl, hnext, List.countP_append, List.countP_singleton]
      simp only [Label.isFork, if_true]
      omega
    · exact absurd rfl hne
    · omega
  · obtain ⟨j, hj⟩ := List.getElem?_of_mem hq
    obtain ⟨-, rfl⟩ | ⟨-, hj⟩ | ⟨-, rfl⟩ := getElem?_forkAt_cases hj
    · obtain rfl := Stage.loop.inj hstage'
      omega
    · exact h.cnt q (List.mem_of_getElem? hj) cnt' hstage'
    · obtain rfl := Stage.loop.inj hstage'
      rw [int32_eq_self ⟨by omega, by omega⟩]
      omega
  · obtain ⟨hzero, -⟩ | ⟨-, hj⟩ | ⟨-, rfl⟩ := getElem?_forkAt_cases hq
    · omega
    · exact h.child j q hj
    · exact ⟨rfl, hchild⟩
  · have hset := sum_map_set (b := { p with stage := .loop (int32 (cnt + 1)) })
      (Copy.weight copies) hi
    have hsteps := h.steps
    have hwchild : (p.child copies 0).weight copies = 5 := by
      rw [Copy.weight, hchild]
      rfl
    have hwbefore : p.weight copies = 6 * (copies - cnt).toNat + 5 := by
      rw [Copy.weight, left_of_loop hstage, hstage]
      rfl
    have hwafter : Copy.weight copies { p with stage := .loop (int32 (cnt + 1)) } =
        6 * (copies - (cnt + 1)).toNat + 5 := by
      rw [Copy.weight, left_of_loop rfl, hnext]
      rfl
    rw [hwbefore, hwafter] at hset
    rw [rank] at hsteps
    rw [rank, forkAt, List.map_append, List.sum_append, List.countP_append, List.countP_singleton]
    have hmade : ((if ok then [p.child copies 0] else []).map (Copy.weight copies)).sum ≤ 5 := by
      cases ok <;> simp [hwchild]
    simp only [Label.isStep, if_true]
    omega

theorem Spread.run (h : Spread copies ls s) (hi : s[i]? = some p)
    (hrun : p.run copies pause = some p') : Spread copies (ls ++ [.run i]) (s.set i p') := by
  obtain ⟨hparent, hleft, hloop, hahead⟩ := run_spec hrun
  have hleft' : p'.left copies = 0 := left_eq_zero hloop
  have hkilled : p.stage ≠ .killed := fun hkilled => by simp [Copy.run, hkilled] at hrun
  refine ⟨?_, fun q hq hstage => ?_, fun q hq cnt hstage => ?_, fun j q hq => ?_, ?_⟩
  · rw [List.length_set, h.length, List.countP_append]
    rfl
  · rw [List.countP_append]
    obtain ⟨rfl, rfl⟩ | ⟨-, hq⟩ := getElem?_set_cases hq
    · have hroot := h.root p hi hkilled
      rwa [hleft, ← hleft'] at hroot
    · exact h.root q hq hstage
  · obtain ⟨j, hj⟩ := List.getElem?_of_mem hq
    obtain ⟨-, rfl⟩ | ⟨-, hj⟩ := getElem?_set_cases hj
    · exact absurd hstage (hloop cnt)
    · exact h.cnt q (List.mem_of_getElem? hj) cnt hstage
  · obtain ⟨rfl, rfl⟩ | ⟨-, hq⟩ := getElem?_set_cases hq
    · exact ⟨hparent.trans (h.child j p hi).1, hleft'⟩
    · exact h.child j q hq
  · have hset := sum_map_set (b := p') (Copy.weight copies) hi
    have hsteps := h.steps
    have hlt : p'.weight copies < p.weight copies := by
      rw [Copy.weight, Copy.weight, hleft, hleft']
      omega
    rw [rank] at hsteps ⊢
    rw [List.countP_append, List.countP_singleton]
    simp only [Label.isStep, if_true]
    omega

theorem left_go (hkilled : p.go.stage ≠ .killed) : p.go.left copies = p.left copies := by
  obtain ⟨-, h | h | ⟨h, h'⟩⟩ := go_spec p
  · rw [h]
  · exact absurd h hkilled
  · rw [left_eq_zero (by simp [h']), left_eq_zero (by simp [h])]

theorem Spread.go (h : Spread copies ls s) : Spread copies (ls ++ [.go]) (s.map Copy.go) := by
  refine ⟨?_, fun q hq hstage => ?_, fun q hq cnt hstage => ?_, fun j q hq => ?_, ?_⟩
  · rw [List.length_map, h.length, List.countP_append]
    rfl
  · rw [List.getElem?_map] at hq
    obtain ⟨p, hp, rfl⟩ := Option.map_eq_some_iff.mp hq
    have hkilled : p.stage ≠ .killed := fun hkilled =>
      hstage (by rw [Copy.go, hkilled]; exact hkilled)
    rw [List.countP_append, left_go hstage]
    exact h.root p hp hkilled
  · obtain ⟨p, hp, rfl⟩ := List.mem_map.mp hq
    obtain ⟨-, hgo | hgo | ⟨-, hgo⟩⟩ := go_spec p
    · exact h.cnt p hp cnt (hgo ▸ hstage)
    · rw [hgo] at hstage
      cases hstage
    · rw [hgo] at hstage
      cases hstage
  · rw [List.getElem?_map] at hq
    obtain ⟨p, hp, rfl⟩ := Option.map_eq_some_iff.mp hq
    obtain ⟨hparent, hleft⟩ := h.child j p hp
    refine ⟨(go_spec p).1.trans hparent, ?_⟩
    by_cases hkilled : p.go.stage = .killed
    · exact left_eq_zero (by simp [hkilled])
    · rw [left_go hkilled, hleft]
  · have hle : rank copies (s.map Copy.go) ≤ rank copies s := by
      rw [rank, rank, List.map_map]
      exact List.sum_le_sum fun p _ => weight_go p
    have hsteps := h.steps
    rw [List.countP_append, List.countP_singleton]
    simp only [Label.isStep, Bool.false_eq_true, if_false]
    omega

theorem Spread.next (h : Spread copies ls s) (hcopies : copies < 2147483647)
    (hnext : next copies pause s l = some s') : Spread copies (ls ++ [l]) s' := by
  cases next_cases hnext with
  | fork ok hi hstage hlt => exact h.fork hcopies ok hi hstage hlt
  | run hi hrun => exact h.run hi hrun
  | go => exact h.go

theorem spread_caller : Spread copies [] [caller] where
  length := rfl
  root p hp _ := by
    obtain rfl := Option.some.inj hp
    exact Nat.zero_add _
  cnt p hp cnt hstage := by
    obtain rfl := List.mem_singleton.mp hp
    obtain rfl := Stage.loop.inj hstage
    exact Int.le_refl 1
  child i p hp := by cases hp
  steps := by
    rw [rank, List.map_singleton, List.sum_singleton, List.countP_nil, Nat.zero_add]
    exact Nat.le_of_eq rfl

/-- Where a process is that no signal has come to. -/
def Stage.Quiet (pause : Bool) : Stage → Prop
  | .loop _ => True
  | .signal => pause = true
  | .beforePause => pause = true
  | .pausing => pause = true
  | .restore => False
  | .returned => pause = false
  | .killed => False

theorem quiet_run (hp : p.stage.Quiet pause) (hrun : p.run copies pause = some p') :
    p'.stage.Quiet pause := by
  obtain ⟨cnt, hstage, -, rfl⟩ | ⟨hstage, rfl⟩ | ⟨hstage, rfl⟩ | ⟨hstage, rfl⟩ := run_cases hrun
  · cases pause <;> simp [Stage.Quiet]
  · simpa [hstage, Stage.Quiet] using hp
  · simpa [hstage, Stage.Quiet] using hp
  · simp [hstage, Stage.Quiet] at hp

theorem quiet_next (hs : ∀ p ∈ s, p.stage.Quiet pause) (hl : l ≠ .go)
    (hnext : next copies pause s l = some s') : ∀ p ∈ s', p.stage.Quiet pause := by
  intro q hq
  obtain ⟨j, hj⟩ := List.getElem?_of_mem hq
  cases next_cases hnext with
  | fork ok hi hstage hlt =>
    obtain ⟨-, rfl⟩ | ⟨-, hj⟩ | ⟨-, rfl⟩ := getElem?_forkAt_cases hj
    · trivial
    · exact hs q (List.mem_of_getElem? hj)
    · trivial
  | run hi hrun =>
    obtain ⟨-, rfl⟩ | ⟨-, hj⟩ := getElem?_set_cases hj
    · exact quiet_run (hs _ (List.mem_of_getElem? hi)) hrun
    · exact hs q (List.mem_of_getElem? hj)
  | go => exact absurd rfl hl

/-- **The copies.** A run has no more steps than a bound tells, besides the signals, whatever fails.
All processes but the first are made by the first one, one by each call of `fork` that succeeds.
Without a signal it goes on until it has called `fork` for every copy but itself, and all processes
have returned or pause. -/
theorem copies_of_run (hcopies : copies < 2147483647)
    (hrun : (hookMachine copies pause).exec [caller] ls = some s) :
    ls.countP Label.isStep ≤ 6 * (copies - 1).toNat + 5 ∧
      s.length = 1 + ls.countP Label.forked ∧
      (∀ i p, s[i + 1]? = some p → p.parent = some 0) ∧
      (Final copies pause s → .go ∉ ls → ls.countP Label.isFork = (copies - 1).toNat ∧
        ∀ p ∈ s, p.stage = if pause then .pausing else .returned) := by
  obtain ⟨hspread, hquiet⟩ : Spread copies ls s ∧ (.go ∉ ls → ∀ p ∈ s, p.stage.Quiet pause) := by
    refine Machine.exec_invariant (I := fun before t => Spread copies before t ∧
      (.go ∉ before → ∀ p ∈ t, p.stage.Quiet pause)) hrun ⟨spread_caller, fun _ p hp => ?_⟩
      fun before t l t' ⟨ht, hquiet⟩ hl => ⟨ht.next hcopies hl, fun hgo => ?_⟩
    · obtain rfl := List.mem_singleton.mp hp
      trivial
    · rw [List.mem_append, List.mem_singleton, not_or] at hgo
      exact quiet_next (hquiet hgo.1) (Ne.symm hgo.2) hl
  refine ⟨by have := hspread.steps; omega, hspread.length, fun i p hp => (hspread.child i p hp).1,
    fun hfinal hgo => ?_⟩
  have hstage (p : Copy) (hp : p ∈ s) : p.stage = if pause then .pausing else .returned := by
    have hq := hquiet hgo p hp
    obtain h | h | h := hfinal.stage hp
    · rw [h] at hq ⊢
      exact (if_pos hq).symm
    · rw [h] at hq ⊢
      exact (if_neg (Bool.eq_false_iff.mp hq)).symm
    · rw [h] at hq
      exact hq.elim
  refine ⟨?_, hstage⟩
  have hlen : 0 < s.length := by
    rw [hspread.length]
    omega
  have hroot := hspread.root s[0] (List.getElem?_eq_getElem hlen)
  have hstage₀ := hstage s[0] (List.getElem_mem hlen)
  rw [left_eq_zero (by rw [hstage₀]; cases pause <;> simp)] at hroot
  exact hroot (by rw [hstage₀]; cases pause <;> simp)

/-- A caller with one copy. -/
theorem copies_of_run_two :
    ∃ s, (hookMachine 2 false).exec [caller] [.fork 0 true, .run 1, .run 0] = some s ∧
      s.length = 1 + 1 ∧ (∀ i p, s[i + 1]? = some p → p.parent = some 0) ∧
      (Final 2 false s → ∀ p ∈ s, p.stage = .returned) := by
  obtain ⟨-, hlen, hparent, hend⟩ := copies_of_run (show (2 : ℤ) < 2147483647 by decide)
    (rfl : (hookMachine 2 false).exec [caller] [.fork 0 true, .run 1, .run 0] = some _)
  exact ⟨_, rfl, hlen, hparent, fun hfinal => (hend hfinal (by decide)).2⟩

/-! ### The signals -/

/-- A process is at such a place. -/
def At (P : Stage → Prop) (s : Group) (i : ℕ) : Prop := ∃ p, s[i]? = some p ∧ P p.stage

/-- A process has come out of `pause`. -/
def Stage.Released (stage : Stage) : Prop := stage = .restore ∨ stage = .returned

/-- What does not change when a process goes on. -/
theorem at_next {P : Stage → Prop} {j : ℕ} (hloop : ∀ cnt, ¬P (.loop cnt))
    (hrun : ∀ p p' : Copy, p.run copies pause = some p' → (P p'.stage ↔ P p.stage)) (hl : l ≠ .go)
    (hnext : next copies pause s l = some s') : At P s' j ↔ At P s j := by
  cases next_cases hnext with
  | @fork i p cnt ok hi hstage hlt =>
    refine ⟨fun ⟨q, hq, hP⟩ => ?_, fun ⟨q, hq, hP⟩ => ⟨q, ?_, hP⟩⟩
    · obtain ⟨-, rfl⟩ | ⟨-, hq⟩ | ⟨-, rfl⟩ := getElem?_forkAt_cases hq
      · exact absurd hP (hloop _)
      · exact ⟨q, hq, hP⟩
      · exact absurd hP (hloop _)
    · have hne : i ≠ j := fun hij => by
        obtain rfl := Option.some.inj ((hij ▸ hi).symm.trans hq)
        exact hloop cnt (hstage ▸ hP)
      obtain ⟨hlen, -⟩ := List.getElem?_eq_some_iff.mp hq
      rw [forkAt, List.getElem?_append_left (by rwa [List.length_set]),
        List.getElem?_set_ne hne, hq]
  | @run i p p' hi hp =>
    refine ⟨fun ⟨q, hq, hP⟩ => ?_, fun ⟨q, hq, hP⟩ => ?_⟩
    · obtain ⟨rfl, rfl⟩ | ⟨-, hq⟩ := getElem?_set_cases hq
      · exact ⟨p, hi, (hrun p q hp).mp hP⟩
      · exact ⟨q, hq, hP⟩
    · by_cases hij : i = j
      · subst hij
        obtain rfl := Option.some.inj (hi.symm.trans hq)
        obtain ⟨hlen, -⟩ := List.getElem?_eq_some_iff.mp hq
        exact ⟨p', List.getElem?_set_self hlen, (hrun p p' hp).mpr hP⟩
      · exact ⟨q, by rw [List.getElem?_set_ne hij, hq], hP⟩
  | go => exact absurd rfl hl

theorem run_killed (h : p.run copies pause = some p') :
    p'.stage = .killed ↔ p.stage = .killed := by
  obtain ⟨cnt, hstage, -, rfl⟩ | ⟨hstage, rfl⟩ | ⟨hstage, rfl⟩ | ⟨hstage, rfl⟩ := run_cases h
  · cases pause <;> simp [hstage]
  all_goals simp [hstage]

theorem run_released (h : p.run copies true = some p') :
    p'.stage.Released ↔ p.stage.Released := by
  obtain ⟨cnt, hstage, -, rfl⟩ | ⟨hstage, rfl⟩ | ⟨hstage, rfl⟩ | ⟨hstage, rfl⟩ := run_cases h
  all_goals simp [hstage, Stage.Released]

theorem go_killed (p : Copy) : p.go.stage ≠ .killed ↔ p.stage ≠ .killed ∧ p.action = .stdGo := by
  obtain ⟨parent, stage, action, tmpFunc⟩ := p
  cases stage <;> cases action <;> simp [Copy.go]

theorem go_released (h : p.action = .stdGo) :
    p.go.stage.Released ↔ p.stage.Released ∨ p.stage = .pausing := by
  obtain ⟨parent, stage, action, tmpFunc⟩ := p
  obtain rfl := h
  cases stage <;> simp [Copy.go, Stage.Released]

/-- A signal kills nobody if it finds `STD_go` everywhere. -/
theorem alive_go : (∀ i, ¬At (· = .killed) (s.map Copy.go) i) ↔
    (∀ i, ¬At (· = .killed) s i) ∧ ∀ p ∈ s, p.action = .stdGo := by
  have hat (i : ℕ) (p : Copy) (hp : s[i]? = some p) :
      (s.map Copy.go)[i]? = some p.go := by rw [List.getElem?_map, hp, Option.map_some]
  refine ⟨fun h => ⟨fun i ⟨p, hp, hkilled⟩ => ?_, fun p hp => ?_⟩,
    fun ⟨h, hall⟩ i ⟨q, hq, hkilled⟩ => ?_⟩
  · exact ((go_killed p).mp fun hgo => h i ⟨p.go, hat i p hp, hgo⟩).1 hkilled
  · obtain ⟨i, hi⟩ := List.getElem?_of_mem hp
    exact ((go_killed p).mp fun hgo => h i ⟨p.go, hat i p hi, hgo⟩).2
  · rw [List.getElem?_map] at hq
    obtain ⟨p, hp, rfl⟩ := Option.map_eq_some_iff.mp hq
    exact (go_killed p).mpr ⟨fun hp' => h i ⟨p, hp, hp'⟩, hall p (List.mem_of_getElem? hp)⟩ hkilled

/-- It releases those that pause. -/
theorem released_go (hall : ∀ p ∈ s, p.action = .stdGo) (i : ℕ) :
    At Stage.Released (s.map Copy.go) i ↔ At Stage.Released s i ∨ At (· = .pausing) s i := by
  rw [At, List.getElem?_map]
  cases hi : s[i]? with
  | none => simp [At, hi]
  | some p => simp [At, hi, go_released (hall p (List.mem_of_getElem? hi))]

/-- The end of a run from any state. -/
theorem all_returned_iff_from (hrun : (hookMachine copies true).exec s ls = some s')
    (hfinal : Final copies true s') : (∀ p ∈ s', p.stage = .returned) ↔
      (∀ i, ¬At (· = .killed) s i) ∧ (∀ t ∈ sent copies true ls s, ∀ p ∈ t, p.action = .stdGo) ∧
        ∀ i < s'.length,
          At Stage.Released s i ∨ ∃ t ∈ sent copies true ls s, At (· = .pausing) t i := by
  induction ls generalizing s with
  | nil =>
    obtain rfl := Option.some.inj hrun
    simp only [sent, List.not_mem_nil, false_implies, implies_true, true_and, false_and,
      exists_false, or_false]
    refine ⟨fun h => ⟨fun i ⟨p, hp, hkilled⟩ => ?_, fun i hi => ?_⟩, fun ⟨halive, h⟩ p hp => ?_⟩
    · rw [h p (List.mem_of_getElem? hp)] at hkilled
      cases hkilled
    · exact ⟨s[i], List.getElem?_eq_getElem hi, .inr (h _ (List.getElem_mem hi))⟩
    · obtain ⟨i, hi⟩ := List.getElem?_of_mem hp
      obtain ⟨hlen, -⟩ := List.getElem?_eq_some_iff.mp hi
      obtain ⟨q, hq, hreleased⟩ := h i hlen
      obtain rfl := Option.some.inj (hi.symm.trans hq)
      obtain hstage | hstage | hstage := hfinal.stage hp
      · rw [hstage, Stage.Released] at hreleased
        simp at hreleased
      · exact hstage
      · exact absurd ⟨p, hi, hstage⟩ (halive i)
  | cons l ls ih =>
    obtain ⟨t, ht, hls⟩ := Option.bind_eq_some_iff.mp hrun
    rw [ih hls]
    have hnext : next copies true s l = some t := ht
    by_cases hl : l = .go
    · subst hl
      obtain rfl := Option.some.inj hnext
      rw [alive_go, sent, if_pos rfl, hnext]
      simp only [Option.elim_some, List.singleton_append, List.forall_mem_cons]
      rw [and_assoc, and_assoc]
      refine and_congr_right fun _ => and_congr_right fun hall => and_congr_right fun _ =>
        forall₂_congr fun i _ => ?_
      rw [released_go hall, or_assoc]
      simp
    · rw [sent, if_neg hl, hnext]
      have halive (i : ℕ) : At (· = .killed) t i ↔ At (· = .killed) s i :=
        at_next (by simp) (fun _ _ h => run_killed h) hl hnext
      have hreleased (i : ℕ) : At Stage.Released t i ↔ At Stage.Released s i :=
        at_next (by simp [Stage.Released]) (fun _ _ h => run_released h) hl hnext
      simp only [halive, hreleased, Option.elim_some, List.nil_append]

/-- **The pause.** At the end of a run all processes have returned, if and only if every `SIGUSR1`
has found all of them between their two calls of `signal`, and has found each of them in `pause`
once. -/
theorem all_returned_iff (hrun : (hookMachine copies true).exec [caller] ls = some s)
    (hfinal : Final copies true s) : (∀ p ∈ s, p.stage = .returned) ↔
      (∀ t ∈ sent copies true ls [caller], ∀ p ∈ t, p.action = .stdGo) ∧
        ∀ i < s.length, ∃ t ∈ sent copies true ls [caller], At (· = .pausing) t i := by
  have halive (i : ℕ) : ¬At (· = .killed) [caller] i := fun ⟨p, hp, hkilled⟩ => by
    obtain rfl := List.mem_singleton.mp (List.mem_of_getElem? hp)
    cases hkilled
  have hreleased (i : ℕ) : ¬At Stage.Released [caller] i := fun ⟨p, hp, hreleased⟩ => by
    obtain rfl := List.mem_singleton.mp (List.mem_of_getElem? hp)
    simp [Stage.Released, caller] at hreleased
  rw [all_returned_iff_from hrun hfinal, and_iff_right halive]
  simp only [hreleased, false_or]

/-- The signal comes to one process in `pause`, and to the other one in front of it. -/
def earlyGo : List Label :=
  [.fork 0 true, .run 0, .run 0, .run 0, .run 1, .run 1, .go, .run 0, .run 1]

theorem all_returned_iff_earlyGo :
    ∃ s, (hookMachine 2 true).exec [caller] earlyGo = some s ∧ ((∀ p ∈ s, p.stage = .returned) ↔
      (∀ t ∈ sent 2 true earlyGo [caller], ∀ p ∈ t, p.action = .stdGo) ∧
        ∀ i < s.length, ∃ t ∈ sent 2 true earlyGo [caller], At (· = .pausing) t i) := by
  refine ⟨_, rfl, all_returned_iff rfl fun l hl => ?_⟩
  match l with
  | .go => exact absurd rfl hl
  | .fork 0 _ => rfl
  | .fork 1 _ => rfl
  | .fork (_ + 2) _ => rfl
  | .run 0 => rfl
  | .run 1 => rfl
  | .run (_ + 2) => rfl

end SetupHook

end SnowballLtp
