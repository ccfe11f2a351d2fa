import Mathlib.Algebra.GroupWithZero.Nat
import Mathlib.Data.Int.Order.Basic
import SnowballLtp.Ltp.Forker
import SnowballLtp.Machine.Reachability

/-!
# The processes that a call of `forker` makes

A `fork` makes a second process at the same place in the loop, with a copy of the memory. The
processes go on in any order, each by itself, and leave the loop at different passes. In mode 1 the
caller is to return 1 and the newest process the number of all forks. The caller leaves the loop in
its first pass with `cnt-1`, which is 0; a process whose own fork fails returns 0, also when it is
the newest of several.

## Main definitions

* `Tree`, `Label`, `forkerMachine`: the processes and their steps.
* `CountsRight`, `Finishes`.

## Main results

* `next_cases`: what a step does.
* `Grown.next`: the shape of the tree, which is a star in mode 0 and a chain in mode 1.
* `finishes`: the processes return, after a number of steps that has a bound.
* `countsRight_iff`: when the numbers are returned that should be.
* `modeOne_not_countsRight`.
-/

namespace SnowballLtp

namespace Forker

/-! ### The processes and their steps -/

/-- A process that was made by `parent`, which is known by its place in the tree, unless it has
faulted. -/
structure Node where
  proc : Except Fault Proc
  parent : Option ℕ

/-- The processes in the order in which they were made. The caller is the first. -/
abbrev Tree := List Node

/-- The steps. -/
inductive Label where
  /-- The process at a place calls `fork`, which has this outcome. -/
  | fork (i : ℕ) (outcome : Except ℤ Pid)
  /-- The process at a place goes on from where it does not call `fork`. -/
  | run (i : ℕ)

section Steps

variable (t : Texts) (mode ncopies : ℤ)

/-- A process goes on without `fork`. -/
def Proc.run (p : Proc) : Option (Except Fault Proc) :=
  match p.phase with
  | .loop cnt => if cnt < ncopies then none else some (p.leave cnt)
  | .forked cnt pid => some (p.afterFork mode cnt pid)
  | .returned _ => none

/-- The child that a process has at first: its copy, but for the number, and what `fork` gives. -/
def Proc.child (p : Proc) (cnt pid : ℤ) : Proc :=
  { self := pid, globals := p.globals, phase := .forked cnt 0 }

/-- The tree after a call of `fork` by the process `p` at the place `i`. -/
def forkAt (s : Tree) (i : ℕ) (node : Node) (p : Proc) (cnt : ℤ) : Except ℤ Pid → Tree
  | .error errno => s.set i { node with proc := .ok (p.failed t mode cnt errno) }
  | .ok pid =>
    s.set i { node with proc := .ok { p with phase := .forked cnt pid } } ++
      [{ proc := .ok (p.child cnt pid), parent := some i }]

/-- The tree after a step. -/
def next (s : Tree) : Label → Option Tree
  | .fork i outcome =>
    match s[i]? with
    | some { proc := .ok p, parent } =>
      match p.phase with
      | .loop cnt =>
        if cnt < ncopies then some (forkAt t mode s i { proc := .ok p, parent } p cnt outcome)
        else none
      | _ => none
    | _ => none
  | .run i =>
    match s[i]? with
    | some { proc := .ok p, parent } =>
      (p.run mode ncopies).map fun proc => s.set i { proc, parent }
    | _ => none

/-- The runs of the processes that a call by `p` makes. -/
def forkerMachine (p : Proc) : Machine Tree Label where
  init s := s = [{ proc := p.enter, parent := none }]
  next := next t mode ncopies

end Steps

/-! ### What is to be returned -/

/-- The process at a place has returned this number. -/
def ReturnedAt (s : Tree) (i : ℕ) (v : ℤ) : Prop :=
  ∃ node p, s[i]? = some node ∧ node.proc = .ok p ∧ p.phase = .returned v

/-- All processes have returned. -/
def Finished (s : Tree) : Prop := ∀ i < s.length, ∃ v, ReturnedAt s i v

/-- A fork by any process, or by the caller, that succeeded. -/
def Label.forked : Label → Bool
  | .fork _ (.ok _) => true
  | _ => false

def Label.callerForked : Label → Bool
  | .fork 0 (.ok _) => true
  | _ => false

/-- After the steps `ls` there are the caller and a process for each fork that succeeded. The caller
has returned the number of its forks in mode 0, and in mode 1 whether its fork succeeded; in mode 1
the newest process has returned the number of all forks. -/
structure CountsRight (mode : ℤ) (ls : List Label) (s : Tree) : Prop where
  length : s.length = ls.countP Label.forked + 1
  caller_zero : mode = 0 → ReturnedAt s 0 (ls.countP Label.callerForked)
  caller_one : mode = 1 → ReturnedAt s 0 (if ls.any Label.callerForked then 1 else 0)
  newest : mode = 1 → ReturnedAt s (s.length - 1) (ls.countP Label.forked)

/-- There is room for the processes in the table, and for their number in an `int`. -/
structure Room (ncopies : ℤ) (p : Proc) : Prop where
  length : p.globals.pids.length = forkerMaxPids
  nonneg : 0 ≤ p.globals.npids
  le : p.globals.npids + ncopies ≤ 2147483648

/-! ### What a step does -/

/-- The steps, with what is known where they are taken. -/
inductive Stepped (t : Texts) (mode ncopies : ℤ) (s : Tree) : Label → Tree → Prop
  | failed {i : ℕ} {node : Node} {p : Proc} {cnt : ℤ} (errno : ℤ) (hi : s[i]? = some node)
      (hp : node.proc = .ok p) (hphase : p.phase = .loop cnt) (hlt : cnt < ncopies) :
      Stepped t mode ncopies s (.fork i (.error errno))
        (s.set i { node with proc := .ok (p.failed t mode cnt errno) })
  | forked {i : ℕ} {node : Node} {p : Proc} {cnt : ℤ} (pid : Pid) (hi : s[i]? = some node)
      (hp : node.proc = .ok p) (hphase : p.phase = .loop cnt) (hlt : cnt < ncopies) :
      Stepped t mode ncopies s (.fork i (.ok pid))
        (s.set i { node with proc := .ok { p with phase := .forked cnt pid } } ++
          [{ proc := .ok (p.child cnt pid), parent := some i }])
  | left {i : ℕ} {node : Node} {p : Proc} {cnt : ℤ} (hi : s[i]? = some node)
      (hp : node.proc = .ok p) (hphase : p.phase = .loop cnt) (hge : ncopies ≤ cnt) :
      Stepped t mode ncopies s (.run i) (s.set i { node with proc := p.leave cnt })
  | wentOn {i : ℕ} {node : Node} {p : Proc} {cnt pid : ℤ} (hi : s[i]? = some node)
      (hp : node.proc = .ok p) (hphase : p.phase = .forked cnt pid) :
      Stepped t mode ncopies s (.run i) (s.set i { node with proc := p.afterFork mode cnt pid })

section Stepped

variable {t : Texts} {mode ncopies : ℤ} {s s' : Tree} {l : Label}

/-- **A step** is one of these. -/
theorem next_cases (h : next t mode ncopies s l = some s') : Stepped t mode ncopies s l s' := by
  cases l with
  | fork i outcome =>
    rw [next] at h
    split at h
    case h_2 => cases h
    case h_1 p parent hi =>
      split at h
      case h_2 => cases h
      case h_1 cnt hphase =>
        obtain ⟨hlt, h⟩ := Option.ite_none_right_eq_some.mp h
        obtain rfl := Option.some.inj h
        cases outcome with
        | error errno => exact .failed errno hi rfl hphase hlt
        | ok pid => exact .forked pid hi rfl hphase hlt
  | run i =>
    rw [next] at h
    split at h
    case h_2 => cases h
    case h_1 p parent hi =>
      obtain ⟨proc, hproc, rfl⟩ := Option.map_eq_some_iff.mp h
      rw [Proc.run] at hproc
      split at hproc
      case h_1 cnt hphase =>
        obtain ⟨hge, hproc⟩ := Option.ite_none_left_eq_some.mp hproc
        obtain rfl := Option.some.inj hproc
        exact .left hi rfl hphase (Int.not_lt.mp hge)
      case h_2 cnt pid hphase =>
        obtain rfl := Option.some.inj hproc
        exact .wentOn hi rfl hphase
      case h_3 => cases hproc

end Stepped

/-! ### The shape of the tree -/

/-- Where the processes can be in mode 0, among `len` processes. -/
def StarPhase (i len : ℕ) : Phase → Prop
  | .loop cnt => i = 0 ∧ cnt = len
  | .forked cnt pid => i = 0 ∧ pid ≠ 0 ∧ cnt + 1 = len ∨ 0 < i ∧ pid = 0
  | .returned v => i = 0 → v + 1 = len

/-- Where the processes can be in mode 1. -/
def ChainPhase (i len : ℕ) : Phase → Prop
  | .loop cnt => cnt = i + 1 ∧ i + 1 = len
  | .forked cnt pid =>
    pid = 0 ∧ cnt = i ∧ i + 1 = len ∨ pid ≠ 0 ∧ cnt = i + 1 ∧ i + 1 < len
  | .returned v => v = i ∨ i + 1 = len ∧ v = 0

def PlaceAt (mode : ℤ) (i len : ℕ) (phase : Phase) : Prop :=
  if mode = 1 then ChainPhase i len phase else StarPhase i len phase

/-- The number of processes that a process counts, from the `n` that there were before the call. -/
def CountedAt (n ncopies npids : ℤ) : Phase → Prop
  | .loop cnt => 1 ≤ cnt ∧ npids = n + cnt - 1
  | .forked cnt _ => 1 ≤ cnt ∧ cnt < ncopies ∧ npids = n + cnt - 1
  | .returned _ => True

/-- The process at the place `i` of `len`. -/
structure ProcAt (mode n ncopies : ℤ) (i len : ℕ) (p : Proc) : Prop where
  pids : p.globals.pids.length = forkerMaxPids
  counted : CountedAt n ncopies p.globals.npids p.phase
  place : PlaceAt mode i len p.phase

/-- The parent of the process at a place. -/
def parentAt (mode : ℤ) : ℕ → Option ℕ
  | 0 => none
  | i + 1 => some (if mode = 1 then i else 0)

/-- The tree after the steps `ls`. -/
structure Grown (mode n ncopies : ℤ) (ls : List Label) (s : Tree) : Prop where
  length : s.length = ls.countP Label.forked + 1
  caller : ls.countP Label.callerForked = if mode = 1 then min 1 (s.length - 1) else s.length - 1
  node : ∀ i node, s[i]? = some node → node.parent = parentAt mode i ∧
    ∃ p, node.proc = .ok p ∧ ProcAt mode n ncopies i s.length p

section Place

variable {t : Texts} {mode n ncopies cnt pid : ℤ} {i j len : ℕ} {p : Proc}

/-- A new process changes nothing for the others but the one that forked. -/
theorem PlaceAt.grow {phase : Phase} (h : PlaceAt mode j len phase)
    (hfork : PlaceAt mode i len (.loop cnt)) (hne : j ≠ i) :
    PlaceAt mode j (len + 1) phase := by
  rw [PlaceAt] at h hfork ⊢
  split_ifs at h hfork ⊢
  · obtain ⟨-, hlast⟩ := hfork
    cases phase with
    | loop c =>
      have hlast' := h.2
      omega
    | forked c q =>
      obtain ⟨-, -, hlast'⟩ | ⟨hq, hc, hlt⟩ := h
      · omega
      · exact .inr ⟨hq, hc, by omega⟩
    | returned v =>
      obtain hv | ⟨hlast', -⟩ := h
      · exact .inl hv
      · omega
  · obtain ⟨rfl, -⟩ := hfork
    cases phase with
    | loop c => exact absurd h.1 hne
    | forked c q =>
      obtain ⟨hzero, -⟩ | hchild := h
      · exact absurd hzero hne
      · exact .inr hchild
    | returned v => exact fun hzero => absurd hzero hne

/-- A `fork` that fails. -/
theorem ProcAt.failed (h : ProcAt mode n ncopies i len p) (hphase : p.phase = .loop cnt)
    (errno : ℤ) : ProcAt mode n ncopies i len (p.failed t mode cnt errno) where
  pids := h.pids
  counted := trivial
  place := by
    have hplace := h.place
    rw [hphase, PlaceAt] at hplace
    rw [PlaceAt, Proc.failed]
    split_ifs at hplace ⊢
    · exact .inr ⟨hplace.2, rfl⟩
    · intro hzero
      have hcnt := hplace.2
      omega

/-- The parent behind a `fork`. -/
theorem ProcAt.forked (h : ProcAt mode n ncopies i len p) (hphase : p.phase = .loop cnt)
    (hlt : cnt < ncopies) (hpid : pid ≠ 0) :
    ProcAt mode n ncopies i (len + 1) { p with phase := .forked cnt pid } where
  pids := h.pids
  counted := by
    have hcounted := h.counted
    rw [hphase] at hcounted
    exact ⟨hcounted.1, hlt, hcounted.2⟩
  place := by
    have hplace := h.place
    rw [hphase, PlaceAt] at hplace
    rw [PlaceAt]
    split_ifs at hplace ⊢
    · exact .inr ⟨hpid, hplace.1, by have := hplace.2; omega⟩
    · exact .inl ⟨hplace.1, hpid, by rw [hplace.2]; rfl⟩

/-- The child behind a `fork`. -/
theorem ProcAt.child (h : ProcAt mode n ncopies i len p) (hphase : p.phase = .loop cnt)
    (hlt : cnt < ncopies) : ProcAt mode n ncopies len (len + 1) (p.child cnt pid) where
  pids := h.pids
  counted := by
    have hcounted := h.counted
    rw [hphase] at hcounted
    exact ⟨hcounted.1, hlt, hcounted.2⟩
  place := by
    have hplace := h.place
    rw [hphase, PlaceAt] at hplace
    rw [PlaceAt, Proc.child]
    split_ifs at hplace ⊢
    · obtain ⟨hcnt, hlast⟩ := hplace
      exact .inl ⟨rfl, by omega, rfl⟩
    · obtain ⟨rfl, hcnt⟩ := hplace
      have hcounted := h.counted
      rw [hphase] at hcounted
      have hpos := hcounted.1
      exact .inr ⟨by omega, rfl⟩

/-- A process that leaves its loop at the end of it. -/
theorem ProcAt.leave (h : ProcAt mode n ncopies i len p) (hphase : p.phase = .loop cnt)
    (hn : 0 ≤ n) : ∃ p', p.leave cnt = .ok p' ∧ ProcAt mode n ncopies i len p' := by
  have hpids := h.pids
  have hcounted := h.counted
  rw [hphase] at hcounted
  obtain ⟨hpos, hnpids⟩ := hcounted
  have hplace : PlaceAt mode i len (.returned (cnt - 1)) := by
    have hplace := h.place
    rw [hphase, PlaceAt] at hplace
    rw [PlaceAt]
    split_ifs at hplace ⊢
    · obtain ⟨hcnt, -⟩ := hplace
      exact .inl (by omega)
    · intro hzero
      have hcnt := hplace.2
      omega
  obtain ⟨g, hg, hlen⟩ : ∃ g, p.globals.terminate = .ok g ∧ g.pids.length = forkerMaxPids := by
    rw [Globals.terminate]
    split_ifs with hroom
    · obtain ⟨k, hk⟩ := Int.eq_ofNat_of_zero_le (show 0 ≤ p.globals.npids by omega)
      rw [hk]
      refine ⟨_, assign_eq_ok 0 (by omega), ?_⟩
      exact (length_overwrite (by rw [List.length_singleton]; omega)).trans hpids
    · exact ⟨_, rfl, hpids⟩
  refine ⟨{ p with globals := g, phase := .returned (cnt - 1) }, ?_, hlen, trivial, hplace⟩
  rw [Proc.leave, hg]
  rfl

/-- The number of processes is counted, and the new one is put into the table if there is room. -/
theorem exists_record {g : Globals} (hlen : g.pids.length = forkerMaxPids) (hnonneg : 0 ≤ g.npids)
    (hhigh : g.npids < 2147483647) (q : ℤ) :
    ∃ g', g.record q = .ok g' ∧ g'.pids.length = forkerMaxPids ∧ g'.npids = g.npids + 1 := by
  have hcount : int32 (g.npids + 1) = g.npids + 1 := int32_eq_self ⟨by omega, by omega⟩
  rw [Globals.record]
  simp only [hcount]
  split_ifs with hroom
  · obtain ⟨k, hk⟩ := Int.eq_ofNat_of_zero_le hnonneg
    have hlt : k < g.pids.length := by omega
    rw [hk, Int.add_sub_cancel]
    exact ⟨_, assign_eq_ok q hlt, (length_overwrite hlt).trans hlen, rfl⟩
  · exact ⟨_, rfl, hlen, rfl⟩

/-- A process that goes on behind a `fork`. -/
theorem ProcAt.afterFork (h : ProcAt mode n ncopies i len p) (hphase : p.phase = .forked cnt pid)
    (hn : 0 ≤ n) (hroom : n + ncopies ≤ 2147483648) :
    ∃ p', p.afterFork mode cnt pid = .ok p' ∧ ProcAt mode n ncopies i len p' := by
  have hcounted := h.counted
  rw [hphase] at hcounted
  obtain ⟨hpos, hlt, hnpids⟩ := hcounted
  obtain ⟨g, hg, hlen, hcount⟩ := exists_record h.pids (show 0 ≤ p.globals.npids by omega)
    (by omega) (if pid = 0 then p.self else pid)
  have hloop : CountedAt n ncopies g.npids (.loop (cnt + 1)) := ⟨by omega, by omega⟩
  have hplace := h.place
  rw [hphase, PlaceAt] at hplace
  rw [Proc.afterFork, hg]
  refine ⟨_, rfl, ?_⟩
  dsimp only
  by_cases hmode : mode = 1
  · rw [if_pos hmode] at hplace ⊢
    by_cases hpid : pid = 0
    · -- the child goes on with the loop
      obtain ⟨-, hcnt, hlast⟩ | ⟨hne, -⟩ := hplace
      · rw [if_pos hpid]
        exact ⟨hlen, hloop, (if_pos hmode).mpr ⟨by omega, hlast⟩⟩
      · exact absurd hpid hne
    · obtain ⟨hzero, -⟩ | ⟨-, hcnt, -⟩ := hplace
      · exact absurd hzero hpid
      · rw [if_neg hpid]
        exact ⟨hlen, trivial, (if_pos hmode).mpr (.inl (by omega))⟩
  · rw [if_neg hmode] at hplace ⊢
    by_cases hpid : pid = 0
    · obtain ⟨-, hne, -⟩ | ⟨hchild, -⟩ := hplace
      · exact absurd hpid hne
      · rw [if_pos hpid]
        exact ⟨hlen, trivial, (if_neg hmode).mpr fun hzero => by omega⟩
    · -- the parent goes on with the loop
      obtain ⟨hzero, -, hcnt⟩ | ⟨-, hzero⟩ := hplace
      · rw [if_neg hpid]
        exact ⟨hlen, hloop, (if_neg hmode).mpr ⟨hzero, hcnt⟩⟩
      · exact absurd hzero hpid

end Place

section Grown

variable {t : Texts} {mode n ncopies : ℤ} {s s' : Tree} {l : Label} {ls : List Label}

/-- A step of one process that makes no other. -/
theorem Grown.set (h : Grown mode n ncopies ls s) {i : ℕ} {node : Node} {p' : Proc}
    (hl : l.forked = false) (hcaller : l.callerForked = false) (hi : s[i]? = some node)
    (hp' : ProcAt mode n ncopies i s.length p') :
    Grown mode n ncopies (ls ++ [l]) (s.set i { node with proc := .ok p' }) := by
  refine ⟨?_, ?_, fun j node' hj => ?_⟩
  · rw [List.length_set, h.length, List.countP_append, List.countP_singleton, hl]
    rfl
  · rw [List.length_set, List.countP_append, List.countP_singleton, hcaller, h.caller]
    rfl
  · rw [List.length_set]
    obtain ⟨rfl, rfl⟩ | ⟨-, hj⟩ := getElem?_set_cases hj
    · exact ⟨(h.node j node hi).1, p', rfl, hp'⟩
    · exact h.node j node' hj

theorem callerForked_error (i : ℕ) (errno : ℤ) :
    Label.callerForked (.fork i (.error errno)) = false := by
  cases i with
  | zero => rfl
  | succ i => rfl

theorem callerForked_ok (i : ℕ) (pid : Pid) :
    Label.callerForked (.fork i (.ok pid)) = decide (i = 0) := by
  cases i with
  | zero => rfl
  | succ i => rfl

/-- A `fork` that succeeds. -/
theorem Grown.grow (h : Grown mode n ncopies ls s) {i : ℕ} {node : Node} {p : Proc} {cnt : ℤ}
    (pid : Pid) (hi : s[i]? = some node) (hat : ProcAt mode n ncopies i s.length p)
    (hphase : p.phase = .loop cnt) (hlt : cnt < ncopies) :
    Grown mode n ncopies (ls ++ [.fork i (.ok pid)])
      (s.set i { node with proc := .ok { p with phase := .forked cnt pid } } ++
        [{ proc := .ok (p.child cnt pid), parent := some i }]) := by
  obtain ⟨hilt, -⟩ := List.getElem?_eq_some_iff.mp hi
  have hplace := hat.place
  rw [hphase] at hplace
  have hlen (x y : Node) : (s.set i x ++ [y]).length = s.length + 1 := by
    rw [List.length_append, List.length_set, List.length_singleton]
  -- in mode 1 the last process forks, and in mode 0 the first
  have hfork : if mode = 1 then i + 1 = s.length else i = 0 := by
    rw [PlaceAt] at hplace
    split_ifs at hplace ⊢
    · exact hplace.2
    · exact hplace.1
  refine ⟨?_, ?_, fun j node' hj => ?_⟩
  · rw [hlen, h.length, List.countP_append]
    rfl
  · rw [hlen, List.countP_append, List.countP_singleton, callerForked_ok, h.caller]
    simp only [decide_eq_true_eq]
    split_ifs at hfork ⊢
    all_goals omega
  · rw [hlen]
    obtain hjlt | hjge := Nat.lt_or_ge j s.length
    · rw [List.getElem?_append_left (by rwa [List.length_set])] at hj
      obtain ⟨rfl, rfl⟩ | ⟨hne, hj⟩ := getElem?_set_cases hj
      · exact ⟨(h.node j node hi).1, _, rfl, hat.forked hphase hlt (Int.ne_of_gt pid.property)⟩
      · obtain ⟨hparent, q, hq, hqat⟩ := h.node j node' hj
        exact ⟨hparent, q, hq, hqat.pids, hqat.counted, hqat.place.grow hplace hne⟩
    · rw [List.getElem?_append_right (by rwa [List.length_set]), List.length_set] at hj
      obtain ⟨hone, -⟩ := List.getElem?_eq_some_iff.mp hj
      rw [List.length_singleton] at hone
      obtain rfl : j = s.length := by omega
      rw [Nat.sub_self] at hj
      obtain rfl := Option.some.inj hj
      refine ⟨?_, _, rfl, hat.child hphase hlt⟩
      obtain ⟨k, hk⟩ := Nat.exists_eq_succ_of_ne_zero (show s.length ≠ 0 by omega)
      rw [hk, parentAt]
      split_ifs at hfork ⊢
      · rw [show i = k by omega]
      · rw [hfork]

/-- The process at a place that has not faulted. -/
theorem Grown.procAt (h : Grown mode n ncopies ls s) {i : ℕ} {node : Node} {p : Proc}
    (hi : s[i]? = some node) (hp : node.proc = .ok p) : ProcAt mode n ncopies i s.length p := by
  obtain ⟨-, p', hp', hat⟩ := h.node i node hi
  obtain rfl := Except.ok.inj (hp'.symm.trans hp)
  exact hat

/-- **A step** keeps the shape of the tree. -/
theorem Grown.next (h : Grown mode n ncopies ls s) (hn : 0 ≤ n) (hroom : n + ncopies ≤ 2147483648)
    (hl : next t mode ncopies s l = some s') : Grown mode n ncopies (ls ++ [l]) s' := by
  cases next_cases hl with
  | failed errno hi hp hphase hlt =>
    have hat := h.procAt hi hp
    exact h.set rfl (callerForked_error _ errno) hi (hat.failed hphase errno)
  | forked pid hi hp hphase hlt => exact h.grow pid hi (h.procAt hi hp) hphase hlt
  | left hi hp hphase hge =>
    obtain ⟨p', hleave, hat⟩ := (h.procAt hi hp).leave hphase hn
    rw [hleave]
    exact h.set rfl rfl hi hat
  | wentOn hi hp hphase =>
    obtain ⟨p', hafter, hat⟩ := (h.procAt hi hp).afterFork hphase hn hroom
    rw [hafter]
    exact h.set rfl rfl hi hat

end Grown

/-! ### The processes return -/

/-- A bound for the steps that a process and the ones that it makes still take. -/
def weight (mode ncopies : ℤ) (node : Node) : ℕ :=
  match node.proc with
  | .error _ => 0
  | .ok p =>
    match p.phase with
    | .loop cnt => 3 * (ncopies - cnt).toNat + 1
    | .forked cnt pid =>
      if (mode = 1 ↔ pid = 0) then 3 * (ncopies - cnt - 1).toNat + 2 else 1
    | .returned _ => 0

/-- The bound for all processes. -/
def total (mode ncopies : ℤ) (s : Tree) : ℕ := (s.map (weight mode ncopies)).sum

section Weight

variable {t : Texts} {mode ncopies cnt pid : ℤ} {s s' : Tree} {l : Label} {ls : List Label}
  {node node' : Node} {p : Proc} {i : ℕ}

theorem weight_loop (hp : node.proc = .ok p) (hphase : p.phase = .loop cnt) :
    weight mode ncopies node = 3 * (ncopies - cnt).toNat + 1 := by
  simp only [weight, hp, hphase]

theorem weight_forked (hp : node.proc = .ok p) (hphase : p.phase = .forked cnt pid) :
    weight mode ncopies node =
      if (mode = 1 ↔ pid = 0) then 3 * (ncopies - cnt - 1).toNat + 2 else 1 := by
  simp only [weight, hp, hphase]

theorem weight_returned {v : ℤ} (hp : node.proc = .ok p) (hphase : p.phase = .returned v) :
    weight mode ncopies node = 0 := by
  simp only [weight, hp, hphase]

/-- The weight of one of the processes is replaced. -/
theorem total_set (hi : s[i]? = some node) :
    total mode ncopies (s.set i node') + weight mode ncopies node =
      total mode ncopies s + weight mode ncopies node' := by
  induction s generalizing i with
  | nil => cases hi
  | cons a s ih =>
    cases i with
    | zero =>
      obtain rfl := Option.some.inj hi
      simp only [total, List.set_cons_zero, List.map_cons, List.sum_cons]
      omega
    | succ i =>
      have hrest := ih hi
      simp only [total, List.set_cons_succ, List.map_cons, List.sum_cons] at hrest ⊢
      omega

theorem total_set_lt (hi : s[i]? = some node)
    (hlt : weight mode ncopies node' < weight mode ncopies node) :
    total mode ncopies (s.set i node') < total mode ncopies s := by
  have hset := @total_set mode ncopies s node node' i hi
  omega

theorem weight_leave_lt (hp : node.proc = .ok p) (hphase : p.phase = .loop cnt) :
    weight mode ncopies { node with proc := p.leave cnt } < weight mode ncopies node := by
  rw [weight_loop hp hphase]
  cases hleave : p.leave cnt with
  | error fault => exact Nat.succ_pos _
  | ok p' =>
    obtain ⟨g, -, rfl⟩ := exists_of_map_eq_ok hleave
    exact Nat.succ_pos _

theorem weight_afterFork_lt (hp : node.proc = .ok p) (hphase : p.phase = .forked cnt pid) :
    weight mode ncopies { node with proc := p.afterFork mode cnt pid } <
      weight mode ncopies node := by
  rw [weight_forked hp hphase]
  have hpos : 0 < if (mode = 1 ↔ pid = 0) then 3 * (ncopies - cnt - 1).toNat + 2 else 1 := by
    split_ifs
    all_goals omega
  cases hafter : p.afterFork mode cnt pid with
  | error fault => exact hpos
  | ok p' =>
    obtain ⟨g, -, rfl⟩ := exists_of_map_eq_ok hafter
    by_cases hmode : mode = 1
    · by_cases hpid : pid = 0
      · simp only [weight, hmode, hpid, if_true]
        omega
      · simp [weight, hmode, hpid]
    · by_cases hpid : pid = 0
      · simp [weight, hmode, hpid]
      · simp only [weight, hmode, hpid, if_false, iff_self, if_true]
        omega

/-- **Every step** uses up some of the bound. -/
theorem total_lt (h : next t mode ncopies s l = some s') :
    total mode ncopies s' < total mode ncopies s := by
  cases next_cases h with
  | failed errno hi hp hphase hlt =>
    refine total_set_lt hi ?_
    rw [weight_loop hp hphase, weight_returned rfl rfl]
    exact Nat.succ_pos _
  | @forked i node p cnt pid hi hp hphase hlt =>
    have hset := @total_set mode ncopies s node
      { node with proc := .ok { p with phase := .forked cnt pid } } i hi
    have hpid : ¬pid.val = 0 := Int.ne_of_gt pid.property
    rw [weight_loop hp hphase,
      weight_forked (p := { p with phase := .forked cnt pid }) rfl rfl] at hset
    have hchild : weight mode ncopies { proc := .ok (p.child cnt pid), parent := some i } =
        if (mode = 1 ↔ (0 : ℤ) = 0) then 3 * (ncopies - cnt - 1).toNat + 2 else 1 :=
      weight_forked rfl rfl
    rw [total, List.map_append, List.sum_append, List.map_singleton, List.sum_singleton, hchild]
    rw [total] at hset
    by_cases hmode : mode = 1
    · simp only [hmode, hpid, true_iff, if_false, if_true] at hset ⊢
      omega
    · simp only [hmode, hpid, iff_self, if_true, false_iff, not_true, if_false] at hset ⊢
      omega
  | left hi hp hphase hge => exact total_set_lt hi (weight_leave_lt hp hphase)
  | wentOn hi hp hphase => exact total_set_lt hi (weight_afterFork_lt hp hphase)

/-- A run is no longer than the bound. -/
theorem length_add_total_le {p : Proc} (h : (forkerMachine t mode ncopies p).exec s ls = some s') :
    ls.length + total mode ncopies s' ≤ total mode ncopies s := by
  induction ls generalizing s with
  | nil =>
    obtain rfl := Option.some.inj h
    exact Nat.le_of_eq (Nat.zero_add _)
  | cons l ls ih =>
    obtain ⟨u, hu, hls⟩ := Option.bind_eq_some_iff.mp h
    have hlt : total mode ncopies u < total mode ncopies s := total_lt hu
    have hrest := ih hls
    rw [List.length_cons]
    omega

end Weight

/-- Whatever happens, the processes take no more steps than the bound, none of them faults, and they
can go on until all have returned. -/
def Finishes (t : Texts) (mode ncopies : ℤ) (p : Proc) : Prop :=
  ∀ ls s, (forkerMachine t mode ncopies p).exec [{ proc := p.enter, parent := none }] ls = some s →
    ls.length ≤ 3 * (ncopies - 1).toNat + 1 ∧ (∀ node ∈ s, ∃ q, node.proc = .ok q) ∧
      ∃ ls' s', (forkerMachine t mode ncopies p).exec s ls' = some s' ∧ Finished s'

section Runs

variable {t : Texts} {mode n ncopies : ℤ} {s s' : Tree} {ls : List Label} {p : Proc}

theorem Room.enter (h : Room ncopies p) : ∃ q, p.enter = .ok q ∧ q.phase = .loop 1 ∧
    q.globals.pids.length = forkerMaxPids ∧ q.globals.npids = p.globals.npids := by
  have hlen := h.length
  have hassign : p.globals.assign ind 0 = _ := assign_eq_ok (i := 0) 0 (by rw [hlen]; decide)
  rw [Proc.enter, hassign]
  exact ⟨_, rfl, rfl, (length_overwrite (by rw [hlen]; decide)).trans hlen, rfl⟩

/-- The tree with the caller alone. -/
theorem grown_start (h : Room ncopies p) :
    Grown mode p.globals.npids ncopies [] [{ proc := p.enter, parent := none }] := by
  obtain ⟨q, hq, hphase, hlen, hnpids⟩ := h.enter
  refine ⟨rfl, by split_ifs <;> rfl, fun i node hi => ?_⟩
  obtain ⟨hlt, -⟩ := List.getElem?_eq_some_iff.mp hi
  obtain rfl : i = 0 := Nat.lt_one_iff.mp hlt
  obtain rfl := Option.some.inj hi
  refine ⟨rfl, q, hq, hlen, ?_, ?_⟩
  · rw [hphase, CountedAt, hnpids]
    omega
  · rw [hphase, PlaceAt]
    split_ifs
    · exact ⟨rfl, rfl⟩
    · exact ⟨rfl, rfl⟩

/-- **Every run** gives the tree its shape. -/
theorem grown_of_run (h : Room ncopies p) (hrun : (forkerMachine t mode ncopies p).exec
      [{ proc := p.enter, parent := none }] ls = some s) :
    Grown mode p.globals.npids ncopies ls s :=
  Machine.exec_invariant hrun (grown_start h) fun _ _ _ _ hgrown hl =>
    hgrown.next h.nonneg h.le hl

/-- A process that has not returned can go on. -/
theorem exists_next (h : Grown mode n ncopies ls s) (hfin : ¬Finished s) :
    ∃ l s', next t mode ncopies s l = some s' := by
  obtain ⟨i, hi, hnot⟩ : ∃ i, ∃ _ : i < s.length, ¬∃ v, ReturnedAt s i v := by
    simpa [Finished] using hfin
  obtain ⟨-, p, hp, -⟩ := h.node i s[i] (List.getElem?_eq_getElem hi)
  have hnode : s[i]? = some { proc := .ok p, parent := s[i].parent } := by
    rw [List.getElem?_eq_getElem hi, ← hp]
  cases hphase : p.phase with
  | loop cnt =>
    by_cases hlt : cnt < ncopies
    · exact ⟨.fork i (.error 0), by simp [next, hnode, hphase, hlt]⟩
    · exact ⟨.run i, by simp [next, hnode, Proc.run, hphase, hlt]⟩
  | forked cnt pid => exact ⟨.run i, by simp [next, hnode, Proc.run, hphase]⟩
  | returned v => exact absurd ⟨v, _, p, hnode, rfl, hphase⟩ hnot

theorem exec_of_next {u : Tree} {l : Label} (h : next t mode ncopies s l = some u)
    (ls : List Label) :
    (forkerMachine t mode ncopies p).exec s (l :: ls) =
      (forkerMachine t mode ncopies p).exec u ls := by
  have hl : (forkerMachine t mode ncopies p).next s l = some u := h
  rw [Machine.exec_cons, hl]
  rfl

/-- From every tree the processes can go on until they have all returned. -/
theorem exists_finished (hn : 0 ≤ n) (hroom : n + ncopies ≤ 2147483648)
    (h : Grown mode n ncopies ls s) :
    ∃ ls' s', (forkerMachine t mode ncopies p).exec s ls' = some s' ∧ Finished s' := by
  obtain ⟨k, hk⟩ : ∃ k, total mode ncopies s < k := ⟨_, Nat.lt_succ_self _⟩
  induction k generalizing s ls with
  | zero => exact absurd hk (Nat.not_lt_zero _)
  | succ k ih =>
    by_cases hfin : Finished s
    · exact ⟨[], s, rfl, hfin⟩
    obtain ⟨l, u, hu⟩ := exists_next (t := t) h hfin
    have hlt := total_lt hu
    obtain ⟨ls', s', hrun, hfin'⟩ := ih (h.next hn hroom hu) (by omega)
    exact ⟨l :: ls', s', (exec_of_next hu ls').trans hrun, hfin'⟩

/-- **The processes return.** -/
theorem finishes (h : Room ncopies p) : Finishes t mode ncopies p := by
  intro ls s hrun
  obtain ⟨q, hq, hphase, -, -⟩ := h.enter
  have hgrown := grown_of_run h hrun
  have hle := length_add_total_le hrun
  have hstart : total mode ncopies [{ proc := p.enter, parent := none }] =
      3 * (ncopies - 1).toNat + 1 := by
    rw [total, List.map_singleton, List.sum_singleton, weight_loop hq hphase]
  refine ⟨by omega, fun node hnode => ?_, exists_finished h.nonneg h.le hgrown⟩
  obtain ⟨i, hi⟩ := List.getElem?_of_mem hnode
  obtain ⟨-, q, hq, -⟩ := hgrown.node i node hi
  exact ⟨q, hq⟩

/-! ### When the numbers are right -/

theorem ReturnedAt.unique {i : ℕ} {v w : ℤ} (hv : ReturnedAt s i v) (hw : ReturnedAt s i w) :
    v = w := by
  obtain ⟨node, p, hi, hp, hphase⟩ := hv
  obtain ⟨node', p', hi', hp', hphase'⟩ := hw
  obtain rfl := Option.some.inj (hi.symm.trans hi')
  obtain rfl := Except.ok.inj (hp.symm.trans hp')
  exact Phase.returned.inj (hphase.symm.trans hphase')

/-- The place of a process that has returned. -/
theorem Grown.returned (h : Grown mode n ncopies ls s) {i : ℕ} {v : ℤ} (hv : ReturnedAt s i v) :
    PlaceAt mode i s.length (.returned v) := by
  obtain ⟨node, p, hi, hp, hphase⟩ := hv
  obtain ⟨-, q, hq, hat⟩ := h.node i node hi
  obtain rfl := Except.ok.inj (hp.symm.trans hq)
  exact hphase ▸ hat.place

/-- The steps with a `fork` of the caller that succeeds. -/
theorem any_callerForked_iff :
    ls.any Label.callerForked = true ↔ ∃ pid, Label.fork 0 (.ok pid) ∈ ls := by
  rw [List.any_eq_true]
  constructor
  · rintro ⟨l, hl, hforked⟩
    cases l with
    | run i => cases hforked
    | fork i outcome =>
      cases outcome with
      | error errno =>
        rw [callerForked_error] at hforked
        cases hforked
      | ok pid =>
        rw [callerForked_ok] at hforked
        obtain rfl : i = 0 := of_decide_eq_true hforked
        exact ⟨pid, hl⟩
  · rintro ⟨pid, hl⟩
    exact ⟨_, hl, rfl⟩

/-- In mode 0 the numbers are right. -/
theorem Grown.countsRight_zero (h : Grown 0 n ncopies ls s) (hfin : Finished s) :
    CountsRight 0 ls s := by
  have hlen := h.length
  obtain ⟨v, hv⟩ := hfin 0 (by omega)
  have hplace := h.returned hv
  have hcaller := h.caller
  rw [PlaceAt, if_neg (by decide)] at hplace
  rw [if_neg (by decide)] at hcaller
  have hvalue := hplace rfl
  obtain rfl : v = ls.countP Label.callerForked := by omega
  exact ⟨hlen, fun _ => hv, fun hone => absurd hone (by decide),
    fun hone => absurd hone (by decide)⟩

/-- In mode 1 they are right if no process was made. -/
theorem Grown.countsRight_one (h : Grown 1 n ncopies ls s) (hfin : Finished s) :
    CountsRight 1 ls s ↔ ls.any Label.callerForked = false := by
  have hlen := h.length
  have hcaller := h.caller
  rw [if_pos rfl] at hcaller
  obtain ⟨v, hv⟩ := hfin 0 (by omega)
  have hplace := h.returned hv
  rw [PlaceAt, if_pos rfl] at hplace
  -- the caller returns 0 whether it has forked or not
  obtain rfl : v = 0 := by
    obtain hzero | ⟨-, hzero⟩ := hplace
    · exact hzero
    · exact hzero
  have hany : ls.any Label.callerForked = decide (0 < ls.countP Label.callerForked) := by
    rw [Bool.eq_iff_iff, List.any_eq_true, decide_eq_true_eq, List.countP_pos_iff]
  constructor
  · intro hright
    have hone := hright.caller_one rfl
    by_contra hforked
    rw [Bool.not_eq_false] at hforked
    rw [if_pos hforked] at hone
    exact absurd (hv.unique hone) (by decide)
  · intro hnone
    have hzero : ls.countP Label.callerForked = 0 := by
      rw [hnone] at hany
      have hnot := of_decide_eq_false hany.symm
      omega
    have hlength : s.length = 1 := by omega
    have hforks : ls.countP Label.forked = 0 := by omega
    refine ⟨hlen, fun hmode => absurd hmode (by decide), fun _ => ?_, fun _ => ?_⟩
    · rw [hnone]
      exact hv
    · rw [hforks, hlength]
      exact hv

/-- In mode 1 a caller that makes a process does not return the right number, whatever the processes
do then. -/
theorem Room.not_countsRight (h : Room ncopies p) (hlt : 1 < ncopies) (pid : Pid) :
    ∃ ls s, (forkerMachine t 1 ncopies p).exec [{ proc := p.enter, parent := none }]
        (.fork 0 (.ok pid) :: ls) = some s ∧
      Finished s ∧ ¬CountsRight 1 (.fork 0 (.ok pid) :: ls) s := by
  obtain ⟨q, hq, hphase, -, -⟩ := h.enter
  obtain ⟨u, hu⟩ : ∃ u, next t 1 ncopies [{ proc := p.enter, parent := none }]
      (.fork 0 (.ok pid)) = some u := by
    simp [next, hq, hphase, hlt]
  have hfirst : Grown 1 p.globals.npids ncopies _ _ := grown_of_run h (exec_of_next hu [])
  obtain ⟨ls, s, hrun, hfin⟩ := exists_finished (t := t) (p := p) h.nonneg h.le hfirst
  have hexec := (exec_of_next hu ls).trans hrun
  refine ⟨ls, s, hexec, hfin, fun hright => ?_⟩
  have hnone := ((grown_of_run h hexec).countsRight_one hfin).mp hright
  cases hnone

end Runs

/-- **A call of `forker`** finishes, and its processes return the numbers that they should if and
only if the mode is 0 or the caller makes no process. -/
theorem countsRight_iff (t : Texts) {mode ncopies : ℤ} {p : Proc} (hmode : mode = 0 ∨ mode = 1)
    (hroom : Room ncopies p) :
    Finishes t mode ncopies p ∧ ∀ ls s,
      (forkerMachine t mode ncopies p).exec [{ proc := p.enter, parent := none }] ls = some s →
        Finished s →
          (CountsRight mode ls s ↔ mode = 0 ∨ ∀ pid, Label.fork 0 (.ok pid) ∉ ls) := by
  refine ⟨finishes hroom, fun ls s hrun hfin => ?_⟩
  have hgrown := grown_of_run hroom hrun
  obtain rfl | rfl := hmode
  · exact iff_of_true (hgrown.countsRight_zero hfin) (.inl rfl)
  · rw [hgrown.countsRight_one hfin, Bool.eq_false_iff, ne_eq, any_callerForked_iff, not_exists]
    exact (or_iff_right (by decide)).symm

theorem room_start : Room 3 (start 100) :=
  ⟨List.length_replicate, Int.le_refl 0, by decide⟩

/-- Three processes in mode 0. -/
theorem countsRight_three :
    Finishes quiet 0 3 (start 100) ∧ ∀ ls s,
      (forkerMachine quiet 0 3 (start 100)).exec
          [{ proc := (start 100).enter, parent := none }] ls = some s →
        Finished s → (CountsRight 0 ls s ↔ (0 : ℤ) = 0 ∨ ∀ pid, Label.fork 0 (.ok pid) ∉ ls) :=
  countsRight_iff quiet (.inl rfl) room_start

/-- The call `forker(3, 1, NULL)`, whose caller makes the process 101. -/
theorem modeOne_not_countsRight :
    ∃ ls s, (forkerMachine quiet 1 3 (start 100)).exec
        [{ proc := (start 100).enter, parent := none }]
          (.fork 0 (.ok ⟨101, by decide⟩) :: ls) = some s ∧
      Finished s ∧ ¬CountsRight 1 (.fork 0 (.ok ⟨101, by decide⟩) :: ls) s :=
  room_start.not_countsRight (by decide) _

end Forker

end SnowballLtp
