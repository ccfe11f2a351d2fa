import Mathlib.Data.List.Basic
import SnowballLtp.Machine.Decimal

/-!
# The copies that a process makes of itself

`forker` forks in a loop. Each new process is counted in `Forker_npids`, and its number is put into
`Forker_pids`, as far as that has room. In mode 1 the parent leaves the loop and the child goes on
with it; in every other mode it is the other way round. On entry the first element of `Forker_pids`
is set to 0: the index of this store is a variable that is static and never set, so a later call
deletes the first number that an earlier one has left.

This file has the function and the calls in mode 0 that one process makes one after the other. The
processes that a call makes are the subject of `SnowballLtp.Ltp.ForkerTree`.

## Main definitions

* `Globals`, `Proc`, `Proc.enter`, `Proc.afterFork`, `Proc.leave`, `Proc.failed`: the function.
* `forker`: a call in mode 0, as its caller goes through it.
* `KeepsPids`: what the table is to hold after each call of a sequence.

## Main results

* `Holds.callFrom`: a call keeps the table of the processes that it makes.
* `callFrom_entry`: a call does not bring back the first number.
* `keepsPids_iff`: when the table is kept.
* `twice_not_keepsPids`.
-/

namespace SnowballLtp

namespace Forker

/-! ### The function -/

def forkerMaxPids : ℕ := 4098

/-- The static variable `ind`, which nothing sets. -/
def ind : ℤ := 0

/-- A process number. -/
abbrev Pid := {pid : ℤ // 0 < pid}

/-- A value of type `int`. -/
abbrev CInt := {x : ℤ // InInt32 x}

/-- `Forker_pids` and `Forker_npids`. -/
structure Globals where
  pids : List ℤ
  npids : ℤ

/-- The assignment `Forker_pids[i] = v`. -/
def Globals.assign (g : Globals) (i v : ℤ) : Except Fault Globals :=
  (store g.pids i [v]).map fun pids => { g with pids }

/-- The assignment behind `Forker_npids++`. -/
def Globals.record (g : Globals) (pid : ℤ) : Except Fault Globals :=
  let g := { g with npids := int32 (g.npids + 1) }
  if g.npids < (forkerMaxPids : ℤ) then g.assign (g.npids - 1) pid else .ok g

/-- The assignment behind the loop. -/
def Globals.terminate (g : Globals) : Except Fault Globals :=
  if g.npids < (forkerMaxPids : ℤ) then g.assign g.npids 0 else .ok g

/-- What a message is made of: `prefix` or null, `__FILE__` and the texts of the system. -/
structure Texts where
  pre : Option (List Char)
  file : List Char
  strerror : ℤ → List Char

/-- The message for a fork that failed. -/
def Texts.message (t : Texts) (errno : ℤ) : List Char :=
  t.pre.elim [] fun pre => pre ++ ": ".toList ++ t.file ++
    ",forker(): fork() failed, errno:".toList ++ decimal errno ++ " ".toList ++
    t.strerror errno ++ "\n".toList

/-- Where a process is in `forker`: in front of a pass of the loop, behind a `fork` that gave it
`pid`, or returned. -/
inductive Phase where
  | loop (cnt : ℤ)
  | forked (cnt pid : ℤ)
  | returned (ret : ℤ)
deriving DecidableEq

/-- A process, with its number and the memory that it has of its own. -/
structure Proc where
  self : ℤ
  globals : Globals
  phase : Phase
  stderr : List Char := []

/-- The entry of the function. -/
def Proc.enter (p : Proc) : Except Fault Proc :=
  (p.globals.assign ind 0).map fun globals => { p with globals, phase := .loop 1 }

/-- The branch for a `fork` that failed. -/
def Proc.failed (t : Texts) (mode cnt errno : ℤ) (p : Proc) : Proc :=
  { p with
    phase := .returned (if mode = 1 then 0 else cnt - 1)
    stderr := p.stderr ++ t.message errno }

/-- What follows on a `fork` that gave `pid`. The number of passes fits into an `int`, so `cnt + 1`
does not wrap. -/
def Proc.afterFork (mode cnt pid : ℤ) (p : Proc) : Except Fault Proc :=
  (p.globals.record (if pid = 0 then p.self else pid)).map fun globals =>
    if mode = 1 then
      if pid = 0 then { p with globals, phase := .loop (cnt + 1) }
      else { p with globals, phase := .returned (cnt - 1) }
    else
      if pid = 0 then { p with globals, phase := .returned cnt }
      else { p with globals, phase := .loop (cnt + 1) }

/-- What follows on the loop. -/
def Proc.leave (cnt : ℤ) (p : Proc) : Except Fault Proc :=
  p.globals.terminate.map fun globals => { p with globals, phase := .returned (cnt - 1) }

/-! ### The caller in mode 0 -/

/-- A call in mode 0: `ncopies`, and what `fork` gives in each of the passes. -/
structure Call where
  ncopies : CInt
  fork : ℤ → Except ℤ Pid

/-- The caller's way through the passes that are left of the loop. -/
def callFrom (t : Texts) (fork : ℤ → Except ℤ Pid) : ℕ → ℤ → Proc → Except Fault Proc
  | 0, cnt, p => p.leave cnt
  | n + 1, cnt, p =>
    match fork cnt with
    | .error errno => .ok (p.failed t 0 cnt errno)
    | .ok pid => (p.afterFork 0 cnt pid).bind (callFrom t fork n (cnt + 1))

/-- The call `forker(ncopies, 0, prefix)`, as its caller goes through it. -/
def forker (t : Texts) (p : Proc) (call : Call) : Except Fault Proc :=
  p.enter.bind (callFrom t call.fork (call.ncopies.val - 1).toNat 1)

/-- The processes that the passes make which are left of the loop. -/
def forkedFrom (fork : ℤ → Except ℤ Pid) : ℕ → ℤ → List ℤ
  | 0, _ => []
  | n + 1, cnt =>
    match fork cnt with
    | .error _ => []
    | .ok pid => pid :: forkedFrom fork n (cnt + 1)

/-- The processes that a call makes. -/
def Call.forked (call : Call) : List ℤ := forkedFrom call.fork (call.ncopies.val - 1).toNat 1

/-- A process before its first call. -/
def start (self : ℤ) : Proc where
  self := self
  globals := { pids := List.replicate forkerMaxPids 0, npids := 0 }
  phase := .returned 0

/-- The table holds the numbers of `pids`, as far as there is room for them. -/
structure Represents (g : Globals) (pids : List ℤ) : Prop where
  npids : pids.length < forkerMaxPids → g.npids = pids.length
  entries : pids.length < forkerMaxPids → slice g.pids 0 pids.length = pids
  first : forkerMaxPids ≤ pids.length →
    slice g.pids 0 (forkerMaxPids - 1) = pids.take (forkerMaxPids - 1)

/-- After each call of the sequence nothing was written outside the table, and it represents the
processes made so far. -/
def KeepsPids (t : Texts) (self : ℤ) (calls : List Call) : Prop :=
  ∀ before, before <+: calls →
    ∃ p, before.foldlM (forker t) (start self) = .ok p ∧
      Represents p.globals (before.flatMap Call.forked)

/-! ### What the table holds -/

theorem assign_eq_ok {g : Globals} {i : ℕ} (v : ℤ) (hi : i < g.pids.length) :
    g.assign i v = .ok { g with pids := overwrite g.pids i [v] } := by
  have hstore : store g.pids i [v] = .ok (overwrite g.pids i [v]) := store_eq_ok _ _ _ hi
  rw [Globals.assign, hstore]
  rfl

theorem assign_of_neg {g : Globals} {i : ℤ} (v : ℤ) (hi : i < 0) :
    g.assign i v = .error .outOfBounds := by
  rw [Globals.assign, store, if_pos (.inl hi)]
  rfl

/-- The state of the table when the processes `pids` were made, at any place in `forker`. -/
structure Holds (g : Globals) (pids : List ℤ) : Prop where
  length : g.pids.length = forkerMaxPids
  npids : g.npids = pids.length
  entries : slice g.pids 0 (min pids.length (forkerMaxPids - 1)) = pids.take (forkerMaxPids - 1)

section Holds

variable {g g' : Globals} {pids : List ℤ} {t : Texts} {fork : ℤ → Except ℤ Pid}

theorem Holds.represents (h : Holds g pids) : Represents g pids where
  npids _ := h.npids
  entries hlt := by
    have hentries := h.entries
    rwa [Nat.min_eq_left (by omega), List.take_of_length_le (by omega)] at hentries
  first hle := by
    have hentries := h.entries
    rwa [Nat.min_eq_right (by omega)] at hentries

/-- An assignment behind what the table holds. -/
theorem Holds.assign (h : Holds g pids) {i : ℕ} (v : ℤ) (hi : i < forkerMaxPids)
    (hbehind : min pids.length (forkerMaxPids - 1) ≤ i) :
    ∃ g', g.assign i v = .ok g' ∧ Holds g' pids := by
  have hlen := h.length
  have hfits : i + [v].length ≤ g.pids.length := by rw [List.length_singleton]; omega
  refine ⟨_, assign_eq_ok v (by omega), ?_, h.npids, ?_⟩
  · exact (length_overwrite hfits).trans hlen
  · exact (slice_overwrite_of_apart 0 _ hfits (.inl (by omega))).trans h.entries

/-- One more process. -/
theorem Holds.record (h : Holds g pids) (pid : ℤ) (hroom : pids.length + 1 < 2147483648) :
    ∃ g', g.record pid = .ok g' ∧ Holds g' (pids ++ [pid]) := by
  have hnpids := h.npids
  have hlen := h.length
  have hcount : int32 (g.npids + 1) = pids.length + 1 := by
    rw [hnpids]
    exact int32_eq_self ⟨by omega, by omega⟩
  have hsucc : (pids ++ [pid]).length = pids.length + 1 := List.length_append
  rw [Globals.record]
  simp only [hcount]
  by_cases hlt : pids.length + 1 < forkerMaxPids
  · have hfits : pids.length + [pid].length ≤ g.pids.length := by
      rw [List.length_singleton]
      omega
    rw [if_pos (by omega), Int.add_sub_cancel]
    refine ⟨_, assign_eq_ok pid (by dsimp only; omega), (length_overwrite hfits).trans hlen,
      by rw [hsucc]; rfl, ?_⟩
    have hentries := h.entries
    rw [Nat.min_eq_left (by omega), List.take_of_length_le (by omega)] at hentries
    rw [Nat.min_eq_left (by omega), List.take_of_length_le (by omega), hsucc]
    exact (slice_overwrite_start g.pids [pid] pids.length hfits).trans (by rw [hentries])
  · rw [if_neg (by omega)]
    refine ⟨_, rfl, hlen, by rw [hsucc]; rfl, ?_⟩
    have hentries := h.entries
    rw [Nat.min_eq_right (by omega)] at hentries
    rw [Nat.min_eq_right (by omega), List.take_append_of_le_length (by omega)]
    exact hentries

theorem Holds.terminate (h : Holds g pids) : ∃ g', g.terminate = .ok g' ∧ Holds g' pids := by
  rw [Globals.terminate]
  by_cases hlt : pids.length < forkerMaxPids
  · rw [h.npids, if_pos (by omega)]
    exact h.assign 0 hlt (Nat.min_le_left _ _)
  · rw [h.npids, if_neg (by omega)]
    exact ⟨g, rfl, h⟩

/-- **A call** keeps the table of the processes that it makes. -/
theorem Holds.callFrom {n : ℕ} {cnt : ℤ} {p : Proc} (h : Holds p.globals pids)
    (hroom : pids.length + n < 2147483648) :
    ∃ p', callFrom t fork n cnt p = .ok p' ∧
      Holds p'.globals (pids ++ forkedFrom fork n cnt) := by
  induction n generalizing cnt p pids with
  | zero =>
    obtain ⟨g', hg, hholds⟩ := h.terminate
    rw [Forker.callFrom, Proc.leave, hg, forkedFrom, List.append_nil]
    exact ⟨_, rfl, hholds⟩
  | succ n ih =>
    rw [Forker.callFrom, forkedFrom]
    cases fork cnt with
    | error errno =>
      dsimp only
      rw [List.append_nil]
      exact ⟨_, rfl, h⟩
    | ok pid =>
      have hpos : ¬pid.val = 0 := Int.ne_of_gt pid.property
      obtain ⟨g', hg, hholds⟩ := h.record pid (by omega)
      have hafter : p.afterFork 0 cnt pid =
          .ok { p with globals := g', phase := .loop (cnt + 1) } := by
        rw [Proc.afterFork, if_neg hpos, hg]
        simp [Except.map, hpos]
      dsimp only
      rw [hafter]
      obtain ⟨p', hp', hrest⟩ := @ih _ (cnt + 1) { p with globals := g', phase := .loop (cnt + 1) }
        hholds (by rw [List.length_append, List.length_singleton]; omega)
      refine ⟨p', hp', ?_⟩
      rwa [List.append_assoc] at hrest

/-- A call while nothing is in the table. -/
theorem Holds.forker {p : Proc} (h : Holds p.globals []) (call : Call) :
    ∃ p', forker t p call = .ok p' ∧ Holds p'.globals call.forked := by
  obtain ⟨g, hg, hholds⟩ := h.assign 0 (i := 0) (by decide) (Nat.zero_le 0)
  have hncopies := call.ncopies.property.2
  have henter : p.enter = .ok { p with globals := g, phase := .loop 1 } := by
    have hind : p.globals.assign ind 0 = .ok g := hg
    rw [Proc.enter, hind]
    rfl
  rw [Forker.forker, henter]
  exact Holds.callFrom (p := { p with globals := g, phase := .loop 1 }) hholds (by
    rw [List.length_nil]
    omega)

end Holds

/-! ### What a call loses -/

theorem exists_of_map_eq_ok {α β : Type} {x : Except Fault α} {f : α → β} {b : β}
    (h : x.map f = .ok b) : ∃ a, x = .ok a ∧ f a = b := by
  cases x with
  | error fault => cases h
  | ok a => exact ⟨a, rfl, Except.ok.inj h⟩

theorem exists_of_bind_eq_ok {α β : Type} {x : Except Fault α} {f : α → Except Fault β} {b : β}
    (h : x.bind f = .ok b) : ∃ a, x = .ok a ∧ f a = .ok b := by
  cases x with
  | error fault => cases h
  | ok a => exact ⟨a, rfl, h⟩

/-- What an assignment of a run that does not fault has done. -/
theorem assign_ok {g g' : Globals} {i v : ℤ} (h : g.assign i v = .ok g') :
    ∃ k : ℕ, i = k ∧ k < g.pids.length ∧ g' = { g with pids := overwrite g.pids k [v] } := by
  by_cases hneg : i < 0
  · rw [assign_of_neg v hneg] at h
    cases h
  obtain ⟨k, rfl⟩ := Int.eq_ofNat_of_zero_le (Int.not_lt.mp hneg)
  by_cases hk : k < g.pids.length
  · rw [assign_eq_ok v hk] at h
    exact ⟨k, rfl, hk, (Except.ok.inj h).symm⟩
  · have hout : store g.pids (k : ℤ) [v] = .error .outOfBounds := by
      rw [store, if_pos (.inr (by rw [List.length_singleton]; omega))]
    rw [Globals.assign, hout] at h
    cases h

/-- From the globals `g` a run without a fault has come to `g'`, on which `made` processes were made
that it did not put into the first element. -/
structure Follows (g g' : Globals) (made : ℕ) : Prop where
  npids : g'.npids = g.npids + made
  inInt32 : InInt32 g'.npids
  entry : 1 ≤ g.npids → g'.pids[0]? = g.pids[0]?

section Follows

variable {g g' g'' : Globals} {m n : ℕ} {t : Texts} {fork : ℤ → Except ℤ Pid}

theorem Follows.refl (h : InInt32 g.npids) : Follows g g 0 := ⟨by simp, h, fun _ => rfl⟩

theorem Follows.trans (h : Follows g g' m) (h' : Follows g' g'' n) : Follows g g'' (m + n) where
  npids := by
    rw [h'.npids, h.npids]
    omega
  inInt32 := h'.inInt32
  entry hpos := (h'.entry (by rw [h.npids]; omega)).trans (h.entry hpos)

/-- An assignment that is not to the first element. -/
theorem follows_assign {i v : ℤ} (h : g.assign i v = .ok g') (hi : 1 ≤ g.npids → 1 ≤ i)
    (hint : InInt32 g.npids) : Follows g g' 0 := by
  obtain ⟨k, rfl, hk, rfl⟩ := assign_ok h
  refine ⟨by simp, hint, fun hpos => ?_⟩
  have hne := hi hpos
  exact (getElem?_overwrite (by rw [List.length_singleton]; omega) 0).trans (if_neg (by omega))

/-- The number of processes cannot wrap: the assignment would be far below the table. -/
theorem follows_record {pid : ℤ} (hnonneg : 0 ≤ g.npids) (hint : InInt32 g.npids)
    (h : g.record pid = .ok g') : Follows g g' 1 := by
  obtain ⟨-, hhigh⟩ := hint
  rw [Globals.record] at h
  dsimp only at h
  by_cases hwrap : g.npids = 2147483647
  · have hnpids : int32 (g.npids + 1) = -2147483648 := by
      rw [hwrap]
      rfl
    rw [hnpids, if_pos (by decide)] at h
    rw [assign_of_neg pid (by decide)] at h
    cases h
  have hnpids : int32 (g.npids + 1) = g.npids + 1 := int32_eq_self ⟨by omega, by omega⟩
  have hcount : Follows g { g with npids := int32 (g.npids + 1) } 1 :=
    ⟨hnpids, inInt32_int32 _, fun _ => rfl⟩
  split_ifs at h
  · obtain ⟨k, hk, hlt, rfl⟩ := assign_ok h
    have hfits : k + [pid].length ≤ g.pids.length := hlt
    refine ⟨hnpids, inInt32_int32 _, fun hpos => ?_⟩
    exact (getElem?_overwrite hfits 0).trans (if_neg (by omega))
  · obtain rfl := Except.ok.inj h
    exact hcount

theorem follows_terminate (hint : InInt32 g.npids) (h : g.terminate = .ok g') : Follows g g' 0 := by
  rw [Globals.terminate] at h
  split_ifs at h
  · exact follows_assign h id hint
  · obtain rfl := Except.ok.inj h
    exact Follows.refl hint

/-- The passes of a call that does not fault. -/
theorem follows_callFrom {n : ℕ} {cnt : ℤ} {p p' : Proc} (hnonneg : 0 ≤ p.globals.npids)
    (hint : InInt32 p.globals.npids) (h : callFrom t fork n cnt p = .ok p') :
    Follows p.globals p'.globals (forkedFrom fork n cnt).length := by
  induction n generalizing cnt p with
  | zero =>
    rw [callFrom, Proc.leave] at h
    obtain ⟨g, hg, rfl⟩ := exists_of_map_eq_ok h
    exact follows_terminate hint hg
  | succ n ih =>
    rw [callFrom] at h
    rw [forkedFrom]
    cases hfork : fork cnt with
    | error errno =>
      rw [hfork] at h
      obtain rfl := Except.ok.inj h
      exact Follows.refl hint
    | ok pid =>
      rw [hfork] at h
      have hpos : ¬pid.val = 0 := Int.ne_of_gt pid.property
      obtain ⟨q, hq, hrest⟩ := exists_of_bind_eq_ok h
      rw [Proc.afterFork, if_neg hpos] at hq
      obtain ⟨g, hg, rfl⟩ := exists_of_map_eq_ok hq
      rw [if_neg (by decide), if_neg hpos] at hrest
      have hrecord := follows_record hnonneg hint hg
      have hnpids := hrecord.npids
      have hfollows := ih (by dsimp only; omega) hrecord.inInt32 hrest
      rw [List.length_cons, Nat.add_comm]
      exact hrecord.trans hfollows

/-- **A call deletes the first number**, and does not bring it back. -/
theorem forker_spec {p p' : Proc} {call : Call} (hnonneg : 0 ≤ p.globals.npids)
    (hint : InInt32 p.globals.npids) (h : forker t p call = .ok p') :
    p'.globals.npids = p.globals.npids + call.forked.length ∧ InInt32 p'.globals.npids ∧
      (1 ≤ p.globals.npids → p'.globals.pids[0]? = some 0) := by
  obtain ⟨q, hq, hrest⟩ := exists_of_bind_eq_ok h
  rw [Proc.enter] at hq
  obtain ⟨g, hg, rfl⟩ := exists_of_map_eq_ok hq
  obtain ⟨k, hk, hlt, rfl⟩ := assign_ok hg
  obtain rfl : k = 0 := by
    rw [ind] at hk
    omega
  let q : Proc :=
    { p with
      globals := { p.globals with pids := overwrite p.globals.pids 0 [0] }
      phase := .loop 1 }
  have hfollows : Follows q.globals p'.globals call.forked.length :=
    follows_callFrom (p := q) hnonneg hint hrest
  refine ⟨hfollows.npids, hfollows.inInt32, fun hpos => (hfollows.entry hpos).trans ?_⟩
  exact (getElem?_overwrite (show 0 + [(0 : ℤ)].length ≤ _ from hlt) 0).trans rfl

/-- The number of processes after a sequence of calls that does not fault. -/
theorem npids_of_calls {calls : List Call} {p p' : Proc} (hnonneg : 0 ≤ p.globals.npids)
    (hint : InInt32 p.globals.npids) (h : calls.foldlM (forker t) p = .ok p') :
    p'.globals.npids = p.globals.npids + (calls.flatMap Call.forked).length ∧
      InInt32 p'.globals.npids := by
  induction calls generalizing p with
  | nil =>
    obtain rfl := Except.ok.inj h
    exact ⟨by simp, hint⟩
  | cons call calls ih =>
    rw [List.foldlM_cons] at h
    obtain ⟨q, hq, hrest⟩ := exists_of_bind_eq_ok h
    obtain ⟨hnpids, hqint, -⟩ := forker_spec hnonneg hint hq
    obtain ⟨hcalls, hint'⟩ := ih (by omega) hqint hrest
    rw [List.flatMap_cons, List.length_append]
    exact ⟨by omega, hint'⟩

end Follows

/-! ### When the table is kept -/

section Keeps

variable {t : Texts} {self : ℤ} {calls : List Call} {pids : List ℤ}

/-- The first number of a table that represents some. -/
theorem Represents.first_eq {g : Globals} {pid : ℤ} (h : Represents g (pid :: pids)) :
    g.pids[0]? = some pid := by
  obtain hlt | hle := Nat.lt_or_ge (pid :: pids).length forkerMaxPids
  · have hfirst : (slice g.pids 0 (pid :: pids).length)[0]? = some pid := by
      rw [h.entries hlt]
      rfl
    rwa [getElem?_slice, if_pos (by simp)] at hfirst
  · have hfirst : (slice g.pids 0 (forkerMaxPids - 1))[0]? = some pid := by
      rw [h.first hle]
      rfl
    rwa [getElem?_slice, if_pos (by decide)] at hfirst

/-- The numbers are those of processes. -/
theorem pos_of_mem_forkedFrom {fork : ℤ → Except ℤ Pid} {n : ℕ} {cnt pid : ℤ}
    (h : pid ∈ forkedFrom fork n cnt) : 0 < pid := by
  induction n generalizing cnt with
  | zero => exact absurd h List.not_mem_nil
  | succ n ih =>
    rw [forkedFrom] at h
    cases hfork : fork cnt with
    | error errno =>
      rw [hfork] at h
      exact absurd h List.not_mem_nil
    | ok p =>
      rw [hfork] at h
      obtain rfl | hmem := List.mem_cons.mp h
      · exact p.property
      · exact ih hmem

theorem holds_start (self : ℤ) : Holds (start self).globals [] :=
  ⟨List.length_replicate, rfl, rfl⟩

/-- Calls that make no process leave an empty table. -/
theorem exists_holds_of_forall {before : List Call} {p : Proc} (hp : Holds p.globals [])
    (h : ∀ c ∈ before, c.forked = []) :
    ∃ p', before.foldlM (forker t) p = .ok p' ∧ Holds p'.globals [] := by
  induction before generalizing p with
  | nil => exact ⟨p, rfl, hp⟩
  | cons call before ih =>
    obtain ⟨hcall, hbefore⟩ := List.forall_mem_cons.mp h
    obtain ⟨q, hq, hholds⟩ := hp.forker (t := t) call
    rw [hcall] at hholds
    obtain ⟨p', hp', hholds'⟩ := ih hholds hbefore
    refine ⟨p', ?_, hholds'⟩
    rw [List.foldlM_cons, hq]
    exact hp'

/-- After a call behind one that made a process, the first number is missing. -/
theorem not_represents_of_later {before : List Call} {call next : Call} {p : Proc}
    (hforked : call.forked ≠ [])
    (h : (before ++ [call, next]).foldlM (forker t) (start self) = .ok p) :
    ¬Represents p.globals ((before ++ [call, next]).flatMap Call.forked) := by
  intro hrepresents
  rw [List.foldlM_append] at h
  obtain ⟨q, hq, h⟩ := exists_of_bind_eq_ok h
  rw [List.foldlM_cons] at h
  obtain ⟨r, hr, h⟩ := exists_of_bind_eq_ok h
  rw [List.foldlM_cons] at h
  obtain ⟨r', hr', h⟩ := exists_of_bind_eq_ok h
  obtain rfl := Except.ok.inj h
  obtain ⟨hqnpids, hqint⟩ :=
    npids_of_calls (p := start self) (Int.le_refl 0) (show InInt32 0 from ⟨by decide, by decide⟩) hq
  have hzero : (start self).globals.npids = 0 := rfl
  obtain ⟨hrnpids, hrint, -⟩ := forker_spec (by omega) hqint hr
  have hmade : 0 < call.forked.length := List.length_pos_iff.mpr hforked
  obtain ⟨-, -, hentry⟩ := forker_spec (by omega) hrint hr'
  cases hpids : (before ++ [call, next]).flatMap Call.forked with
  | nil =>
    have hnone := List.flatMap_eq_nil_iff.mp hpids call (by simp)
    exact hforked hnone
  | cons pid pids =>
    have hmem : pid ∈ (before ++ [call, next]).flatMap Call.forked := by
      rw [hpids]
      exact List.mem_cons_self
    obtain ⟨c, -, hc⟩ := List.mem_flatMap.mp hmem
    have hpos : 0 < pid := pos_of_mem_forkedFrom hc
    rw [hpids] at hrepresents
    have hfirst := hrepresents.first_eq.symm.trans (hentry (by omega))
    have hpid : pid = 0 := Option.some.inj hfirst
    omega

/-- **The table** is kept after each of the calls if and only if none of them is made after one that
made a process. -/
theorem keepsPids_iff (t : Texts) (self : ℤ) (calls : List Call) :
    KeepsPids t self calls ↔ ∀ c ∈ calls.dropLast, c.forked = [] := by
  obtain rfl | ⟨calls, last, rfl⟩ := List.eq_nil_or_concat' calls
  · refine iff_of_true (fun before hbefore => ?_) (fun c hc => absurd hc List.not_mem_nil)
    obtain rfl := List.prefix_nil.mp hbefore
    exact ⟨start self, rfl, (holds_start self).represents⟩
  rw [List.dropLast_concat]
  constructor
  · intro h c hc
    by_contra hforked
    obtain ⟨before, after, rfl⟩ := List.append_of_mem hc
    obtain ⟨next, rest, hnext⟩ : ∃ next rest, after ++ [last] = next :: rest :=
      List.exists_cons_of_ne_nil (by simp)
    obtain ⟨p, hp, hrepresents⟩ := h (before ++ [c, next]) ⟨rest, by simp [← hnext]⟩
    exact not_represents_of_later hforked hp hrepresents
  · intro h before hbefore
    obtain rfl | hearlier := List.prefix_concat_iff.mp hbefore
    · obtain ⟨p, hp, hholds⟩ := exists_holds_of_forall (t := t) (holds_start self) h
      obtain ⟨p', hp', hholds'⟩ := hholds.forker (t := t) last
      refine ⟨p', ?_, ?_⟩
      · rw [List.foldlM_append, hp]
        exact (bind_pure _).trans hp'
      · rw [List.flatMap_append, List.flatMap_eq_nil_iff.mpr h]
        simpa using hholds'.represents
    · have hnone : ∀ c ∈ before, c.forked = [] := fun c hc => h c (hearlier.subset hc)
      obtain ⟨p, hp, hholds⟩ := exists_holds_of_forall (t := t) (holds_start self) hnone
      refine ⟨p, hp, ?_⟩
      rw [List.flatMap_eq_nil_iff.mpr hnone]
      exact hholds.represents

end Keeps

/-- The call `forker(2, 0, prefix)`, with the number of the process that it makes. -/
def copy (pid : Pid) : Call where
  ncopies := ⟨2, by decide, by decide⟩
  fork _ := .ok pid

/-- Without a prefix there are no messages. -/
def quiet : Texts where
  pre := none
  file := "forker.c".toList
  strerror _ := []

/-- After a second call the number of the first process is missing. -/
theorem twice_not_keepsPids :
    ¬KeepsPids quiet 100 [copy ⟨101, by decide⟩, copy ⟨102, by decide⟩] := by
  intro h
  obtain ⟨p, hp, hrepresents⟩ := h _ (List.prefix_refl _)
  exact @not_represents_of_later quiet 100 [] (copy ⟨101, by decide⟩) (copy ⟨102, by decide⟩) p
    (List.cons_ne_nil _ _) hp hrepresents

end Forker

end SnowballLtp
