import SnowballLtp.Ltp.ParseOpts
import SnowballLtp.Machine.Loop

/-!
# The loop of a test program

A test program runs its test in `for (lc = 0; TEST_LOOPING(lc); lc++)`. `usc_test_looping` goes on
while any of three conditions holds: the loop is infinite, the count is not reached, or the stop
time is not reached. The stop time is computed in the first call, from a clock that is kept in 32
bits of microseconds and comes round after 71 minutes.

## Main definitions

* `uscTestLooping`: a call, with the variables that it keeps from one call to the next.
* `Timed`, `CountsLast`: what the duration and the last count should do.

## Main results

* `uscTestLooping_timed_iff`: the duration.
* `run_parseOpts_counts`: the variables after a command line of counts.
* `countsLast_iff`: the loop after such a command line.
-/

namespace SnowballLtp

namespace ParseOpts

/-! ### A call -/

/-- `struct timeval`. -/
structure Timeval where
  tvSec : ℤ
  tvUsec : ℤ

/-- `USECS_PER_SEC`. -/
def usecsPerSec : ℤ := 1000000

/-- The true time in microseconds. -/
def Timeval.micros (t : Timeval) : ℤ := t.tvSec * usecsPerSec + t.tvUsec

/-- `get_timepersec`. -/
def getTimepersec : ℤ := usecsPerSec

/-- `get_current_time`, of what `gettimeofday` stores. -/
def getCurrentTime (t : Timeval) : ℤ := int32 (t.tvSec * usecsPerSec + t.tvUsec)

/-- The static variables of `usc_test_looping`, and how often the clock was read. -/
structure Statics where
  firstTime : Bool
  stopTime : ℤ
  delay : ℤ
  tick : ℕ
  deriving DecidableEq, Repr

def Statics.initial : Statics := { firstTime := true, stopTime := 0, delay := 0, tick := 0 }

variable {F : Type} (floats : Floats F) (std : Std F) (clock : ℕ → Timeval)

/-- The first call computes the stop time and the delay. -/
def firstCall (st : Statics) : Statics :=
  let hertz := if floats.isZero std.loopDelay ∧ floats.isZero std.loopDuration then 0
    else getTimepersec
  let st := { st with firstTime := false }
  let st :=
    if floats.isZero std.loopDuration then st
    else
      let ct := getCurrentTime (clock st.tick)
      { st with stopTime := int32 (floats.clocks hertz std.loopDuration + ct), tick := st.tick + 1 }
  if floats.isZero std.loopDelay then st
  else { st with delay := floats.clocks hertz std.loopDelay }

/-- A pass of the loop that waits for the end of the delay: the current time and the clock. -/
def delayPass (finish : ℤ) (s : ℤ × ℕ) : (ℤ × ℕ) ⊕ ℕ :=
  if s.1 < finish then .inl (getCurrentTime (clock s.2), s.2 + 1) else .inr s.2

/-- The other calls wait. -/
def laterCall (fuel : ℕ) (st : Statics) : Option Statics :=
  if floats.isZero std.loopDelay then some st
  else
    let ct := getCurrentTime (clock st.tick)
    (iterate (delayPass clock (int32 (ct + st.delay))) fuel (ct, st.tick + 1)).map fun tick =>
      { st with tick }

/-- The conditions to go on, one after the other. -/
def keepGoing (counter : ℤ) (st : Statics) : ℤ × Statics :=
  let keepgoing := (if std.infinite ≠ 0 then 1 else 0) +
    if std.loopCount ≠ 0 ∧ counter < std.loopCount then 1 else 0
  if floats.isZero std.loopDuration then (keepgoing, st)
  else
    (keepgoing + if getCurrentTime (clock st.tick) < st.stopTime then 1 else 0,
      { st with tick := st.tick + 1 })

/-- `usc_test_looping`. -/
def uscTestLooping (fuel : ℕ) (counter : ℤ) (st : Statics) : Option (ℤ × Statics) :=
  let st := if st.firstTime then some (firstCall floats std clock st)
    else laterCall floats std clock fuel st
  st.map fun st =>
    let (keepgoing, st) := keepGoing floats std clock counter st
    (if keepgoing = 0 then 0 else 1, st)

/-- Some calls, one after the other. -/
def callAll (fuel : ℕ) : List ℤ → Statics → Option Statics
  | [], st => some st
  | counter :: counters, st =>
    match uscTestLooping floats std clock fuel counter st with
    | some (_, st) => callAll fuel counters st
    | none => none

/-! ### The loop -/

/-- The loop of a test: its counter, the variables of `usc_test_looping`, and how often the test was
run. -/
structure LoopState where
  lc : ℤ
  statics : Statics
  runs : ℕ

/-- A pass of the loop. There is no result when a delay takes more passes than `wait`. -/
def testPass (wait : ℕ) (s : LoopState) : LoopState ⊕ Option ℕ :=
  match uscTestLooping floats std clock wait s.lc s.statics with
  | none => .inr none
  | some (ret, statics) =>
    if ret ≠ 0 then .inl { lc := int32 (s.lc + 1), statics, runs := s.runs + 1 }
    else .inr (some s.runs)

/-- `for (lc = 0; TEST_LOOPING(lc); lc++)`: the number of times that the test is run. -/
def testLoop (wait fuel : ℕ) : Option (Option ℕ) :=
  iterate (testPass floats std clock wait) fuel { lc := 0, statics := .initial, runs := 0 }

/-- The loop should run the test as often as the last count says, and without end for the count
zero. -/
def CountsLast (wait last : ℕ) : Prop :=
  (1 ≤ last → ∃ fuel, testLoop floats std clock wait fuel = some (some last)) ∧
    (last = 0 → ∀ fuel, testLoop floats std clock wait fuel = none)

variable {floats std clock} {fuel : ℕ} {counter : ℤ} {st : Statics}

/-! ### The duration -/

/-- A test with a duration and without a delay. -/
structure IsTimed (floats : Floats F) (std : Std F) : Prop where
  noDelay : floats.isZero std.loopDelay = true
  duration : floats.isZero std.loopDuration = false

variable (clock) in
/-- The first call keeps the time at which the test should stop. -/
theorem firstCall_of_isTimed (h : IsTimed floats std) :
    firstCall floats std clock .initial =
      { firstTime := false,
        stopTime := int32 (floats.clocks usecsPerSec std.loopDuration + getCurrentTime (clock 0)),
        delay := 0, tick := 1 } := by
  simp [firstCall, h.noDelay, h.duration, Statics.initial, getTimepersec]

variable (clock fuel counter) in
/-- Every other call reads the clock once. -/
theorem uscTestLooping_of_isTimed (h : IsTimed floats std) (hst : st.firstTime = false) :
    ∃ ret, uscTestLooping floats std clock fuel counter st =
      some (ret, { st with tick := st.tick + 1 }) := by
  simp [uscTestLooping, hst, laterCall, h.noDelay, keepGoing, h.duration]

/-- Calls after the first one only read the clock. -/
theorem callAll_of_isTimed (h : IsTimed floats std) (counters : List ℤ)
    (hst : st.firstTime = false) :
    callAll floats std clock fuel counters st =
      some { st with tick := st.tick + counters.length } := by
  induction counters generalizing st with
  | nil => rfl
  | cons counter counters ih =>
    obtain ⟨ret, hcall⟩ := uscTestLooping_of_isTimed clock fuel counter h hst
    have hrest : callAll floats std clock fuel counters { st with tick := st.tick + 1 } =
        some { st with tick := st.tick + 1 + counters.length } :=
      ih hst
    have htick : st.tick + 1 + counters.length = st.tick + (counters.length + 1) := by omega
    rw [callAll, hcall]
    dsimp only
    rw [hrest, htick, List.length_cons]

/-- What a call should return for a duration `d` after the start: whether the time is not over. -/
def Timed (start d now ret : ℤ) : Prop := (now < start + d → ret = 1) ∧ (start + d ≤ now → ret = 0)

/-- A call that compares the time in some way. -/
private theorem timed_ite_iff {start d now : ℤ} {p : Prop} [Decidable p] :
    Timed start d now (if p then 1 else 0) ↔ (p ↔ now < start + d) := by
  rw [Timed]
  split
  · next hp => simp [hp]
  · next hp => simp [hp]

/-- A call that only looks at the time. -/
theorem uscTestLooping_eq_of_isTimed (h : IsTimed floats std) (hinf : std.infinite = 0)
    (hcounter : std.loopCount ≤ counter) (hst : st.firstTime = false) :
    uscTestLooping floats std clock fuel counter st =
      some (if getCurrentTime (clock st.tick) < st.stopTime then 1 else 0,
        { st with tick := st.tick + 1 }) := by
  have hcount : ¬(std.loopCount ≠ 0 ∧ counter < std.loopCount) := by omega
  simp only [uscTestLooping, hst, laterCall, h.noDelay, keepGoing, h.duration, hinf, if_neg hcount]
  by_cases hlt : getCurrentTime (clock st.tick) < st.stopTime <;> simp [hlt, hst]

/-- The variables after the first call and `n` others, for a stop time. -/
def Statics.timed (stop : ℤ) (n : ℕ) : Statics :=
  { firstTime := false, stopTime := int32 stop, delay := 0, tick := 2 + n }

variable (clock fuel counter) in
/-- The first call starts the time. -/
theorem uscTestLooping_initial (h : IsTimed floats std) :
    ∃ ret, uscTestLooping floats std clock fuel counter .initial = some (ret,
      .timed ((clock 0).micros + floats.clocks usecsPerSec std.loopDuration) 0) := by
  have hfirst : Statics.initial.firstTime = true := rfl
  have hcall := firstCall_of_isTimed clock h
  rw [getCurrentTime, int32_add_int32, Int.add_comm] at hcall
  simp only [uscTestLooping, hfirst, if_true, hcall, Option.map_some, keepGoing, h.duration,
    Bool.false_eq_true, if_false]
  exact ⟨_, rfl⟩

/-- **The duration.** After the first call and any others, a call that is made less than half a
round of the clock after the start returns what it should just when the clock does not come round
between the time of the call and the time at which the test should stop. -/
theorem uscTestLooping_timed_iff (floats : Floats F) (std : Std F) (clock : ℕ → Timeval) (fuel : ℕ)
    (first counter : ℤ) (counters : List ℤ) (h : IsTimed floats std) (hinf : std.infinite = 0)
    (hpos : 0 < floats.clocks usecsPerSec std.loopDuration)
    (hlt : floats.clocks usecsPerSec std.loopDuration < 2147483648)
    (hcounter : std.loopCount ≤ counter) :
    ∃ ret₀ st₀ st ret st', uscTestLooping floats std clock fuel first .initial = some (ret₀, st₀) ∧
      callAll floats std clock fuel counters st₀ = some st ∧
      uscTestLooping floats std clock fuel counter st = some (ret, st') ∧
      ∀ start now, start = (clock 0).micros → now = (clock st.tick).micros → start ≤ now →
        now < start + 2147483648 →
        (Timed start (floats.clocks usecsPerSec std.loopDuration) now ret ↔
          rounds now = rounds (start + floats.clocks usecsPerSec std.loopDuration)) := by
  obtain ⟨ret₀, hfirst⟩ := uscTestLooping_initial clock fuel first h
  set stop := (clock 0).micros + floats.clocks usecsPerSec std.loopDuration
  have hall : callAll floats std clock fuel counters (.timed stop 0) =
      some (.timed stop counters.length) := callAll_of_isTimed h counters rfl
  have hlast : uscTestLooping floats std clock fuel counter (.timed stop counters.length) = _ :=
    uscTestLooping_eq_of_isTimed h hinf hcounter rfl
  refine ⟨ret₀, _, _, _, _, hfirst, hall, hlast, ?_⟩
  rintro start now rfl rfl hle hbefore
  rw [← int32_lt_int32_iff (by omega) (by omega)]
  exact timed_ite_iff

/-- A duration of a millisecond. -/
def millisecond : Std ℤ := { Std.initial microseconds with loopDuration := 1000 }

theorem uscTestLooping_timed_iff_millisecond :
    ∃ ret₀ st₀ st ret st',
      uscTestLooping microseconds millisecond (fun n => ⟨n, 0⟩) 0 0 .initial = some (ret₀, st₀) ∧
      callAll microseconds millisecond (fun n => ⟨n, 0⟩) 0 [1, 2] st₀ = some st ∧
      uscTestLooping microseconds millisecond (fun n => ⟨n, 0⟩) 0 3 st = some (ret, st') ∧
      ∀ start now, start = (Timeval.mk 0 0).micros → now = (Timeval.mk st.tick 0).micros →
        start ≤ now → now < start + 2147483648 →
        (Timed start (microseconds.clocks usecsPerSec millisecond.loopDuration) now ret ↔
          rounds now = rounds (start + microseconds.clocks usecsPerSec millisecond.loopDuration)) :=
  uscTestLooping_timed_iff microseconds millisecond (fun n => ⟨n, 0⟩) 0 0 3 [1, 2]
    ⟨by decide, by decide⟩ (by decide) (by decide) (by decide) (by decide)

/-- A time half a millisecond before the clock comes round. -/
def beforeRound : Timeval := { tvSec := 1400002572, tvUsec := 189196 }

/-- A test of a millisecond that starts then is over at once. -/
theorem beforeRound_not_timed :
    ∃ st₀ st, uscTestLooping microseconds millisecond (fun _ => beforeRound) 0 0 .initial =
        some (1, st₀) ∧
      uscTestLooping microseconds millisecond (fun _ => beforeRound) 0 1 st₀ = some (0, st) ∧
      ¬Timed beforeRound.micros (microseconds.clocks usecsPerSec millisecond.loopDuration)
        beforeRound.micros 0 := by
  refine ⟨⟨false, -2147483148, 0, 2⟩, ⟨false, -2147483148, 0, 3⟩, by decide, by decide, ?_⟩
  exact fun h => absurd (h.1 (by decide)) (by decide)

/-! ### A command line of counts -/

/-- The words of a command line whose options are `-i n` for the numbers of a list, each with its
number in the same word or in the next one, among words that are no options. -/
inductive Counts : List (List Char) → List ℕ → Prop
  | nil : Counts [] []
  | operand {words ns} (word : List Char) (h : word.head? ≠ some '-') (hwords : Counts words ns) :
    Counts (word :: words) ns
  | separate {words ns} (n : ℕ) (hwords : Counts words ns) :
    Counts (['-', 'i'] :: decimal n :: words) (n :: ns)
  | attached {words ns} (n : ℕ) (hwords : Counts words ns) :
    Counts (('-' :: 'i' :: decimal n) :: words) (n :: ns)

/-- The option of a count. -/
def countOption (n : ℕ) : Getopt := ⟨some 'i', some (decimal n)⟩

theorem getopt_counts {words : List (List Char)} {ns : List ℕ} (h : Counts words ns)
    (uclinux : Bool) (table : List UserOption) :
    getoptFrom (optionString uclinux table) [] words = ns.map countOption := by
  have hmem : 'i' ∈ optionString uclinux table :=
    List.mem_append_left _ (by cases uclinux <;> decide)
  have harg : TakesArgument (optionString uclinux table) 'i' := by cases uclinux <;> rfl
  induction h with
  | nil => rw [getoptFrom, List.map_nil]
  | operand word h _ ih => rw [getopt_operand h, ih]
  | separate n _ ih =>
    rw [getopt_word (by decide) (by decide) hmem harg, ih, List.map_cons, countOption]
  | attached n _ ih =>
    rw [getopt_attached (by decide) (by decide) hmem harg (decimal_ne_nil n), ih, List.map_cons,
      countOption]

/-- What an option `-i n` does to the variables. -/
def Std.count (std : Std F) (n : ℕ) : Std F :=
  { std with
    loopCount := atoi (decimal n), infinite := if atoi (decimal n) = 0 then 1 else std.infinite }

section Counting

variable {uclinux : Bool} {user : Option (List UserOption)}

theorem run_handleOption_count (n : ℕ) (s : State F) :
    (handleOption floats uclinux user 'i' (some (decimal n))).run s =
      .ok () { s with options := s.options ||| optIteration, std := s.std.count n } := by
  rw [handleOption, if_neg (by decide), if_neg (by decide), if_pos rfl]
  rfl

variable (floats uclinux user) in
theorem run_optionLoop_counts (ns : List ℕ) (s : State F) :
    ∃ options, (optionLoop floats uclinux user (ns.map countOption)).run s =
      .ok () { s with options, std := ns.foldl Std.count s.std } := by
  induction ns generalizing s with
  | nil => exact ⟨s.options, rfl⟩
  | cons n ns ih =>
    obtain ⟨options, hrun⟩ :=
      ih { s with options := s.options ||| optIteration, std := s.std.count n }
    refine ⟨options, ?_⟩
    rw [List.map_cons, countOption, optionLoop]
    exact (run_bind_of_ok (run_handleOption_count n s)).trans hrun

/-- The variables of the environment that stand for options. -/
def environmentNames : List String :=
  ["USC_ITERATIONS", "USC_NO_FUNC_CHECK", "USC_LOOP_WALLTIME", "USC_DURATION", "USC_LOOP_DELAY",
    "USC_COPIES"]

theorem run_environment_of_unset {getenv : String → Option (List Char)}
    (h : ∀ name ∈ environmentNames, getenv name = none) (s : State F) :
    (environment floats getenv).run s = .ok () s := by
  simp only [environmentNames, List.forall_mem_cons, List.not_mem_nil] at h
  obtain ⟨h₁, h₂, h₃, h₄, h₅, h₆, -⟩ := h
  rw [environment, h₁, h₂, h₃, h₄, h₅, h₆]
  rfl

variable (floats uclinux) in
/-- The variables after a command line of counts. -/
theorem run_parseOpts_counts (haccepted : Accepted (user.getD []))
    {getenv : String → Option (List Char)} (hgetenv : ∀ name ∈ environmentNames, getenv name = none)
    {words : List (List Char)} {ns : List ℕ} (hwords : Counts words ns) (prog : List Char)
    (s : State F) :
    ∃ options, (parseOpts floats uclinux user true getenv (getopt (prog :: words))).run s =
      .ok () { s with options, std := ns.foldl Std.count s.std } := by
  obtain ⟨options, hloop⟩ := run_optionLoop_counts floats uclinux user ns { s with options := 0 }
  refine ⟨options, ?_⟩
  rw [parseOpts, run_bind_of_ok (EStateM.run_modify _ _), makeOptionString_eq haccepted, if_pos rfl]
  dsimp only
  rw [getopt, List.tail_cons, getopt_counts hwords]
  exact (run_bind_of_ok hloop).trans (run_environment_of_unset hgetenv _)

end Counting

/-! ### The loop after a command line of counts -/

/-- A test without a duration and without a delay. -/
structure IsUntimed (floats : Floats F) (std : Std F) : Prop where
  noDelay : floats.isZero std.loopDelay = true
  noDuration : floats.isZero std.loopDuration = true

section Untimed

variable (clock) (wait : ℕ)

theorem uscTestLooping_of_isUntimed (h : IsUntimed floats std) :
    uscTestLooping floats std clock fuel counter st =
      some (if std.infinite ≠ 0 ∨ std.loopCount ≠ 0 ∧ counter < std.loopCount then 1 else 0,
        { st with firstTime := false }) := by
  have hcall : (if st.firstTime then some (firstCall floats std clock st)
      else laterCall floats std clock fuel st) = some { st with firstTime := false } := by
    split
    · simp [firstCall, h.noDelay, h.noDuration]
    · next hfirst => rw [laterCall, if_pos h.noDelay, ← Bool.eq_false_iff.mpr hfirst]
  rw [uscTestLooping, hcall, Option.map_some, keepGoing, if_pos h.noDuration]
  by_cases hinf : std.infinite ≠ 0 <;>
    by_cases hcount : std.loopCount ≠ 0 ∧ counter < std.loopCount <;> simp [hinf, hcount]

/-- A loop that is infinite does not end. -/
theorem testLoop_eq_none (h : IsUntimed floats std) (hinf : std.infinite ≠ 0) (fuel : ℕ) :
    testLoop floats std clock wait fuel = none := by
  refine iterate_eq_none (fun _ => True) (fun s _ => ?_) fuel trivial
  rw [testPass, uscTestLooping_of_isUntimed clock h, if_pos (.inl hinf)]
  exact ⟨_, rfl, trivial⟩

/-- A loop that is not infinite runs the test as often as the count says. -/
theorem exists_testLoop (h : IsUntimed floats std) (hinf : std.infinite = 0)
    (hle : std.loopCount ≤ 2147483647) :
    ∃ fuel, testLoop floats std clock wait fuel = some (some std.loopCount.toNat) := by
  have hpass (s : LoopState) (hs : s.lc = s.runs ∧ s.runs ≤ std.loopCount.toNat) :
      (∃ s', testPass floats std clock wait s = .inl s' ∧
        (s'.lc = s'.runs ∧ s'.runs ≤ std.loopCount.toNat) ∧
        std.loopCount.toNat - s'.runs < std.loopCount.toNat - s.runs) ∨
      ∃ r, testPass floats std clock wait s = .inr r ∧ r = some std.loopCount.toNat := by
    obtain ⟨hlc, hruns⟩ := hs
    rw [testPass, uscTestLooping_of_isUntimed clock h]
    by_cases hcount : s.lc < std.loopCount
    · have hgo : std.infinite ≠ 0 ∨ std.loopCount ≠ 0 ∧ s.lc < std.loopCount :=
        .inr ⟨by omega, hcount⟩
      have hkeep : int32 (s.lc + 1) = s.lc + 1 := int32_eq_self ⟨by omega, by omega⟩
      rw [if_pos hgo, hkeep]
      refine .inl ⟨_, rfl, ⟨?_, ?_⟩, ?_⟩ <;> dsimp only <;> omega
    · have hstop : ¬(std.infinite ≠ 0 ∨ std.loopCount ≠ 0 ∧ s.lc < std.loopCount) := by omega
      rw [if_neg hstop]
      refine .inr ⟨_, rfl, congrArg some ?_⟩
      omega
  obtain ⟨r, hrun, rfl⟩ := iterate_of_measure _ _ _ hpass
    (s := { lc := 0, statics := .initial, runs := 0 }) ⟨rfl, Nat.zero_le _⟩ (Nat.lt_succ_self _)
  exact ⟨_, hrun⟩

end Untimed

/-- What a loop that ends should have done. -/
private theorem countsLast_of_testLoop {wait last runs : ℕ}
    (hloop : testLoop floats std clock wait fuel = some (some runs)) (hpos : 1 ≤ last) :
    CountsLast floats std clock wait last ↔ runs = last := by
  constructor
  · rintro ⟨hruns, -⟩
    obtain ⟨fuel', hloop'⟩ := hruns hpos
    exact Option.some.inj (iterate_unique hloop hloop')
  · rintro rfl
    exact ⟨fun _ => ⟨fuel, hloop⟩, fun h => absurd h (Nat.ne_of_gt hpos)⟩

/-- The count of the last option is left. -/
theorem loopCount_foldl_count (ns : List ℕ) (std : Std F) :
    (ns.foldl Std.count std).loopCount =
      (ns.getLast?.map fun n : ℕ => atoi (decimal n)).getD std.loopCount := by
  induction ns generalizing std with
  | nil => rfl
  | cons n ns ih =>
    rw [List.foldl_cons, ih, List.getLast?_cons]
    cases ns.getLast? <;> rfl

/-- One count that is read as zero is enough for an infinite loop. -/
theorem infinite_foldl_count (ns : List ℕ) (std : Std F) :
    (ns.foldl Std.count std).infinite = 0 ↔
      std.infinite = 0 ∧ ∀ n ∈ ns, atoi (decimal (n : ℕ)) ≠ 0 := by
  induction ns generalizing std with
  | nil => simp
  | cons n ns ih =>
    rw [List.foldl_cons, ih, List.forall_mem_cons, Std.count]
    by_cases hzero : atoi (decimal n) = 0 <;> simp [hzero]

/-- Counts leave the duration and the delay. -/
theorem isUntimed_foldl_count (ns : List ℕ) (h : IsUntimed floats std) :
    IsUntimed floats (ns.foldl Std.count std) := by
  induction ns generalizing std with
  | nil => exact h
  | cons n ns ih => exact ih ⟨h.noDelay, h.noDuration⟩

theorem isUntimed_initial (floats : Floats F) : IsUntimed floats (Std.initial floats) :=
  ⟨floats.isZero_zero, floats.isZero_zero⟩

/-- A positive count is read as it is just when it is a value of type `int`. -/
theorem toNat_atoi_decimal_eq_iff {n : ℕ} (hpos : 1 ≤ n) :
    (atoi (decimal n)).toNat = n ↔ n ≤ 2147483647 := by
  rw [atoi_decimal]
  constructor
  · intro h
    have hlt : int32 (clampLong n) ≤ 2147483647 := by
      rw [int32]
      omega
    omega
  · intro h
    have hint : InInt32 n := ⟨by omega, by omega⟩
    rw [clampLong_eq_self hint, int32_eq_self hint, Int.toNat_natCast]

/-- **The last count.** A command line of counts is accepted, and the loop runs the test as often as
the last one says just when it is zero, or when it is a value of type `int` and no count is read as
zero. -/
theorem countsLast_iff (floats : Floats F) (uclinux : Bool) (user : Option (List UserOption))
    (haccepted : Accepted (user.getD [])) (getenv : String → Option (List Char))
    (hgetenv : ∀ name ∈ environmentNames, getenv name = none) (prog : List Char)
    (words : List (List Char)) (ns : List ℕ) (hwords : Counts words ns) (hne : ns ≠ [])
    (s : State F) (hs : s.std = .initial floats) (clock : ℕ → Timeval) (wait : ℕ) :
    ∃ s', (parseOpts floats uclinux user true getenv (getopt (prog :: words))).run s = .ok () s' ∧
      (CountsLast floats s'.std clock wait (ns.getLast hne) ↔
        ns.getLast hne = 0 ∨
          ns.getLast hne ≤ 2147483647 ∧ ∀ n ∈ ns, atoi (decimal (n : ℕ)) ≠ 0) := by
  obtain ⟨options, hrun⟩ := run_parseOpts_counts floats uclinux haccepted hgetenv hwords prog s
  refine ⟨_, hrun, ?_⟩
  dsimp only
  rw [hs]
  have huntimed := isUntimed_foldl_count ns (isUntimed_initial floats)
  have hcount := loopCount_foldl_count ns (Std.initial floats)
  have hinf := infinite_foldl_count ns (Std.initial floats)
  rw [List.getLast?_eq_some_getLast hne, Option.map_some, Option.getD_some] at hcount
  have hzero : (∀ n ∈ ns, atoi (decimal (n : ℕ)) ≠ 0) → ns.getLast hne ≠ 0 := fun h hlast =>
    h 0 (hlast ▸ List.getLast_mem hne) (by decide)
  generalize ns.foldl Std.count (.initial floats) = std at huntimed hcount hinf ⊢
  by_cases hread : ∀ n ∈ ns, atoi (decimal (n : ℕ)) ≠ 0
  · have hpos : 1 ≤ ns.getLast hne := Nat.pos_of_ne_zero (hzero hread)
    have hint : InInt32 std.loopCount := by
      rw [hcount]
      exact inInt32_atoi _
    obtain ⟨fuel, hloop⟩ := exists_testLoop clock wait huntimed
      (hinf.mpr ⟨rfl, hread⟩) hint.2
    rw [hcount] at hloop
    rw [countsLast_of_testLoop hloop hpos, toNat_atoi_decimal_eq_iff hpos,
      or_iff_right (Nat.ne_of_gt hpos), and_iff_left hread]
  · have hloop := testLoop_eq_none clock wait huntimed fun h =>
      hread (hinf.mp h).2
    simp [CountsLast, hloop, hread]

/-- The variables at the start of a program, and nothing else. -/
def atStart : State ℤ := ⟨.initial microseconds, 0, fun _ => 0, fun _ => none⟩

theorem countsLast_iff_threeSeven :
    ∃ s', (parseOpts microseconds false none true (fun _ => none)
        (getopt [[], ['-', 'i'], ['3'], ['f'], ['-', 'i', '7']])).run atStart = .ok () s' ∧
      (CountsLast microseconds s'.std (fun _ => ⟨0, 0⟩) 0 ([3, 7].getLast (by decide)) ↔
        [3, 7].getLast (by decide) = 0 ∨ [3, 7].getLast (by decide) ≤ 2147483647 ∧
          ∀ n ∈ [3, 7], atoi (decimal (n : ℕ)) ≠ 0) :=
  countsLast_iff microseconds false none (by decide) (fun _ => none) (fun _ _ => rfl) []
    [['-', 'i'], ['3'], ['f'], ['-', 'i', '7']] [3, 7]
    (.separate 3 (.operand ['f'] (by decide) (.attached 7 .nil))) (by decide) atStart rfl _ 0

/-- The count five after the count zero. -/
theorem zeroFive_not_countsLast :
    ∃ s', (parseOpts microseconds false none true (fun _ => none)
        (getopt [[], ['-', 'i'], ['0'], ['-', 'i'], ['5']])).run atStart = .ok () s' ∧
      ∀ clock wait, ¬CountsLast microseconds s'.std clock wait 5 := by
  have hwords : Counts [['-', 'i'], ['0'], ['-', 'i'], ['5']] [0, 5] :=
    .separate 0 (.separate 5 .nil)
  have hempty : Accepted (none.getD []) := by decide
  obtain ⟨options, hrun⟩ :=
    run_parseOpts_counts microseconds false hempty (fun _ _ => rfl) hwords [] atStart
  refine ⟨_, hrun, fun clock wait h => ?_⟩
  obtain ⟨fuel, hloop⟩ := h.1 (by decide)
  have huntimed := isUntimed_foldl_count [0, 5] (isUntimed_initial microseconds)
  cases hloop.symm.trans (testLoop_eq_none clock wait huntimed (by decide) fuel)

end ParseOpts

end SnowballLtp
