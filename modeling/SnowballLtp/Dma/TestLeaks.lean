import SnowballLtp.Dma.TestErrors

/-!
# What the test cases give back

A read of a debugfs file that returns leaves the module with the workqueues and channels that it
held before, and gives back what it has taken exactly once, unless it loses its workqueue for want
of a channel (`tcBuflistTest_inv`) or its channel behind a failed comparison (`tc22To25_inv`).

## Main definitions

* `Settles`: a piece of a test case that gives back what it takes.
* `TestRead.Leaks`, `SettledReads`.

## Main results

* `settles_tcRunParallel`, `settles_tcPauseAndUnpauseParallel`, `settles_tcRunWhileReadReg`,
  `settles_tcLinkCore`, `settles_d40TestCase`: every other test case gives back what it takes.
* `settledReads_iff`: along every run exactly the leaking reads are not settled.
-/

namespace SnowballLtp.Dma.TestResources

open SnowballLtp.StateT

variable {α β : Type} {a : Answers} {cfg : KernelConfig} {s : Holding Resource}
  {own : List (Handle Resource)} {t u : TestModule}

/-! ### What gives back what it takes -/

/-- When the piece of a test case ends, it has given back what it has taken. -/
def Settles (m : TestCase α) : Prop :=
  ∀ ⦃s : Holding Resource⦄ ⦃own t x u⦄, m t = some (x, u) → s.GrownBy own t.held →
    s.GrownBy own u.held

theorem settles_pure (x : α) : Settles (pure x : TestCase α) := fun _ _ _ _ _ h hg =>
  (pure_inv h).2 ▸ hg

theorem settles_oops : Settles (oops : TestCase α) := fun _ _ _ _ _ h =>
  absurd h (Option.some_ne_none _).symm

theorem Settles.bind {m : TestCase α} {f : α → TestCase β} (hm : Settles m)
    (hf : ∀ x, Settles (f x)) : Settles (m >>= f) := fun _ _ _ _ _ h hg => by
  obtain ⟨x, v, hv, h⟩ := bind_inv h
  exact hf x h (hm hv hg)

theorem Settles.ite {c : Prop} [Decidable c] {m m' : TestCase α} (hm : Settles m)
    (hm' : Settles m') : Settles (if c then m else m') := by
  split
  · exact hm
  · exact hm'

theorem settles_forM {f : α → TestCase PUnit} (hf : ∀ x, Settles (f x)) (l : List α) :
    Settles (l.forM f) := by
  induction l with
  | nil => exact settles_pure _
  | cons x l ih => exact (hf x).bind fun _ => ih

theorem settles_mapM {f : α → TestCase β} (hf : ∀ x, Settles (f x)) (l : List α) :
    Settles (l.mapM f) := by
  induction l with
  | nil => exact settles_pure _
  | cons x l ih =>
    rw [List.mapM_cons]
    exact (hf x).bind fun y => ih.bind fun ys => settles_pure _

theorem settles_queueWork (wq : Option (Handle Resource)) : Settles (queueWork wq) :=
  fun _ _ _ _ _ h hg => (queueWork_inv h).1 ▸ hg

theorem settles_waitForCompletion : Settles (waitForCompletion a) := fun _ _ _ _ _ h hg =>
  waitForCompletion_inv h ▸ hg

theorem settles_compareData (err : ℤ) : Settles (compareData a err) := fun _ _ _ _ _ h hg => by
  obtain ⟨rfl, -⟩ := compareData_inv h
  exact hg

theorem settles_runEngines (tcs : List TcHandles) : Settles (runEngines a tcs) := by
  refine Settles.bind (settles_forM (fun tc => ?_) tcs) fun _ => ?_
  · exact settles_queueWork tc.wq
  · refine Settles.bind (settles_forM (fun _ => settles_waitForCompletion) tcs) fun _ => ?_
    exact settles_mapM (fun _ => settles_compareData _) tcs

/-- A test of one buffer list that does not look at the error returns with a channel only. -/
theorem settles_tcBuflistTest : Settles (tcBuflistTest a false) := fun _ _ _ _ _ h hg => by
  rcases tcBuflistTest_inv h hg with ⟨-, -, -, hg, -⟩ | ⟨hfalse, -⟩
  · exact hg
  · exact absurd hfalse Bool.false_ne_true

/-! ### Arrays of test engines -/

/-- What an engine has to give back. -/
def TcHandles.handles (tc : TcHandles) : List (Handle Resource) :=
  tc.wq.toList ++ tc.buflist.dmaChan.toList

/-- An engine that fails gives back what it has taken, and its list has no sizes. -/
theorem tcTestInit_inv {tc : TcHandles} (h : tcTestInit a t = some (tc, u))
    (hg : s.GrownBy own t.held) :
    tc.err = 0 ∧ s.GrownBy (tc.handles ++ own) u.held ∨
      tc.err ≠ 0 ∧ tc.buflist.sized = false ∧ s.GrownBy own u.held := by
  obtain ⟨wq, v, hv, h⟩ := bind_inv h
  obtain ⟨held₁, rfl, -, hg⟩ := createSinglethreadWorkqueue_inv hv hg
  cases wq with
  | none =>
    obtain ⟨rfl, rfl⟩ := pure_inv h
    exact Or.inr ⟨by simp [einval], rfl, hg⟩
  | some wq =>
    obtain ⟨⟨err, bf⟩, v, hv, h⟩ := bind_inv h
    obtain ⟨held₂, rfl, hg, hsized, hres⟩ := dmatestBuflistCreate_inv hv hg
    rcases hres with ⟨rfl, -⟩ | ⟨rfl, -, -, hnone⟩
    · obtain ⟨bf', v, hv, h⟩ := bind_inv h
      obtain ⟨rfl, -, rfl⟩ := dmatestSizelistSet_inv hv
      obtain ⟨_, v, hv, h⟩ := bind_inv h
      obtain ⟨rfl, -⟩ := forSizes_inv hv
      obtain ⟨rfl, rfl⟩ := pure_inv h
      refine Or.inl ⟨rfl, hg.perm ?_⟩
      rw [TcHandles.handles, List.append_assoc]
      exact List.perm_append_comm_assoc _ _ _
    · obtain ⟨_, v, hv, h⟩ := bind_inv h
      rw [hnone] at hg
      obtain ⟨held₃, rfl, hg⟩ := destroyWorkqueue_inv hv hg
      obtain ⟨rfl, rfl⟩ := pure_inv h
      exact Or.inr ⟨by simp [einval], hsized, hg⟩

/-- The engines that are set up have something to give back; the one that failed has not. -/
theorem initLoop_inv {n : ℕ} {tcs : List TcHandles} {failed : Option TcHandles}
    (h : initLoop a n t = some ((tcs, failed), u)) (hg : s.GrownBy own t.held) :
    s.GrownBy (tcs.flatMap TcHandles.handles ++ own) u.held ∧
      (failed = none ∧ tcs.length = n ∨ ∃ tc, failed = some tc ∧ tc.buflist.sized = false) := by
  induction n generalizing t own tcs failed with
  | zero =>
    obtain ⟨heq, rfl⟩ := pure_inv h
    obtain ⟨rfl, rfl⟩ := Prod.mk.inj heq
    exact ⟨hg, Or.inl ⟨rfl, rfl⟩⟩
  | succ n ih =>
    obtain ⟨tc, v, hv, h⟩ := bind_inv h
    rcases tcTestInit_inv hv hg with ⟨hzero, hg⟩ | ⟨hne, hsized, hg⟩
    · rw [if_neg (not_not.mpr hzero)] at h
      obtain ⟨⟨tcs', failed'⟩, v, hv, h⟩ := bind_inv h
      obtain ⟨heq, rfl⟩ := pure_inv h
      obtain ⟨rfl, rfl⟩ := Prod.mk.inj heq
      obtain ⟨hg, hrest⟩ := ih hv hg
      refine ⟨hg.perm ?_, hrest.imp (fun hr => ⟨hr.1, congrArg (· + 1) hr.2⟩) id⟩
      rw [List.flatMap_cons, List.append_assoc]
      exact List.perm_append_comm_assoc _ _ _
    · rw [if_pos hne] at h
      obtain ⟨heq, rfl⟩ := pure_inv h
      obtain ⟨rfl, rfl⟩ := Prod.mk.inj heq
      exact ⟨hg, Or.inr ⟨tc, rfl, hsized⟩⟩

theorem tcTestFree_inv {tc : TcHandles} {x : Unit} (h : tcTestFree tc t = some (x, u))
    (hg : s.GrownBy (tc.handles ++ own) t.held) :
    s.GrownBy own u.held ∧ tc.buflist.sized = true := by
  obtain ⟨_, v, hv, h⟩ := bind_inv h
  rw [TcHandles.handles, List.append_assoc] at hg
  obtain ⟨held, rfl, hg⟩ := destroyWorkqueue_inv hv hg
  obtain ⟨held, rfl, hg, hsized⟩ := dmatestBuflistDestroy_inv h hg
  exact ⟨hg, hsized⟩

/-- Freeing the engines gives back what they have. -/
theorem freeLoop_inv {tcs : List TcHandles} {x : PUnit} (h : tcs.forM tcTestFree t = some (x, u))
    (hg : s.GrownBy (tcs.flatMap TcHandles.handles ++ own) t.held) : s.GrownBy own u.held := by
  induction tcs generalizing t with
  | nil =>
    obtain ⟨-, rfl⟩ := pure_inv h
    exact hg
  | cons tc tcs ih =>
    obtain ⟨_, v, hv, h⟩ := bind_inv h
    rw [List.flatMap_cons, List.append_assoc] at hg
    exact ih h (tcTestFree_inv hv hg).1

/-- The end of the three tests that run an array of engines. -/
theorem runAndFree_inv {part tcs : List TcHandles} {err : ℤ}
    (h : (do
      let errs ← runEngines a part
      tcs.forM tcTestFree
      pure (errs.foldl orInt 0) : TestCase ℤ) t = some (err, u))
    (hg : s.GrownBy (tcs.flatMap TcHandles.handles ++ own) t.held) : s.GrownBy own u.held := by
  obtain ⟨errs, v, hv, h⟩ := bind_inv h
  obtain ⟨_, w, hw, h⟩ := bind_inv h
  obtain ⟨-, rfl⟩ := pure_inv h
  exact freeLoop_inv hw (settles_runEngines part hv hg)

/-- Two of them return early when there is no engine. -/
theorem settles_initRunFree (n : ℕ) (part : List TcHandles → List TcHandles) :
    Settles (do
      let (tcs, _) ← initLoop a n
      if tcs.isEmpty then pure (-einval)
      else
        let errs ← runEngines a (part tcs)
        tcs.forM tcTestFree
        pure (errs.foldl orInt 0)) := by
  intro s own t err u h hg
  obtain ⟨⟨tcs, failed⟩, v, hv, h⟩ := bind_inv h
  have hg := (initLoop_inv hv hg).1
  cases tcs with
  | nil =>
    obtain ⟨-, rfl⟩ := pure_inv h
    exact hg
  | cons tc tcs => exact runAndFree_inv h hg

theorem settles_tcRunParallel (tcp : TcParallel) : Settles (tcRunParallel a tcp) :=
  settles_initRunFree tcp.maxChannels (List.drop tcp.chanStartIndex)

theorem settles_tcRunWhileReadReg (maxChannels : ℕ) :
    Settles (tcRunWhileReadReg a maxChannels) :=
  settles_initRunFree maxChannels id

/-- Without any channel this test frees an element that has never been set up, so it does not
return. -/
theorem settles_tcPauseAndUnpauseParallel (maxChannels : ℕ) :
    Settles (tcPauseAndUnpauseParallel a maxChannels) := by
  intro s own t err u h hg
  obtain ⟨⟨tcs, failed⟩, v, hv, h⟩ := bind_inv h
  obtain ⟨hg, hfailed⟩ := initLoop_inv hv hg
  cases tcs with
  | nil =>
    obtain ⟨_, w, hw, h⟩ := bind_inv h
    obtain ⟨-, rfl⟩ := pure_inv h
    rcases hfailed with ⟨rfl, hlen⟩ | ⟨tc, rfl, hsized⟩
    · rw [List.length_nil] at hlen
      subst hlen
      obtain ⟨-, rfl⟩ := pure_inv hw
      exact hg
    · obtain ⟨_, w, hfree, -⟩ := bind_inv hw
      obtain ⟨_, w', -, hdestroy⟩ := bind_inv hfree
      obtain ⟨_, w'', -, hsizes⟩ := bind_inv hdestroy
      exact absurd (hsized.symm.trans (forSizes_inv hsizes).2) Bool.false_ne_true
  | cons tc tcs => exact runAndFree_inv h hg

/-! ### Linked jobs -/

/-- On a given channel a buffer list is created. -/
theorem dmatestBuflistCreate_some_inv {chan : Handle Resource} {err : ℤ} {bf : BuflistHandle}
    (h : dmatestBuflistCreate a (some chan) t = some ((err, bf), u)) :
    u = t ∧ err = 0 ∧ bf.dmaChan = some chan := by
  obtain ⟨x, v, hv, h⟩ := bind_inv h
  obtain ⟨rfl, rfl⟩ := pure_inv hv
  obtain ⟨hbf, rfl⟩ := pure_inv h
  obtain ⟨rfl, rfl⟩ := Prod.mk.inj hbf
  exact ⟨rfl, rfl, rfl⟩

/-- A job is created on the channel of the jobs before it. The channel is to be given back, and
the first job can fail only because there is none. -/
theorem createJob_inv {dmaChan : Option (Handle Resource)} {err : ℤ} {bf : BuflistHandle}
    (h : dmatestBuflistCreate a dmaChan t = some ((err, bf), u))
    (hg : s.GrownBy (dmaChan.toList ++ own) t.held) :
    s.GrownBy (bf.dmaChan.toList ++ own) u.held ∧
      (err ≠ 0 → bf.dmaChan = none ∧ dmaChan = none) := by
  cases dmaChan with
  | none =>
    obtain ⟨held, rfl, hg, -, hres⟩ := dmatestBuflistCreate_inv h hg
    refine ⟨hg, fun hne => ?_⟩
    rcases hres with ⟨hzero, -⟩ | ⟨-, -, -, hnone⟩
    · exact absurd hzero hne
    · exact ⟨hnone, rfl⟩
  | some chan =>
    obtain ⟨rfl, rfl, hchan⟩ := dmatestBuflistCreate_some_inv h
    rw [hchan]
    exact ⟨hg, fun hne => absurd rfl hne⟩

theorem linkSizes_inv {lcfg : TcLinkCfg} {jobs : List BuflistHandle} {bf x : BuflistHandle}
    (h : linkSizes lcfg jobs bf t = some (x, u)) : u = t ∧ x.dmaChan = bf.dmaChan := by
  unfold linkSizes at h
  split at h
  · obtain ⟨rfl, rfl⟩ := pure_inv h
    exact ⟨rfl, rfl⟩
  · obtain ⟨rfl, -, rfl⟩ := dmatestSizelistSet_inv h
    exact ⟨rfl, rfl⟩

theorem linkInit_inv {lcfg : TcLinkCfg} {n : ℕ} {jobs jobs' : List BuflistHandle}
    {dmaChan dmaChan' : Option (Handle Resource)} {err : ℤ}
    (h : linkInit a lcfg n jobs dmaChan t = some ((err, jobs', dmaChan'), u))
    (hg : s.GrownBy (dmaChan.toList ++ own) t.held) (hjobs : jobs = [] → dmaChan = none) :
    s.GrownBy (dmaChan'.toList ++ own) u.held ∧ (err ≠ 0 → dmaChan' = none) ∧
      (jobs' = [] → dmaChan' = none) := by
  induction n generalizing t jobs dmaChan with
  | zero =>
    obtain ⟨heq, rfl⟩ := pure_inv h
    simp only [Prod.mk.injEq] at heq
    obtain ⟨rfl, rfl, rfl⟩ := heq
    exact ⟨hg, fun hne => absurd rfl hne, hjobs⟩
  | succ n ih =>
    obtain ⟨⟨err₁, bf⟩, v, hv, h⟩ := bind_inv h
    obtain ⟨hg', hfail⟩ := createJob_inv hv hg
    dsimp only at h
    by_cases hzero : err₁ = 0
    · rw [if_neg (not_not.mpr hzero)] at h
      obtain ⟨bf', w, hw, hrest⟩ := bind_inv h
      obtain ⟨_, w', hw', hnext⟩ := bind_inv hrest
      obtain ⟨rfl, -⟩ := forSizes_inv hw'
      obtain ⟨rfl, hchan⟩ := linkSizes_inv hw
      exact ih hnext (hchan ▸ hg') fun hnil => absurd hnil (by simp)
    · rw [if_pos hzero] at h
      obtain ⟨heq, rfl⟩ := pure_inv h
      simp only [Prod.mk.injEq] at heq
      obtain ⟨rfl, rfl, rfl⟩ := heq
      obtain ⟨hnone, hnone'⟩ := hfail hzero
      rw [hnone'] at hjobs ⊢
      rw [hnone] at hg'
      exact ⟨hg', fun _ => rfl, fun _ => rfl⟩

/-- The channel goes with the first list. -/
theorem linkDestroy_inv {jobs : List BuflistHandle} {dmaChan : Option (Handle Resource)}
    {x : Unit} (h : linkDestroy jobs dmaChan t = some (x, u))
    (hg : s.GrownBy (dmaChan.toList ++ own) t.held) (hjobs : jobs = [] → dmaChan = none) :
    s.GrownBy own u.held := by
  induction jobs generalizing t dmaChan with
  | nil =>
    obtain ⟨-, rfl⟩ := pure_inv h
    rw [hjobs rfl] at hg
    exact hg
  | cons bf jobs ih =>
    obtain ⟨_, v, hv, h⟩ := bind_inv h
    obtain ⟨held, rfl, hg, -⟩ := dmatestBuflistDestroy_inv hv hg
    exact ih h hg fun _ => rfl

theorem settles_tcLinkCore (lcfg : TcLinkCfg) : Settles (tcLinkCore a lcfg) := by
  intro s own t err u h hg
  obtain ⟨⟨err₁, jobs, dmaChan⟩, v, hv, h⟩ := bind_inv h
  obtain ⟨hg, hfail, hjobs⟩ := linkInit_inv hv hg fun _ => rfl
  dsimp only at h
  by_cases hzero : err₁ = 0
  · rw [if_neg (not_not.mpr hzero)] at h
    split at h
    · exact absurd h (Option.some_ne_none _).symm
    obtain ⟨errs, w, hw, h⟩ := bind_inv h
    obtain ⟨_, w', hw', h⟩ := bind_inv h
    obtain ⟨-, rfl⟩ := pure_inv h
    have hsettles := settles_mapM (f := fun _ : BuflistHandle => do
      waitForCompletion a
      dmatestBuflistPayloadCheck a)
      (fun _ => settles_waitForCompletion.bind fun _ => settles_compareData _) jobs
    exact linkDestroy_inv hw' (hsettles hw hg) hjobs
  · rw [if_pos hzero] at h
    obtain ⟨-, rfl⟩ := pure_inv h
    rw [hfail hzero] at hg
    exact hg

theorem settles_firstFailure {tests : List (TestCase ℤ)} (htests : ∀ test ∈ tests, Settles test) :
    Settles (firstFailure tests) := by
  induction tests with
  | nil => exact settles_pure _
  | cons test tests ih =>
    obtain ⟨htest, htests⟩ := List.forall_mem_cons.mp htests
    exact htest.bind fun err => (settles_pure err).ite (ih htests)

theorem settles_tc69 : Settles (tc69 a) := settles_firstFailure fun test htest => by
  obtain ⟨size, -, rfl⟩ := List.mem_map.mp htest
  exact settles_tcLinkCore _

/-! ### The files of the module -/

theorem settles_tcNop : Settles (tcNop a) := settles_pure _

theorem settles_ddSetup : Settles (ddSetup a) := (settles_pure _).ite (settles_pure _)

/-- Every test case but these ten gives back what it takes. -/
theorem settles_d40TestCase {testId : ℕ} (hid : testId ∉ [1, 2, 6, 7, 8, 9, 22, 23, 24, 25]) :
    Settles (d40TestCase cfg a testId) := by
  unfold d40TestCase
  split
  all_goals first
    | exact absurd (by decide) hid
    | exact settles_tcBuflistTest
    | exact settles_tcRunParallel _
    | exact settles_tcPauseAndUnpauseParallel _
    | exact settles_tcLinkCore _
    | exact settles_tc69
    | exact settles_pure _
    | exact settles_ddSetup.ite settles_tcNop
    | exact settles_oops.ite settles_tcNop
    | exact (settles_tcRunWhileReadReg _).ite settles_tcNop

/-- The test case meets one of the two errors: it loses its workqueue, in some round of test 9 that
is reached, or it loses its channel. -/
def Answers.LeaksIn (a : Answers) (testId : ℕ) : Prop :=
  testId ∈ [1, 2, 6, 7, 8] ∧ a.Refused 0 ∨
    testId = 9 ∧ (∃ j < tc9Rounds, (∀ i < j, a.Passes i) ∧ a.Refused j) ∨
    testId ∈ [22, 23, 24, 25] ∧ a.chan 0 = true ∧ ¬ (a.cmp 0 = true ∧ a.cmp 1 = true)

/-- The read gets the mutex, and its test case meets one of the two errors. -/
def TestRead.Leaks (r : TestRead) : Prop :=
  r.interrupted = false ∧ r.answers.LeaksIn r.testId

private theorem leaksIn_buflist {testId : ℕ} (hid : testId ∈ [1, 2, 6, 7, 8]) :
    a.LeaksIn testId ↔ a.Refused 0 := by
  simp only [List.mem_cons, List.not_mem_nil, or_false] at hid
  rcases hid with rfl | rfl | rfl | rfl | rfl <;> simp [Answers.LeaksIn]

private theorem leaksIn_nine :
    a.LeaksIn 9 ↔ ∃ j < tc9Rounds, (∀ i < j, a.Passes i) ∧ a.Refused j := by
  simp [Answers.LeaksIn]

private theorem leaksIn_kept {testId : ℕ} (hid : testId ∈ [22, 23, 24, 25]) :
    a.LeaksIn testId ↔ a.chan 0 = true ∧ ¬ (a.cmp 0 = true ∧ a.cmp 1 = true) := by
  simp only [List.mem_cons, List.not_mem_nil, or_false] at hid
  rcases hid with rfl | rfl | rfl | rfl <;> simp [Answers.LeaksIn]

private theorem d40TestCase_buflist {testId : ℕ} (hid : testId ∈ [1, 2, 6, 7, 8]) :
    d40TestCase cfg a testId = tcBuflistTest a true := by
  simp only [List.mem_cons, List.not_mem_nil, or_false] at hid
  rcases hid with rfl | rfl | rfl | rfl | rfl <;> rfl

private theorem d40TestCase_nine :
    d40TestCase cfg a 9 = untilFailure (tcBuflistTest a true) tc9Rounds := by
  have hcase : d40TestCase cfg a 9 = tc9SgBuffer a := rfl
  rw [hcase, tc9SgBuffer, tcSgBuffer]

private theorem d40TestCase_kept {testId : ℕ} (hid : testId ∈ [22, 23, 24, 25]) :
    d40TestCase cfg a testId = tc22To25 a := by
  simp only [List.mem_cons, List.not_mem_nil, or_false] at hid
  rcases hid with rfl | rfl | rfl | rfl <;> rfl

/-- A test case loses something exactly when it meets one of the two errors. -/
theorem d40TestCase_inv {testId : ℕ} {err : ℤ}
    (h : d40TestCase cfg a testId t = some (err, u)) (hg : s.GrownBy own t.held)
    (ht : t.nWq = 0 ∧ t.nChan = 0 ∧ t.nCmp = 0) :
    ∃ lost, s.GrownBy (lost ++ own) u.held ∧ (lost ≠ [] ↔ a.LeaksIn testId) := by
  obtain ⟨hWq, hChan, hCmp⟩ := ht
  by_cases hbuflist : testId ∈ [1, 2, 6, 7, 8]
  · rw [d40TestCase_buflist hbuflist] at h
    have htest := tcBuflistTest_inv h hg
    rw [hWq, hChan] at htest
    rw [leaksIn_buflist hbuflist]
    rcases htest with ⟨-, hchan, -, hg, -⟩ | ⟨-, hchan, -, lost, hg, hlost⟩
    · refine ⟨[], hg, iff_of_false (by simp) fun hrefused => ?_⟩
      exact Bool.false_ne_true (hrefused.2.symm.trans hchan)
    · exact ⟨lost, hg, hlost.trans ⟨fun hwq => ⟨hwq, hchan⟩, And.left⟩⟩
  by_cases hnine : testId = 9
  · rw [hnine, d40TestCase_nine] at h
    obtain ⟨lost, hg, hlost⟩ := untilFailure_inv h hg ⟨hWq, hChan, hCmp⟩
    simp only [Nat.zero_add] at hlost
    rw [hnine, leaksIn_nine]
    exact ⟨lost, hg, hlost⟩
  by_cases hkept : testId ∈ [22, 23, 24, 25]
  · rw [d40TestCase_kept hkept] at h
    obtain ⟨lost, hg, hlost⟩ := tc22To25_inv h hg
    rw [hChan, hCmp] at hlost
    exact ⟨lost, hg, hlost.trans (leaksIn_kept hkept).symm⟩
  · refine ⟨[], settles_d40TestCase ?_ h hg, iff_of_false (by simp) ?_⟩
    · simp_all
    · rintro (⟨hid, -⟩ | ⟨hid, -⟩ | ⟨hid, -⟩)
      · exact hbuflist hid
      · exact hnine hid
      · exact hkept hid

/-- **One read.** A read that returns settles what it has acquired exactly when it does not meet
one of the two errors. -/
theorem settledSince_iff_of_next {m m' : TestModule} {r : TestRead}
    (h : (testModuleMachine cfg).next m r = some m') :
    m.held.SettledSince m'.held ↔ ¬ r.Leaks := by
  obtain ⟨⟨line, m''⟩, hrun, rfl⟩ := Option.map_eq_some_iff.mp h
  obtain ⟨_, t, ht, hrest⟩ := bind_inv hrun
  obtain rfl := modify_inv ht
  obtain ⟨err, v, hv, hline⟩ := bind_inv hrest
  obtain ⟨-, rfl⟩ := pure_inv hline
  cases hint : r.interrupted with
  | true =>
    rw [TestRead.err, hint] at hv
    obtain ⟨-, rfl⟩ := pure_inv hv
    rw [(Holding.GrownBy.refl m.held).settledSince_iff]
    simp [TestRead.Leaks, hint]
  | false =>
    rw [TestRead.err, hint] at hv
    obtain ⟨lost, hg, hlost⟩ := d40TestCase_inv hv (Holding.GrownBy.refl m.held) ⟨rfl, rfl, rfl⟩
    have hleaks : r.Leaks ↔ lost ≠ [] := by
      rw [hlost, TestRead.Leaks, hint]
      exact and_iff_right rfl
    rw [hg.settledSince_iff, List.append_nil, hleaks, not_not]

/-- Every read of the sequence leaves the module with the workqueues and channels that it held
before, and has released each new one exactly once. -/
def SettledReads (cfg : KernelConfig) : TestModule → List TestRead → Prop
  | _, [] => True
  | m, r :: rs => ∀ m', (testModuleMachine cfg).next m r = some m' →
      m.held.SettledSince m'.held ∧ SettledReads cfg m' rs

/-- **What the test cases give back.** Along every sequence of reads that return, all of them are
settled exactly when none of them meets one of the two errors. -/
theorem settledReads_iff {m m' : TestModule} {reads : List TestRead}
    (h : (testModuleMachine cfg).exec m reads = some m') :
    SettledReads cfg m reads ↔ ∀ r ∈ reads, ¬ r.Leaks := by
  induction reads generalizing m with
  | nil => simp [SettledReads]
  | cons r reads ih =>
    rw [Machine.exec_cons] at h
    obtain ⟨m₁, hnext, hexec⟩ := Option.bind_eq_some_iff.mp h
    rw [List.forall_mem_cons, ← settledSince_iff_of_next hnext, ← ih hexec]
    constructor
    · intro hset
      exact hset m₁ hnext
    · rintro hset m₂ hm₂
      obtain rfl := Option.some.inj (hnext.symm.trans hm₂)
      exact hset

/-- A test that gets everything it asks for. -/
def allGranted (testId : ℕ) : TestRead where
  testId := testId
  interrupted := false
  answers := {
    wq := fun _ => true
    chan := fun _ => true
    cmp := fun _ => true
    ends := true
    mmcSgsize := 0
    seqPrintf := 0 }

/-- Test 1 with a workqueue and without a channel. -/
def refusedChannel : TestRead :=
  { allGranted 1 with answers := { (allGranted 1).answers with chan := fun _ => false } }

/-- A module on which the tests 1, 24 and 54 run and get everything. -/
theorem settledReads_allGranted :
    ∃ m', (testModuleMachine ⟨true, true⟩).exec moduleInit
        [allGranted 1, allGranted 24, allGranted 54] = some m' ∧
      SettledReads ⟨true, true⟩ moduleInit [allGranted 1, allGranted 24, allGranted 54] := by
  have hsome : ((testModuleMachine ⟨true, true⟩).exec moduleInit
      [allGranted 1, allGranted 24, allGranted 54]).isSome = true := by decide +kernel
  obtain ⟨m', hm'⟩ := Option.isSome_iff_exists.mp hsome
  refine ⟨m', hm', (settledReads_iff hm').mpr ?_⟩
  simp [TestRead.Leaks, Answers.LeaksIn, allGranted, Answers.Refused]

/-- The first test loses its workqueue when there is no channel. -/
theorem not_settledReads_refusedChannel :
    ¬ ∀ reads m', (testModuleMachine ⟨true, true⟩).exec moduleInit reads = some m' →
      SettledReads ⟨true, true⟩ moduleInit reads := by
  intro hall
  have hset := hall [refusedChannel] _ rfl _ rfl
  exact absurd (hset.1.released_once ⟨.workqueue, 0⟩ (by decide) (by decide)) (by decide)

end SnowballLtp.Dma.TestResources
