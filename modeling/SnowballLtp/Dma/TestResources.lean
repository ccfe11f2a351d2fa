import SnowballLtp.Dma.LinkRun
import SnowballLtp.Dma.ParallelRun
import SnowballLtp.Dma.TestMutex
import SnowballLtp.Machine.Handles

/-!
# The workqueues and channels of the test cases

Every read of a debugfs file runs one test case of `d40_test_run`. A test case creates
workqueues, requests DMA channels, compares data, and gives back what it has taken on the paths
its author has thought of. Here a test case is a computation on the handles of the module; each
request of the kernel and each comparison is answered from a pattern that is given for the read,
the `k`-th request of a kind by the `k`-th answer. The reads follow one another, as the mutex has
it.

A computation has no result when the call does not return: a null pointer is followed, or a wait
or a polling loop does not end. The lengths and the sizes of the buffer lists play no part, nor do
the memory of the lists and the names; an allocation of memory succeeds.

## Main definitions

* `Answers`, `TestModule`, `TestCase`.
* `tcBuflistTest`, `tcSgBuffer`, `tc9SgBuffer`, `tcTestInit`, `tcRunParallel`,
  `tcPauseAndUnpauseParallel`, `tcRunWhileReadReg`, `tcLinkCore`.
* `d40TestRun`, `testModuleMachine`.
-/

namespace SnowballLtp.Dma.TestResources

/-- What a test case takes from the kernel. -/
inductive Resource where
  | workqueue
  | channel
  deriving DecidableEq, Repr

/-- The answers that a test case gets. -/
structure Answers where
  /-- Whether the `k`-th call of `create_singlethread_workqueue` succeeds. -/
  wq : ℕ → Bool
  /-- Whether the `k`-th call of `dma_request_channel` succeeds. -/
  chan : ℕ → Bool
  /-- Whether the `k`-th result of a comparison of the data is that they agree. -/
  cmp : ℕ → Bool
  /-- Whether all waits and polling loops end. -/
  ends : Bool
  /-- What `stedma40_debug_mmc_sgsize` returns. -/
  mmcSgsize : ℤ
  /-- What `seq_printf` returns. -/
  seqPrintf : ℤ

/-- The handles of the module, and what the running test case has asked for so far. -/
structure TestModule where
  held : Holding Resource
  /-- The static variable `tc_22_25_chan`. -/
  tc2225Chan : Option (Handle Resource)
  nWq : ℕ
  nChan : ℕ
  nCmp : ℕ

/-- A piece of a test case. -/
abbrev TestCase (α : Type) := StateT TestModule Option α

/-! ### The kernel -/

/-- A null pointer is followed. -/
def oops {α : Type} : TestCase α := fun _ => none

/-- A handle of the given kind, when the request is granted. -/
def acquire (kind : Resource) (granted : Bool) : TestCase (Option (Handle Resource)) := fun s =>
  if granted then
    some (some (s.held.fresh kind), { s with held := s.held.acquire kind })
  else some (none, s)

def release (h : Handle Resource) : TestCase Unit := fun s =>
  (s.held.release h).map fun held => ((), { s with held := held })

def createSinglethreadWorkqueue (a : Answers) : TestCase (Option (Handle Resource)) := fun s =>
  acquire .workqueue (a.wq s.nWq) { s with nWq := s.nWq + 1 }

def destroyWorkqueue : Option (Handle Resource) → TestCase Unit
  | some wq => release wq
  | none => oops

def queueWork : Option (Handle Resource) → TestCase Unit
  | some _ => pure ()
  | none => oops

def dmaRequestChannel (a : Answers) : TestCase (Option (Handle Resource)) := fun s =>
  acquire .channel (a.chan s.nChan) { s with nChan := s.nChan + 1 }

def dmaReleaseChannel (chan : Handle Resource) : TestCase Unit := release chan

/-- The waits and polling loops of a test case. -/
def waitForCompletion (a : Answers) : TestCase Unit := if a.ends then pure () else oops

/-- A comparison of the data, with the result `err` where they differ. -/
def compareData (a : Answers) (err : ℤ) : TestCase ℤ := fun s =>
  some (if a.cmp s.nCmp then 0 else err, { s with nCmp := s.nCmp + 1 })

/-! ### Buffer lists -/

/-- A buffer list: its channel, and how far its array of sizes is set up. -/
structure BuflistHandle where
  dmaChan : Option (Handle Resource)
  /-- The arrays have been allocated. -/
  created : Bool
  /-- Sizes and the terminator are in the array. -/
  sized : Bool

/-- `dmatest_buflist_create`, on the given channel or else on a new one. -/
def dmatestBuflistCreate (a : Answers) (dmaChan : Option (Handle Resource)) :
    TestCase (ℤ × BuflistHandle) := do
  let chan ← if dmaChan.isSome then pure dmaChan else dmaRequestChannel a
  if chan.isNone then pure (-einval, ⟨none, false, false⟩)
  else pure (0, ⟨chan, true, false⟩)

/-- `dmatest_sizelist_set` and `dmatest_sizelist_randomize` write into the array. -/
def dmatestSizelistSet (bf : BuflistHandle) : TestCase BuflistHandle :=
  if bf.created then pure { bf with sized := true } else oops

/-- The loops up to the terminator: without one they run through arbitrary memory. -/
def forSizes (bf : BuflistHandle) : TestCase Unit := if bf.sized then pure () else oops

def dmatestBuflistAlloc (bf : BuflistHandle) : TestCase Unit := forSizes bf

/-- `dmatest_buflist_payload_check`. -/
def dmatestBuflistPayloadCheck (a : Answers) : TestCase ℤ := compareData a (-1)

/-- `dmatest_buflist_destroy`. -/
def dmatestBuflistDestroy (bf : BuflistHandle) : TestCase Unit := do
  bf.dmaChan.forM dmaReleaseChannel
  forSizes bf

/-! ### Tests of one buffer list -/

/-- The body that the tests 1 to 8 and 15 to 20 have in common. Some of them look at the result of
`dmatest_buflist_create` and jump to the label `out`, behind the release of everything. -/
def tcBuflistTest (a : Answers) (looksAtErr : Bool) : TestCase ℤ := do
  let wq ← createSinglethreadWorkqueue a
  let (err, bf) ← dmatestBuflistCreate a none
  if looksAtErr && decide (err ≠ 0) then pure err
  else
    let bf ← dmatestSizelistSet bf
    dmatestBuflistAlloc bf
    queueWork wq
    waitForCompletion a
    let err ← dmatestBuflistPayloadCheck a
    destroyWorkqueue wq
    dmatestBuflistDestroy bf
    pure err

def tc1FixedBuffer (a : Answers) : TestCase ℤ := tcBuflistTest a true
def tc2FixedBuffer (a : Answers) : TestCase ℤ := tcBuflistTest a true
def tc3FixedBuffer (a : Answers) : TestCase ℤ := tcBuflistTest a false
def tc4FixedBuffer (a : Answers) : TestCase ℤ := tcBuflistTest a false
def tc5RandomBuffer (a : Answers) : TestCase ℤ := tcBuflistTest a false
def tcSgBuffer (a : Answers) : TestCase ℤ := tcBuflistTest a true
def tc6SgBuffer (a : Answers) : TestCase ℤ := tcSgBuffer a
def tc7SgBuffer (a : Answers) : TestCase ℤ := tcSgBuffer a
def tc8SgBuffer (a : Answers) : TestCase ℤ := tcBuflistTest a true
def tc15StaticBuffer (a : Answers) : TestCase ℤ := tcBuflistTest a false
def tc16StaticBuffer (a : Answers) : TestCase ℤ := tcBuflistTest a false
def tc17StaticBuffer (a : Answers) : TestCase ℤ := tcBuflistTest a false
def tc18StaticBuffer (a : Answers) : TestCase ℤ := tcBuflistTest a false
def tc19StaticBuffer (a : Answers) : TestCase ℤ := tcBuflistTest a false
def tc20RandomBuffer (a : Answers) : TestCase ℤ := tcBuflistTest a false

/-- Run a test case at most `n` times, up to its first failure. -/
def untilFailure (test : TestCase ℤ) : ℕ → TestCase ℤ
  | 0 => pure 0
  | n + 1 => do
    let res ← test
    if res ≠ 0 then pure res else untilFailure test n

/-- `SCATTER_LIST_ENTRIES_MAX`. -/
def scatterListEntriesMax : ℕ := 25

/-- `SIZE_MAX`, with pages of 4096 bytes. -/
def sizeMax : ℕ := 2 * 4096 + 100

/-- The rounds of the two loops of test 9, one for each number of entries from 1 on and each size
from 2 on. -/
def tc9Rounds : ℕ := (scatterListEntriesMax - 1) * (sizeMax - 2)

def tc9SgBuffer (a : Answers) : TestCase ℤ := untilFailure (tcSgBuffer a) tc9Rounds

/-- Test 14 goes through its loops again and again, whatever the results. -/
def tc14SgBufferTemporaryEndless : TestCase ℤ := oops

/-! ### Tests that take nothing -/

/-- `dd_setup`, all of the tests 10 to 13. -/
def ddSetup (a : Answers) : TestCase ℤ :=
  if a.mmcSgsize ≠ 0 then pure a.mmcSgsize else pure a.seqPrintf

def tcNop (a : Answers) : TestCase ℤ := pure a.seqPrintf

/-! ### The channel that is kept in a static variable -/

def tc22Req (a : Answers) : TestCase ℤ := do
  let chan ← dmaRequestChannel a
  modify fun s => { s with tc2225Chan := chan }
  if chan.isSome then pure 0 else pure (-einval)

def tc23NoIrq (a : Answers) : TestCase ℤ := do
  let s ← get
  if s.tc2225Chan.isNone then pure (-einval) else compareData a (-einval)

def tc24Irq (a : Answers) : TestCase ℤ := do
  let s ← get
  if s.tc2225Chan.isNone then pure (-einval)
  else
    waitForCompletion a
    compareData a (-einval)

def tc25Free : TestCase ℤ := do
  let s ← get
  match s.tc2225Chan with
  | none => pure (-einval)
  | some chan =>
    dmaReleaseChannel chan
    modify fun s => { s with tc2225Chan := none }
    pure 0

/-- The statement `if (!err) err = test`. -/
def ifOk (err : ℤ) (test : TestCase ℤ) : TestCase ℤ := if err = 0 then test else pure err

/-- The tests 22 to 25. -/
def tc22To25 (a : Answers) : TestCase ℤ := do
  let err ← tc22Req a
  let err ← ifOk err (tc23NoIrq a)
  let err ← ifOk err (tc24Irq a)
  ifOk err tc25Free

/-! ### Arrays of test engines -/

/-- `struct tc_struct`, as far as its resources go. -/
structure TcHandles where
  err : ℤ
  wq : Option (Handle Resource)
  buflist : BuflistHandle

/-- An element of the array as `kzalloc` returns it. -/
def TcHandles.zero : TcHandles := ⟨0, none, ⟨none, false, false⟩⟩

/-- `tc_test_init`. When it fails, the fields keep what has been stored into them. -/
def tcTestInit (a : Answers) : TestCase TcHandles := do
  let wq ← createSinglethreadWorkqueue a
  if wq.isNone then pure { TcHandles.zero with err := -einval }
  else
    let (err, bf) ← dmatestBuflistCreate a none
    if err ≠ 0 then
      destroyWorkqueue wq
      pure ⟨-einval, wq, bf⟩
    else
      let bf ← dmatestSizelistSet bf
      dmatestBuflistAlloc bf
      pure ⟨0, wq, bf⟩

/-- `tc_test_free`. -/
def tcTestFree (tc : TcHandles) : TestCase Unit := do
  destroyWorkqueue tc.wq
  dmatestBuflistDestroy tc.buflist

/-- The loops that initialise the array, `n` elements at most, up to the first failure: the
elements in front of it, and the one that failed. -/
def initLoop (a : Answers) : ℕ → TestCase (List TcHandles × Option TcHandles)
  | 0 => pure ([], none)
  | n + 1 => do
    let tc ← tcTestInit a
    if tc.err ≠ 0 then pure ([], some tc)
    else
      let (tcs, failed) ← initLoop a n
      pure (tc :: tcs, failed)

/-- Run the engines of a part of the array, wait for them and collect what their checks store. -/
def runEngines (a : Answers) (tcs : List TcHandles) : TestCase (List ℤ) := do
  tcs.forM fun tc => queueWork tc.wq
  tcs.forM fun _ => waitForCompletion a
  tcs.mapM fun _ => dmatestBuflistPayloadCheck a

def tcRunParallel (a : Answers) (tcp : TcParallel) : TestCase ℤ := do
  let (tcs, _) ← initLoop a tcp.maxChannels
  if tcs.isEmpty then pure (-einval)
  else
    let errs ← runEngines a (tcs.drop tcp.chanStartIndex)
    tcs.forM tcTestFree
    pure (errs.foldl orInt 0)

/-- `tc_pause_and_unpause_parallel`. Without any channel it frees the whole array; the variable
that counts the channels still holds the number asked for. -/
def tcPauseAndUnpauseParallel (a : Answers) (maxChannels : ℕ) : TestCase ℤ := do
  let (tcs, failed) ← initLoop a maxChannels
  if tcs.isEmpty then
    (failed.toList ++ List.replicate (maxChannels - 1) TcHandles.zero).forM tcTestFree
    pure (-einval)
  else
    let errs ← runEngines a tcs
    tcs.forM tcTestFree
    pure (errs.foldl orInt 0)

def tcRunWhileReadReg (a : Answers) (maxChannels : ℕ) : TestCase ℤ := do
  let (tcs, _) ← initLoop a maxChannels
  if tcs.isEmpty then pure (-einval)
  else
    let errs ← runEngines a tcs
    tcs.forM tcTestFree
    pure (errs.foldl orInt 0)

/-! ### Linked jobs -/

/-- The sizes of a new job, behind those in `jobs`: random sizes go to the list of the first job,
whatever the job at hand. -/
def linkSizes (cfg : TcLinkCfg) (jobs : List BuflistHandle) (bf : BuflistHandle) :
    TestCase BuflistHandle :=
  if cfg.minSize ≠ 0 ∧ cfg.maxSize ≠ 0 ∧ jobs ≠ [] then pure bf else dmatestSizelistSet bf

/-- The first loop of `tc_link_core`, with `n` jobs to go behind those in `jobs`. -/
def linkInit (a : Answers) (cfg : TcLinkCfg) : ℕ → List BuflistHandle → Option (Handle Resource) →
    TestCase (ℤ × List BuflistHandle × Option (Handle Resource))
  | 0, jobs, dmaChan => pure (0, jobs, dmaChan)
  | n + 1, jobs, dmaChan => do
    let (err, bf) ← dmatestBuflistCreate a dmaChan
    if err ≠ 0 then pure (err, jobs, dmaChan)
    else
      let bf ← linkSizes cfg jobs bf
      dmatestBuflistAlloc bf
      linkInit a cfg n (jobs ++ [bf]) bf.dmaChan

/-- The last loop: only the first list is destroyed together with the channel. -/
def linkDestroy : List BuflistHandle → Option (Handle Resource) → TestCase Unit
  | [], _ => pure ()
  | bf :: jobs, dmaChan => do
    dmatestBuflistDestroy { bf with dmaChan := dmaChan }
    linkDestroy jobs none

def tcLinkCore (a : Answers) (cfg : TcLinkCfg) : TestCase ℤ := do
  let (err, jobs, dmaChan) ← linkInit a cfg cfg.jobs [] none
  if err ≠ 0 then pure err
  else if dmaChan.isNone then oops
  else
    let errs ← jobs.mapM fun _ => do
      waitForCompletion a
      dmatestBuflistPayloadCheck a
    linkDestroy jobs dmaChan
    pure (errs.foldl orInt 0)

/-- Run test cases one after the other, up to the first failure. -/
def firstFailure (tests : List (TestCase ℤ)) : TestCase ℤ :=
  match tests with
  | [] => pure 0
  | test :: tests => do
    let err ← test
    if err ≠ 0 then pure err else firstFailure tests

/-! ### The parameters of the tests -/

/-- The parameters of the tests 26 to 33, but for the number of channels. -/
def twentyLaps (maxChannels : ℕ) : TcParallel where
  maxChannels := maxChannels
  laps := 20
  dmaFlags := dmaPrepInterrupt ||| dmaCtrlAck
  chanStartIndex := 0
  txAlign := 1
  constSize := -1
  listLen := 30
  timeout := defaultTimeout

def tc26Run3Parallel (a : Answers) : TestCase ℤ := tcRunParallel a (twentyLaps 3)
def tc27Run4Parallel (a : Answers) : TestCase ℤ := tcRunParallel a (twentyLaps 4)
def tc28Run5Parallel (a : Answers) : TestCase ℤ := tcRunParallel a (twentyLaps 5)
def tc29Run6Parallel (a : Answers) : TestCase ℤ := tcRunParallel a (twentyLaps 6)
def tc30Run7Parallel (a : Answers) : TestCase ℤ := tcRunParallel a (twentyLaps 7)
def tc31Run128Parallel (a : Answers) : TestCase ℤ := tcRunParallel a (twentyLaps 128)
def tc32Run1Parallel (a : Answers) : TestCase ℤ := tcRunParallel a (twentyLaps 1)
def tc33Run2Parallel (a : Answers) : TestCase ℤ := tcRunParallel a (twentyLaps 2)

def tc35Run1ParallelReuse (a : Answers) : TestCase ℤ :=
  tcRunParallel a { twentyLaps 1 with
    dmaFlags := dmaPrepInterrupt
    timeout := 100 * defaultTimeout }

/-- The parameters of test 53; those of test 50 differ in the alignment. -/
def lateStart : TcParallel where
  maxChannels := 5
  laps := 200
  dmaFlags := dmaPrepInterrupt ||| dmaCtrlAck
  chanStartIndex := 3
  txAlign := 1
  constSize := -1
  listLen := 30
  timeout := defaultTimeout

def tc50 (a : Answers) : TestCase ℤ := tcRunParallel a { lateStart with txAlign := 4 }
def tc53 (a : Answers) : TestCase ℤ := tcRunParallel a lateStart

def tc54Trigger (a : Answers) : TestCase ℤ :=
  tcRunParallel a {
    maxChannels := 5
    laps := 1
    dmaFlags := dmaPrepInterrupt ||| dmaCtrlAck
    chanStartIndex := 0
    txAlign := 1
    constSize := 1024
    listLen := 4
    timeout := 1000 }

def tc21StopAndGo (a : Answers) : TestCase ℤ := tcPauseAndUnpauseParallel a 1
def tc34RunPauseAndUnpauseParallel (a : Answers) : TestCase ℤ := tcPauseAndUnpauseParallel a 4
def tc51 (a : Answers) : TestCase ℤ := tcPauseAndUnpauseParallel a 2
def tc52 (a : Answers) : TestCase ℤ := tcPauseAndUnpauseParallel a 4

/-- The tests 36 to 49, which differ in their sizes and in the registers that they read. -/
def tc36To49 (a : Answers) : TestCase ℤ := tcRunWhileReadReg a 1

/-- A configuration of `tc_link_core` without random sizes. -/
def linkCfg (jobs links : ℕ) (bufferSize : ℤ) (startInSequence : Bool) : TcLinkCfg where
  jobs := jobs
  links := links
  bufferSize := bufferSize
  startInSequence := startInSequence
  minSize := 0
  maxSize := 0

def tc55 (a : Answers) : TestCase ℤ := tcLinkCore a (linkCfg 2 5 4096 false)
def tc56 (a : Answers) : TestCase ℤ := tcLinkCore a (linkCfg 2 5 4096 true)
def tc57 (a : Answers) : TestCase ℤ := tcLinkCore a (linkCfg 2 1 16384 true)
def tc58 (a : Answers) : TestCase ℤ := tcLinkCore a (linkCfg 10 1 16384 true)
def tc59 (a : Answers) : TestCase ℤ := tcLinkCore a (linkCfg 10 10 4096 true)
def tc60 (a : Answers) : TestCase ℤ := tcLinkCore a (linkCfg 2 2 4096 false)
def tc61 (a : Answers) : TestCase ℤ := tcLinkCore a (linkCfg 2 2 4096 true)
def tc62 (a : Answers) : TestCase ℤ := tcLinkCore a (linkCfg 1 90 128 true)
def tc63 (a : Answers) : TestCase ℤ := tcLinkCore a (linkCfg 1 140 128 true)
def tc64 (a : Answers) : TestCase ℤ := tcLinkCore a (linkCfg 4 80 128 false)
def tc65 (a : Answers) : TestCase ℤ := tcLinkCore a (linkCfg 10 10 4096 true)
def tc66 (a : Answers) : TestCase ℤ := tcLinkCore a (linkCfg 10 1 16384 true)
def tc67 (a : Answers) : TestCase ℤ := tcLinkCore a (linkCfg 10 10 4096 true)
def tc68 (a : Answers) : TestCase ℤ := tcLinkCore a (linkCfg 10 10 4096 true)

/-- The sizes of test 69, around `64k` and twice that. -/
def tc69Sizes : List ℤ :=
  [0x10000 - 1, 0x10000, 0x10000 + 1, 2 * 0x10000 - 1, 2 * 0x10000, 2 * 0x10000 + 1]

def tc69 (a : Answers) : TestCase ℤ :=
  firstFailure (tc69Sizes.map fun size => tcLinkCore a (linkCfg 1 10 size false))

/-! ### The files of the module -/

/-- The `switch` of `d40_test_run`. -/
def d40TestCase (cfg : KernelConfig) (a : Answers) : ℕ → TestCase ℤ
  | 1 => tc1FixedBuffer a
  | 2 => tc2FixedBuffer a
  | 3 => tc3FixedBuffer a
  | 4 => tc4FixedBuffer a
  | 5 => tc5RandomBuffer a
  | 6 => tc6SgBuffer a
  | 7 => tc7SgBuffer a
  | 8 => tc8SgBuffer a
  | 9 => tc9SgBuffer a
  | 10 | 11 | 12 | 13 => if cfg.mmc && cfg.steDma40Debug then ddSetup a else tcNop a
  | 14 => if cfg.mmc && cfg.steDma40Debug then tc14SgBufferTemporaryEndless else tcNop a
  | 15 => tc15StaticBuffer a
  | 16 => tc16StaticBuffer a
  | 17 => tc17StaticBuffer a
  | 18 => tc18StaticBuffer a
  | 19 => tc19StaticBuffer a
  | 20 => tc20RandomBuffer a
  | 21 => tc21StopAndGo a
  | 22 | 23 | 24 | 25 => tc22To25 a
  | 26 => tc26Run3Parallel a
  | 27 => tc27Run4Parallel a
  | 28 => tc28Run5Parallel a
  | 29 => tc29Run6Parallel a
  | 30 => tc30Run7Parallel a
  | 31 => tc31Run128Parallel a
  | 32 => tc32Run1Parallel a
  | 33 => tc33Run2Parallel a
  | 34 => tc34RunPauseAndUnpauseParallel a
  | 35 => tc35Run1ParallelReuse a
  | 36 | 37 | 38 | 39 | 40 | 41 | 42 | 43 | 44 | 45 | 46 | 47 | 48 | 49 =>
    if cfg.steDma40Debug then tc36To49 a else tcNop a
  | 50 => tc50 a
  | 51 => tc51 a
  | 52 => tc52 a
  | 53 => tc53 a
  | 54 => tc54Trigger a
  | 55 => tc55 a
  | 56 => tc56 a
  | 57 => tc57 a
  | 58 => tc58 a
  | 59 => tc59 a
  | 60 => tc60 a
  | 61 => tc61 a
  | 62 => tc62 a
  | 63 => tc63 a
  | 64 => tc64 a
  | 65 => tc65 a
  | 66 => tc66 a
  | 67 => tc67 a
  | 68 => tc68 a
  | 69 => tc69 a
  | _ => pure (-einval)

/-- A read of the file `test_<testId>`. -/
structure TestRead where
  testId : ℕ
  /-- A signal makes `mutex_lock_interruptible` return without the mutex. -/
  interrupted : Bool
  answers : Answers

/-- The result of the lock or else of the test case. -/
def TestRead.err (cfg : KernelConfig) (r : TestRead) : TestCase ℤ :=
  if r.interrupted then pure (-eintr) else d40TestCase cfg r.answers r.testId

/-- `d40_test_run`, with the line that it prints. The answers are counted from its beginning. -/
def d40TestRun (cfg : KernelConfig) (r : TestRead) : TestCase String := do
  modify fun s => { s with nWq := 0, nChan := 0, nCmp := 0 }
  let err ← r.err cfg
  pure (d40TestLine cfg r.testId err)

/-- The module as it is loaded. -/
def moduleInit : TestModule where
  held := .empty
  tc2225Chan := none
  nWq := 0
  nChan := 0
  nCmp := 0

/-- The sequences of reads that return. -/
def testModuleMachine (cfg : KernelConfig) : Machine TestModule TestRead where
  init s := s = moduleInit
  next s r := (d40TestRun cfg r s).map Prod.snd

end SnowballLtp.Dma.TestResources
