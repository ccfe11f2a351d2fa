import SnowballLtp.Dma.Buflist
import SnowballLtp.Machine.Reachability

/-!
# One transfer: the test engine and the DMA engine

The state of one `struct tc_struct` together with what acts on it: the work queue holding
`work_start`, the DMA engine with the submitted descriptors, and the watchdog `timed_out`. The
functions of `dma_test_lib.c` and `dma_test_module.c` that run in these contexts are translated
on this state, and every call they make into the kernel is recorded in a trace.

A step is a run of the queued work item, the completion of any one descriptor in flight, in any
order, followed by `transmit_cb` and `tc_worker`, or one of the two steps of the watchdog: its timer
runs out, and later its work item runs (`Transfer.next`). The engine may leave anything in the
buffers when it completes a descriptor: the contents are part of the step's label.

## Main definitions

* `TcStruct`, `Transfer`, `DelayedWork`.
* `tcWorkerStartSingle`, `tcWorkerStartSg`, `tcWorker`, `transmitCb`.
* `TcParams`, `tcTestInit`, `tcTestRun`.
* `Transfer.next`, `transferMachine`.
-/

namespace SnowballLtp.Dma

/-- The functions that `INIT_WORK` installs in `work_start`. -/
inductive WorkFunc where
  | tcWorkerStartSingle
  | tcWorkerStartSg
  deriving DecidableEq, Repr

/-- `struct tc_struct`. -/
structure TcStruct where
  laps : ℤ
  endPadding : ℕ
  doCheckBuffer : Bool
  listLen : ℕ
  err : ℤ
  nbrReturnsPerTransfer : ℤ
  buflist : Buflist
  callback : Option Callback
  workStart : WorkFunc
  jobCounter : ℤ

/-- A delayed work item: not scheduled or cancelled, waiting for its timer, queued to be run because
the timer has run out, or run since it was last scheduled. -/
inductive DelayedWork where
  | idle
  | pending
  | expired
  | fired
  deriving DecidableEq, Repr

/-- A test engine with its surroundings. -/
structure Transfer where
  tc : TcStruct
  /-- `work_start` is queued on the work queue. -/
  workQueued : Bool
  /-- The descriptors submitted and issued whose completion is outstanding. -/
  inFlight : List ℕ
  timedOut : DelayedWork
  /-- The counter of the completion `tc->done`. -/
  done : ℕ
  log : List Event

namespace Transfer

variable (s : Transfer)

def emit (es : List Event) : Transfer := { s with log := s.log ++ es }

/-- `queue_work (tc->wq, &tc->work_start)`: an item already queued is left as it is. -/
def queueWork : Transfer := { s with workQueued := true, log := s.log ++ [.queueWork] }

/-- `complete (&tc->done)`. -/
def complete : Transfer := { s with done := s.done + 1, log := s.log ++ [.complete] }

/-- `schedule_delayed_work (&buflist->timed_out, ...)`: an item already queued is left as it is. -/
def scheduleDelayedWork : Transfer :=
  { s with
    timedOut := if s.timedOut = .expired then .expired else .pending
    log := s.log ++ [.scheduleDelayedWork] }

/-- `cancel_delayed_work (&buflist->timed_out)`: the timer is stopped. An item whose timer has run
out stays queued. -/
def cancelDelayedWork : Transfer :=
  { s with
    timedOut := if s.timedOut = .pending then .idle else s.timedOut
    log := s.log ++ [.cancelDelayedWork] }

/-- Submit the descriptors of a list one after the other. -/
def txSubmit (descs : List ℕ) : Transfer :=
  { s with inFlight := s.inFlight ++ descs, log := s.log ++ descs.map .txSubmit }

end Transfer

/-! ### Starting a transfer -/

/-- Whether the start functions prepare the descriptors: the engine has reclaimed the last ones,
or there are none yet. -/
def preparesDescs (bf : Buflist) : Bool :=
  bf.dmaEngineFlags &&& dmaCtrlAck != 0 || !bf.isDmaPrepared

/-- The mapping calls of the loop of `dmatest_buflist_start_single` that prepares the
descriptors. -/
def startSingleMaps (bf : Buflist) : List Event :=
  if preparesDescs bf then
    (List.range bf.nbrBufs).flatMap fun i =>
      [.dmaMapSingle (.payload .src i), .dmaMapSingle (.payload .dst i)]
  else []

/-- `dmatest_buflist_start_single`: one descriptor for each buffer. -/
def dmatestBuflistStartSingle (s : Transfer) (callback : Option Callback) : Transfer :=
  let bf := s.tc.buflist
  let bf' := { bf with
    isDmaPrepared := bf.isDmaPrepared || preparesDescs bf
    callback := callback
    sglSrcLen := 0
    sglDstLen := 0 }
  ((({ s with tc := { s.tc with buflist := bf' } }.emit (startSingleMaps bf)).txSubmit
    (List.range bf.nbrBufs)).scheduleDelayedWork).emit [.dmaAsyncIssuePending]

/-- `dmatest_buflist_start_sg`: one descriptor for the whole list. The lengths are what
`dma_map_sg` returns for the two scatter lists. -/
def dmatestBuflistStartSg (s : Transfer) (callback : Option Callback) (sglSrcLen sglDstLen : ℕ) :
    Transfer :=
  let bf := s.tc.buflist
  let bf' := { bf with
    isDmaPrepared := bf.isDmaPrepared || preparesDescs bf
    callback := callback
    sglSrcLen := sglSrcLen
    sglDstLen := sglDstLen }
  ((({ s with tc := { s.tc with buflist := bf' } }.emit
    [.dmaMapSg .src, .dmaMapSg .dst]).txSubmit [0]).scheduleDelayedWork).emit
      [.dmaAsyncIssuePending]

/-- `tc_worker_start_single`. -/
def tcWorkerStartSingle (s : Transfer) : Transfer :=
  dmatestBuflistStartSingle s s.tc.callback

/-- `tc_worker_start_sg`. -/
def tcWorkerStartSg (s : Transfer) (sglSrcLen sglDstLen : ℕ) : Transfer :=
  dmatestBuflistStartSg s s.tc.callback sglSrcLen sglDstLen

/-! ### The callbacks -/

/-- The payload check of `tc_worker`: its calls go to the trace and its result to `tc->err`. -/
def tcWorkerCheck (s : Transfer) : Transfer :=
  if s.tc.doCheckBuffer then
    let r := dmatestBuflistPayloadCheck s.tc.buflist
    { s with tc := { s.tc with err := r.2 } }.emit
      (r.1 ++ [Event.payloadCheck s.inFlight.length r.2])
  else s

/-- The end of a lap in `tc_worker`: signal the waiting process after the last lap, else reset
both counters and queue the next lap. -/
def tcWorkerEndLap (s : Transfer) : Transfer :=
  let s := { s with tc := { s.tc with laps := s.tc.laps - 1 } }
  if s.tc.laps = 0 then s.complete
  else
    { s with tc := { s.tc with
        buflist := dmatestBuflistResetNbrFinished s.tc.buflist
        jobCounter := 0 } }.queueWork

/-- `tc_worker`. The number of finished jobs that it reads first is not used. -/
def tcWorker (s : Transfer) : Transfer :=
  let s := { s with tc := { s.tc with jobCounter := s.tc.jobCounter + 1 } }
  if s.tc.jobCounter = s.tc.nbrReturnsPerTransfer then tcWorkerEndLap (tcWorkerCheck s) else s

/-- `transmit_cb`. -/
def transmitCb (s : Transfer) : Transfer :=
  let s := s.cancelDelayedWork
  let s := { s with tc := { s.tc with
    buflist := { s.tc.buflist with finishedJobs := s.tc.buflist.finishedJobs + 1 } } }
  match s.tc.buflist.callback with
  | some .tcWorker => tcWorker s
  | none => s

/-! ### Setting a test up -/

/-- What a client of `tc_test_init` chooses. The sizes are what `dmatest_sizelist_set` or
`dmatest_sizelist_randomize` stores in front of the terminator, one for each of the `list_len`
buffers. -/
structure TcParams where
  laps : ℤ
  endPadding : ℕ
  doCheckBuffer : Bool
  sizes : List ℤ
  one_le_sizes : ∀ v ∈ sizes, 1 ≤ v
  isSgTransfer : Bool
  dmaFlags : BitVec 32
  timeout : ℤ

namespace TcParams

variable (p : TcParams)

/-- The number of buffers, `tc->list_len`. -/
def listLen : ℕ := p.sizes.length

/-- The number of descriptors of one lap, `tc->nbr_returns_per_transfer`. -/
def perLap : ℕ := if p.isSgTransfer then 1 else p.listLen

end TcParams

/-- `tc_test_init` on a zeroed `tc_struct`. `wq` tells whether the work queue is created and
`granted` whether a DMA channel is granted; `src` and `dst` are the contents of the memory that
`kmalloc` returns. -/
def tcTestInit (p : TcParams) (wq granted : Bool) (src dst : Buffers) : Except ℤ Transfer :=
  if wq = false then .error (-einval) else
  match dmatestBuflistCreate (.zeroed src dst) p.listLen p.endPadding p.dmaFlags p.timeout
      granted with
  | .error _ => .error (-einval)
  | .ok bf =>
    let r := dmatestBuflistAlloc { bf with listSize := p.sizes ++ [-1] }
    .ok {
      tc := {
        laps := p.laps
        endPadding := p.endPadding
        doCheckBuffer := p.doCheckBuffer
        listLen := p.listLen
        err := 0
        nbrReturnsPerTransfer := if p.isSgTransfer then 1 else p.listLen
        buflist := r.2
        callback := some .tcWorker
        workStart := if p.isSgTransfer then .tcWorkerStartSg else .tcWorkerStartSingle
        jobCounter := 0 }
      workQueued := false
      inFlight := []
      timedOut := .idle
      done := 0
      log := r.1 }

/-- `tc_test_run`. -/
def tcTestRun (s : Transfer) : Transfer := s.queueWork

/-! ### The steps -/

/-- The steps of a transfer. -/
inductive Label where
  /-- The queued work item runs; the lengths are what `dma_map_sg` returns in it. -/
  | work (sglSrcLen sglDstLen : ℕ)
  /-- The engine completes descriptor `i`, leaving the given contents in the buffers, and calls
  back. -/
  | completion (i : ℕ) (src dst : Buffers)
  /-- A step of the watchdog: its timer runs out, or its queued work item runs. -/
  | timeout

namespace Transfer

/-- The work item `work_start` runs. -/
def runWork (s : Transfer) (sglSrcLen sglDstLen : ℕ) : Transfer :=
  let s := { s with workQueued := false }.emit [.workStart]
  match s.tc.workStart with
  | .tcWorkerStartSingle => tcWorkerStartSingle s
  | .tcWorkerStartSg => tcWorkerStartSg s sglSrcLen sglDstLen

/-- The engine completes descriptor `i` and calls back. -/
def runCompletion (s : Transfer) (i : ℕ) (src dst : Buffers) : Transfer :=
  transmitCb ({ s with
    inFlight := s.inFlight.erase i
    tc := { s.tc with buflist := { s.tc.buflist with listBufSrc := src, listBufDst := dst } }
    }.emit [.transmitCb i])

/-- The timer of the watchdog runs out, and its work item is queued. -/
def runTimer (s : Transfer) : Transfer := { s with timedOut := .expired }

/-- The work item of the watchdog runs `transfer_timedout`, which only prints. -/
def runTimeout (s : Transfer) : Transfer :=
  { s with timedOut := .fired }.emit [.transferTimedout]

/-- The next step of the watchdog. -/
def runWatchdog (s : Transfer) : Transfer :=
  if s.timedOut = .pending then s.runTimer else s.runTimeout

/-- The state after a step, when the step is enabled. -/
def next (s : Transfer) : Label → Option Transfer
  | .work a b => if s.workQueued then some (s.runWork a b) else none
  | .completion i src dst => if i ∈ s.inFlight then some (s.runCompletion i src dst) else none
  | .timeout =>
    if s.timedOut = .pending ∨ s.timedOut = .expired then some s.runWatchdog else none

end Transfer

/-- The runs of one transfer, from the state in which `tc_test_run` has queued the first lap. -/
def transferMachine (p : TcParams) : Machine Transfer Label where
  init s := ∃ src dst s₀, tcTestInit p true true src dst = .ok s₀ ∧ s = tcTestRun s₀
  next := Transfer.next

end SnowballLtp.Dma
