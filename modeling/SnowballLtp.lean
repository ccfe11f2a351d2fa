import SnowballLtp.Machine.Reachability
import SnowballLtp.Machine.Ledger
import SnowballLtp.Dma.Buflist
import SnowballLtp.Dma.Transfer
import SnowballLtp.Dma.TransferSteps
import SnowballLtp.Dma.LapPhase
import SnowballLtp.Dma.Mapping
import SnowballLtp.Dma.Watchdog
import SnowballLtp.Dma.TestMutex
import SnowballLtp.Dma.ParallelRun
import SnowballLtp.Dma.Verdict
import SnowballLtp.Dma.LinkRun
import SnowballLtp.Dma.Lifetime
import SnowballLtp.Dma.PayloadCheck
import SnowballLtp.Dma.DeadLap
import SnowballLtp.Dma.UserDriver
import SnowballLtp.Machine.Handles
import SnowballLtp.Dma.TestResources
import SnowballLtp.Dma.TestErrors
import SnowballLtp.Dma.TestLeaks
import SnowballLtp.Machine.Loop
import SnowballLtp.Machine.Bytes
import SnowballLtp.Ltp.Pattern
import SnowballLtp.Machine.CInt
import SnowballLtp.Ltp.DataFill
import SnowballLtp.Ltp.RandomRange
import SnowballLtp.Machine.Bitfield
import SnowballLtp.Ltp.WriteLog
import SnowballLtp.Ltp.WriteLogFile
import SnowballLtp.Ltp.WriteLogScan
import SnowballLtp.Ltp.WriteLogLook
import SnowballLtp.Ltp.WriteLogStop
import SnowballLtp.Ltp.WriteLogDamage
import SnowballLtp.Ltp.WriteLogSign
import SnowballLtp.Machine.Outcome
import SnowballLtp.Ltp.TstRes
import SnowballLtp.Ltp.TstAdvance
import SnowballLtp.Ltp.TstExit
import SnowballLtp.Ltp.TstCondense
import SnowballLtp.Sensors.Stdio
import SnowballLtp.Sensors.Properties
import SnowballLtp.Machine.Separated
import SnowballLtp.Machine.Decimal
import SnowballLtp.Machine.Cover
import SnowballLtp.Ltp.ParseRanges
import SnowballLtp.Ltp.KernelVersion
import SnowballLtp.Ltp.OpenFlags
import SnowballLtp.Ltp.RmObj
import SnowballLtp.Ltp.SelfExec
import SnowballLtp.Machine.RoundUp
import SnowballLtp.Dma.SizelistRandomize
import SnowballLtp.Dma.LinkSizes
import SnowballLtp.Dma.PauseLoop
import SnowballLtp.Dma.ParallelFree
import SnowballLtp.Dma.PassVerdict
import SnowballLtp.Dma.ListBounds
import SnowballLtp.Dma.TestInit
import SnowballLtp.Sensors.Closing
import SnowballLtp.Ltp.TstCatFile
import SnowballLtp.Ltp.TstFile
import SnowballLtp.Ltp.TstFirstCall
import SnowballLtp.Ltp.PatternEnds
import SnowballLtp.Ltp.RandomLong
import SnowballLtp.Machine.OneBit
import SnowballLtp.Ltp.RandomBit
import SnowballLtp.Ltp.LioMethods
import SnowballLtp.Machine.Chunks
import SnowballLtp.Ltp.LioSync
import SnowballLtp.Ltp.LioAsync
import SnowballLtp.Ltp.LioBuffer
import SnowballLtp.Machine.Strided
import SnowballLtp.Ltp.StrideBounds
import SnowballLtp.Machine.CString
import SnowballLtp.Machine.FlagList
import SnowballLtp.Ltp.OpenFlagsParse
import SnowballLtp.Machine.ScanInt
import SnowballLtp.Ltp.LioParse
import SnowballLtp.Machine.StrtokAt
import SnowballLtp.Ltp.StringToTokens
import SnowballLtp.Machine.Getopt
import SnowballLtp.Ltp.ParseOpts
import SnowballLtp.Ltp.TestLooping
import SnowballLtp.Ltp.SearchPath
import SnowballLtp.Machine.Snprintf
import SnowballLtp.Ltp.GetPath
import SnowballLtp.Machine.Retry
import SnowballLtp.Ltp.FileLock
import SnowballLtp.Machine.Halving
import SnowballLtp.Ltp.Divider
import SnowballLtp.Ltp.MountUtils
import SnowballLtp.Ltp.Forker
import SnowballLtp.Ltp.ForkerTree
import SnowballLtp.Machine.Descriptors
import SnowballLtp.Ltp.SyncPipe
import SnowballLtp.Machine.PathWalk
import SnowballLtp.Ltp.RmObjPath
import SnowballLtp.Ltp.RootPath
import SnowballLtp.Ltp.RmObjStrings
import SnowballLtp.Machine.Dirname
import SnowballLtp.Ltp.TstTmpdir
import SnowballLtp.Ltp.SyncPipeNotify
import SnowballLtp.Dma.ParallelEnd
import SnowballLtp.Dma.FaithfulEngine
import SnowballLtp.Ltp.WriteLogShared
import SnowballLtp.Ltp.TstCount
import SnowballLtp.Ltp.Invocation
import SnowballLtp.Sensors.Device
import SnowballLtp.Sensors.TestProgram
import SnowballLtp.Sensors.Programs
import SnowballLtp.Ltp.SetupHook
import SnowballLtp.Dma.UserVerdict
import SnowballLtp.Ltp.SafeMacros
import SnowballLtp.Ltp.ErrnoLog
