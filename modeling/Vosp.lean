import Vosp.Lib.System
import Vosp.Lib.Count
import Vosp.Lib.Ring
import Vosp.Lib.Fifo
import Vosp.Lib.PackedWord
import Vosp.Error.Basic
import Vosp.Pool.Config
import Vosp.Pool.Memory
import Vosp.Pool.Code
import Vosp.Pool.Effect
import Vosp.Pool.Program
import Vosp.Pool.Edge
import Vosp.Lib.Mutex
import Vosp.Pool.Locks
import Vosp.Pool.Local
import Vosp.Pool.Word
import Vosp.Pool.Counted
import Vosp.Pool.Queue
import Vosp.Pool.Claim
import Vosp.Pool.Refinement
import Vosp.Pool.Solo
import Vosp.Pool.Idle
import Vosp.Pool.Fresh
import Vosp.Pool.Settlement
import Vosp.Pool.Stopping
import Vosp.Pool.Joining
import Vosp.Pool.Submission
import Vosp.Pool.Shutdown
import Vosp.Pool.Cancellation
import Vosp.Pool.Sleep
import Vosp.Pool.Stranded
import Vosp.Pool.Space
import Vosp.Pool.Waiting
import Vosp.Lib.WaitGraph
import Vosp.Pool.Deadlock
import Vosp.Pool.Order
import Vosp.Lib.BoundedMap
import Vosp.Error.Register
import Vosp.Error.RegisterSpec
import Vosp.Error.Handler
import Vosp.Error.Routing
import Vosp.Error.AsyncSystem
import Vosp.Error.AsyncStep
import Vosp.Error.Serialization
import Vosp.Error.AsyncRefinement
import Vosp.Lib.Lines
import Vosp.Logger.Basic
import Vosp.Logger.TextRecord
import Vosp.Logger.Sink
import Vosp.Logger.ReadBack
import Vosp.Lib.Merge
import Vosp.Logger.BufferedSystem
import Vosp.Logger.BufferedStep
import Vosp.Logger.Shards
import Vosp.Logger.Records
import Vosp.Logger.Covered
import Vosp.Logger.Buffered
import Vosp.Lib.Linear
import Vosp.Logger.SyncLogger
import Vosp.Logger.SyncLoggerStep
import Vosp.Logger.AsyncLogger
import Vosp.Logger.AsyncLoggerStep
import Vosp.Logger.LoggerLocks
import Vosp.Logger.LoggerLedger
import Vosp.Logger.LoggerCalls
import Vosp.Logger.LoggerDelivery
import Vosp.Logger.LoggerFlush
import Vosp.Logger.LoggerEntries
import Vosp.Logger.LoggerDeadlock
import Vosp.Logger.SinkSelection
import Vosp.Logger.TextEncoding
import Vosp.Pool.Fields
import Vosp.Pool.Bulk
import Vosp.Logger.SerializedDispatch
import Vosp.Logger.ShardCache
import Vosp.Logger.CachedShard
import Vosp.Logger.ShardReturns
import Vosp.Logger.Broadcast
import Vosp.Logger.Backend
import Vosp.Logger.BackendLink
import Vosp.Logger.BackendBroadcast
import Vosp.Lib.Termination
import Vosp.Logger.LoggerProgress
import Vosp.Error.ConcurrentSystem
import Vosp.Error.SharedRegisters
import Vosp.Logger.SyncTermination
import Vosp.Error.RegisterTermination
import Vosp.Logger.Immediate
import Vosp.Pool.Barrier
import Vosp.Pool.WindDown
import Vosp.Logger.TextDelivery
import Vosp.Logger.TextComplete
import Vosp.Pool.Construction
import Vosp.Error.AsyncShutdown
import Vosp.Error.AsyncWindDown
import Vosp.Logger.Capture
import Vosp.Logger.ErrorText
import Vosp.Pool.Quiescence
import Vosp.Error.AsyncQuiescence
