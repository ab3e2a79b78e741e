import GreenThreads.Lib.Trans
import GreenThreads.Lib.Progress
import GreenThreads.Lib.Outbox
import GreenThreads.Lib.Ledger
import GreenThreads.Lib.Heap
import GreenThreads.Lib.HeapOrder
import GreenThreads.Lib.GoInt
import GreenThreads.Lib.Purge
import GreenThreads.Lib.GoSlice
import GreenThreads.Lib.BoundedLog
import GreenThreads.Lib.Backlog
import GreenThreads.Lib.FixedWindow
import GreenThreads.Fiber
import GreenThreads.FiberRun
import GreenThreads.Stack
import GreenThreads.Metrics
import GreenThreads.Histogram
import GreenThreads.MetricsLifetime
import GreenThreads.EventTracker
import GreenThreads.EventLog
import GreenThreads.Sync.Calls
import GreenThreads.Sync.Tracking
import GreenThreads.Sync.WaitQueue
import GreenThreads.Sync.Mutex
import GreenThreads.Sync.MutexRun
import GreenThreads.Sync.RWMutex
import GreenThreads.Sync.RWMutexRun
import GreenThreads.Sync.Channel
import GreenThreads.Sync.ChannelRun
import GreenThreads.Sync.ChannelSpec
import GreenThreads.Sync.ChannelMap
import GreenThreads.Sync.ChannelVariants
import GreenThreads.Sync.TypedChannel
import GreenThreads.Sync.Semaphore
import GreenThreads.Sync.SemaphoreRun
import GreenThreads.Sync.WaitGroup
import GreenThreads.Sync.WaitGroupRun
import GreenThreads.Sync.Blocking
import GreenThreads.Sync.Records
import GreenThreads.Sync.BlockingRun
import GreenThreads.Scheduler.Base
import GreenThreads.Scheduler.Priority
import GreenThreads.Scheduler.PriorityIndex
import GreenThreads.Scheduler.PriorityNext
import GreenThreads.Scheduler.PriorityAging
import GreenThreads.Scheduler.PriorityOrder
import GreenThreads.Scheduler.PriorityTier
import GreenThreads.Scheduler.PriorityUpdate
import GreenThreads.Scheduler.Queue
import GreenThreads.Scheduler.QueueOrder
import GreenThreads.Scheduler.WorkStealing
import GreenThreads.Scheduler.WorkStealingRun
import GreenThreads.Scheduler.WorkStealingWait
import GreenThreads.Scheduler.Contract
import GreenThreads.Scheduler.Stats
import GreenThreads.Scheduler.Closing
import GreenThreads.Scheduler.Sections
import GreenThreads.Runtime.State
import GreenThreads.Runtime.Step
import GreenThreads.Runtime.Effects
import GreenThreads.Runtime.Life
import GreenThreads.Runtime.LifeInv
import GreenThreads.Runtime.Runs
import GreenThreads.Runtime.Progress
import GreenThreads.Runtime.Dispatch
import GreenThreads.Runtime.Scheduling
import GreenThreads.Runtime.Timeline
import GreenThreads.Runtime.DispatchOrder
import GreenThreads.Runtime.Exhaustion
import GreenThreads.Runtime.Accounting
import GreenThreads.Runtime.Admission
import GreenThreads.Runtime.Cap
import GreenThreads.Runtime.Rejection
import GreenThreads.Runtime.Maps
import GreenThreads.Runtime.Gauge
import GreenThreads.Runtime.Counters
import GreenThreads.Runtime.Totals
import GreenThreads.Runtime.InFlight
import GreenThreads.Runtime.Completion
import GreenThreads.Runtime.Isolation
import GreenThreads.Runtime.Cancel
import GreenThreads.Runtime.Callers
import GreenThreads.Runtime.SpawnGroup
import GreenThreads.Runtime.SpawnWithResult
import GreenThreads.Runtime.SpawnWithTimeout
import GreenThreads.Runtime.Deadlock
import GreenThreads.Runtime.DeadlockHistory
import GreenThreads.Runtime.Detector
import GreenThreads.Runtime.Detection
import GreenThreads.Runtime.Shutdown
import GreenThreads.Web.Exposition
import GreenThreads.Web.Clients
import GreenThreads.Web.RateLimit
import GreenThreads.Web.Control
import GreenThreads.Web.Swap
import GreenThreads.Web.Broadcast
import GreenThreads.Web.Pump
import GreenThreads.Web.PumpRun
import GreenThreads.Web.Access
import GreenThreads.Web.Instances
