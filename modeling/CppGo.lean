import CppGo.Common.LockFreeRingQueue
import CppGo.Common.LockFreeRingQueueContract
import CppGo.Common.SListRefines
import CppGo.Common.TSQueue
import CppGo.Common.TSQueueContract
import CppGo.Common.TSQueueRefines
import CppGo.Common.TSQueueSpec
import CppGo.Lib.Arrivals
import CppGo.Lib.ByteStream
import CppGo.Lib.Client
import CppGo.Lib.Dealing
import CppGo.Lib.Flags
import CppGo.Lib.HandoffLock
import CppGo.Lib.History
import CppGo.Lib.LinkedList
import CppGo.Lib.LockCode
import CppGo.Lib.LockMachine
import CppGo.Lib.LockOrder
import CppGo.Lib.Machine
import CppGo.Lib.Multimap
import CppGo.Lib.Observer
import CppGo.Lib.Placement
import CppGo.Lib.Procedure
import CppGo.Lib.Rotation
import CppGo.Lib.SharedPtr
import CppGo.Lib.Slots
import CppGo.Lib.Tally
import CppGo.Lib.Tickets
import CppGo.Locking.AcquisitionOrder
import CppGo.Locking.LockContract
import CppGo.Locking.LockSequences
import CppGo.Netio.BackEnds
import CppGo.Netio.BackEndsContract
import CppGo.Netio.Epoll
import CppGo.Netio.EpollContract
import CppGo.Netio.EpollMirror
import CppGo.Netio.EpollWakeups
import CppGo.Netio.Interrupter
import CppGo.Netio.IoCalls
import CppGo.Netio.IoCallsPrompt
import CppGo.Netio.IoThread
import CppGo.Netio.IoThreadContract
import CppGo.Netio.ResidContract
import CppGo.Netio.ResidFinish
import CppGo.Netio.Select
import CppGo.Netio.SelectMirror
import CppGo.Netio.SelectMirrorContract
import CppGo.Netio.SelectRelease
import CppGo.Netio.SelectReleaseContract
import CppGo.Netio.SelectWakeups
import CppGo.Netio.SelectWakeupsContract
import CppGo.Netio.SendContract
import CppGo.Netio.SharedFd
import CppGo.Netio.SharedFdContract
import CppGo.Netio.SharedFdOwnership
import CppGo.Netio.StreamCalls
import CppGo.Netio.TimedPoll
import CppGo.Netio.TimedPollContract
import CppGo.Netio.Transfers
import CppGo.Netio.WritevArrays
import CppGo.Netio.WritevContract
import CppGo.Scheduler.Averaging
import CppGo.Scheduler.AveragingContract
import CppGo.Scheduler.Coherence
import CppGo.Scheduler.Conservation
import CppGo.Scheduler.DeadTasks
import CppGo.Scheduler.EndlessPass
import CppGo.Scheduler.IdleLoop
import CppGo.Scheduler.IdleLoopContract
import CppGo.Scheduler.Lifecycle
import CppGo.Scheduler.LifecycleContract
import CppGo.Scheduler.LinkedDispatcher
import CppGo.Scheduler.LinkedProcess
import CppGo.Scheduler.LinkedQueues
import CppGo.Scheduler.LinkedScheduler
import CppGo.Scheduler.LinkedSchedulerContract
import CppGo.Scheduler.OutsideSteps
import CppGo.Scheduler.Pass
import CppGo.Scheduler.PassContract
import CppGo.Scheduler.Places
import CppGo.Scheduler.ProcessSteps
import CppGo.Scheduler.Processer
import CppGo.Scheduler.ReleaseSteps
import CppGo.Scheduler.Scheduler
import CppGo.Scheduler.Schedulers
import CppGo.Scheduler.SchedulersContract
import CppGo.Scheduler.Shutdown
import CppGo.Scheduler.ShutdownContract
import CppGo.Scheduler.Sleep
import CppGo.Scheduler.SleepCalls
import CppGo.Scheduler.SleepContract
import CppGo.Scheduler.Steal
import CppGo.Scheduler.StealLinks
import CppGo.Scheduler.TaskBody
import CppGo.Scheduler.TaskBodyContract
import CppGo.Scheduler.TaskCache
import CppGo.Scheduler.TaskCounter
import CppGo.Scheduler.TaskFlows
import CppGo.Scheduler.TaskLife
import CppGo.Scheduler.TaskQueue
import CppGo.Scheduler.Turns
import CppGo.Sync.FastChannel
import CppGo.Sync.FastChannelCalls
import CppGo.Sync.FastChannelContract
import CppGo.Sync.FastChannelFifo
import CppGo.Sync.FastChannelSections
import CppGo.Sync.FastChannelWakeup
import CppGo.Sync.Monitor
import CppGo.Sync.MonitorCondition
import CppGo.Sync.MonitorContract
import CppGo.Sync.MonitorMutex
import CppGo.Sync.MonitorProtocol
import CppGo.Sync.MonitorSections
import CppGo.Sync.RingBuffer
import CppGo.Sync.RingBufferContract
import CppGo.Sync.WaitQueue
import CppGo.Timer.ExpiryOrder
import CppGo.Timer.HandleContract
import CppGo.Timer.PassSections
import CppGo.Timer.TimerHandle
import CppGo.Timer.TimerManager
import CppGo.Timer.TrackedTimers
import CppGo.Timer.WakeupPass
