import Dwater.Lib.Fallible
import Dwater.Lib.Heap
import Dwater.Lib.Search
import Dwater.Lib.Window
import Dwater.Base.Types
import Dwater.Base.Timestamp
import Dwater.Lib.Calendar
import Dwater.Lib.Checked
import Dwater.Base.Format
import Dwater.Base.Date
import Dwater.Base.UtcTime
import Dwater.Base.TimeZone
import Dwater.Base.LocalTime
import Dwater.Base.Governing
import Dwater.Base.ProcessInfo
import Dwater.Base.ReadSmallFile
import Dwater.Lib.CondVar
import Dwater.Base.Sync.BoundedBlockingQueue
import Dwater.Base.Sync.ThreadPool
import Dwater.Lib.Linearization
import Dwater.Base.Atomic
import Dwater.Base.Logging.FixedBuffer
import Dwater.Base.Logging.LogFile
import Dwater.Base.Logging.Rolling
import Dwater.Base.Logging.Accounting
import Dwater.Base.Logging.AsyncLogging
import Dwater.Base.Logging.Delivery
import Dwater.Net.Buffer
import Dwater.Net.ByteQueue
import Dwater.Net.Channel
import Dwater.Net.TcpConnection
import Dwater.Net.OutputStream
import Dwater.Net.EventLoop
import Dwater.Net.Wakeup
import Dwater.Net.GracefulShutdown
import Dwater.Net.TcpServer
import Dwater.Net.ServerStart
import Dwater.Net.Lifecycle.Steps
import Dwater.Net.Lifecycle.Stages
import Dwater.Net.Lifecycle.Methods
import Dwater.Net.Lifecycle.Frames
import Dwater.Net.Lifecycle.Runs
import Dwater.Net.Lifecycle.ServerProcess
import Dwater.Net.Lifecycle.LivesOnce
import Dwater.Net.Http.HttpRequest
import Dwater.Net.Http.HttpContext
import Dwater.Net.Http.HttpServer
import Dwater.Net.Http.Reading
import Dwater.Net.Http.Safety
import Dwater.Net.Http.WireRequest
import Dwater.Net.Http.Segmentation
import Dwater.Net.Http.Headers
import Dwater.Net.Http.Decoding
import Dwater.Net.Http.HttpResponse
import Dwater.Net.Http.ResponseReader
import Dwater.Net.Http.ResponseDecoding
import Dwater.Net.Timers.TimerQueue
import Dwater.Net.Timers.Sets
import Dwater.Net.Timers.Places
import Dwater.Net.Timers.Deadline
import Dwater.Net.FunctorOrder
import Dwater.Lib.Prerequisites
import Dwater.Net.Timers.Handles
import Dwater.Net.Timers.Cancellation
import Dwater.Net.EventLoopThread
import Dwater.Net.Poller.EpollPoller
import Dwater.Lib.Slots
import Dwater.Net.Poller.PollPoller
import Dwater.Net.Poller.Agreement
import Dwater.Net.Poller.PollArray
import Dwater.Net.Backlog
import Dwater.Net.HandleEvent
import Dwater.Net.SilentClose
import Dwater.Net.Lifecycle.Progress
import Dwater.Net.Lifecycle.Registry
import Dwater.Net.Client.Connector
import Dwater.Net.Client.TcpClient
import Dwater.Net.Client.Attempts
import Dwater.Net.Client.Sockets
import Dwater.Net.Dispatch.LoopWorld
import Dwater.Net.Dispatch.Contracts
import Dwater.Net.Dispatch.Invariant
import Dwater.Net.Dispatch.ActiveChannels
import Dwater.Net.Http.HeaderSection
import Dwater.Net.Http.Incremental
import Dwater.Lib.Radix
import Dwater.Net.FlowControl
import Dwater.Net.NetworkInt
import Dwater.Base.Logging.LogStream
import Dwater.Base.Logging.SourceFile
import Dwater.Lib.Numeral
import Dwater.Base.Logging.Numbers
import Dwater.Base.Logging.FormatTime
import Dwater.Base.Logging.Logger
import Dwater.Base.Logging.Recycling
import Dwater.Base.ZoneFile
import Dwater.Base.ZoneValidity
import Dwater.Net.Timers.Steps
import Dwater.Net.Timers.TimerRun
import Dwater.Net.Timers.Firing
import Dwater.Net.Timers.CancelTarget
import Dwater.Net.MessageService
import Dwater.Demo.Echo
import Dwater.Net.Http.Service
import Dwater.Net.Poller.Readiness
import Dwater.Base.Sync.PoolShutdown
import Dwater.Lib.Descriptors
import Dwater.Net.Acceptor
import Dwater.Lib.RoundRobin
import Dwater.Net.EventLoopThreadPool
import Dwater.Lib.Monitor
import Dwater.Base.Sync.MutexLock
import Dwater.Base.Sync.QueueLocking
import Dwater.Base.Sync.CountDownLatch
import Dwater.Base.Sync.ThreadStart
import Dwater.Net.Timers.Intervals
import Dwater.Lib.Framing
import Dwater.Net.Http.AnyInput
