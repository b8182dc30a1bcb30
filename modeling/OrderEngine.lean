import OrderEngine.Library.Runs
import OrderEngine.Library.Flow
import OrderEngine.Library.Potential
import OrderEngine.Library.EventLoop
import OrderEngine.Library.SideBySide
import OrderEngine.Library.VersionedCell
import OrderEngine.Library.RowUpdate
import OrderEngine.Library.StringOps
import OrderEngine.Library.LastWins
import OrderEngine.Library.RoundRobin
import OrderEngine.Library.Decimal
import OrderEngine.Library.Journal
import OrderEngine.InventorySchema
import OrderEngine.DecrementInventory
import OrderEngine.ConcurrentDecrement
import OrderEngine.ConcurrentCalls
import OrderEngine.CleanupEvent
import OrderEngine.CleanupRestores
import OrderEngine.CleanupRuns
import OrderEngine.CleanupAtomicity
import OrderEngine.InventoryWriters
import OrderEngine.ConcurrentWriters
import OrderEngine.StockLog
import OrderEngine.Reactor
import OrderEngine.ReactorThreads
import OrderEngine.ReactorWakeup
import OrderEngine.ReactorQueue
import OrderEngine.TaskProgress
import OrderEngine.GracefulQuit
import OrderEngine.LoopTermination
import OrderEngine.TaskLatency
import OrderEngine.ReactorTimers
import OrderEngine.PeriodicTasks
import OrderEngine.EpollPoller
import OrderEngine.EventArray
import OrderEngine.ActiveChannels
import OrderEngine.PollerRegistration
import OrderEngine.PollerFailures
import OrderEngine.SelectPoller
import OrderEngine.AcceptTeardown
import OrderEngine.TcpConnection
import OrderEngine.PeerAddress
import OrderEngine.IdleTimeout
import OrderEngine.WriteInterest
import OrderEngine.OutputStream
import OrderEngine.EchoServer
import OrderEngine.TcpServer
import OrderEngine.ServerShape
import OrderEngine.ConnectionRegistry
import OrderEngine.ConnectionChannels
import OrderEngine.SocketRelease
import OrderEngine.DescriptorLimit
import OrderEngine.MessageOrder
import OrderEngine.ConnectionLife
import OrderEngine.InterestHistory
import OrderEngine.ServerRest
import OrderEngine.LoopSchedule
import OrderEngine.SendSteps
import OrderEngine.Broadcast
import OrderEngine.StuckOutput
import OrderEngine.ServerStop
import OrderEngine.ReactorPool
import OrderEngine.ConnectionBalance
import OrderEngine.AcceptLoop
import OrderEngine.ConnectionTurns
import OrderEngine.ConfigParse
import OrderEngine.ConfigNames
import OrderEngine.ConfigReload
import OrderEngine.ConfigText
import OrderEngine.ConfigGetters
import OrderEngine.ConfigSetters
import OrderEngine.ServerPort
import OrderEngine.ListeningSocket
