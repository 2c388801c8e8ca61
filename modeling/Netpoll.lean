import Netpoll.Runs
import Netpoll.Bytes
import Netpoll.Post
import Netpoll.MessageBuffer
import Netpoll.BufferRep
import Netpoll.BufferStore
import Netpoll.BufferSeq
import Netpoll.Channel
import Netpoll.Connection
import Netpoll.SendPath
import Netpoll.SendRuns
import Netpoll.Shutdown
import Netpoll.Lifecycle
import Netpoll.Precedes
import Netpoll.SendOrder
import Netpoll.OwnShutdown
import Netpoll.Rounding
import Netpoll.TimingWheel
import Netpoll.Cascade
import Netpoll.WheelRelease
import Netpoll.IdleKick
import Netpoll.MinQueue
import Netpoll.TimerQueue
import Netpoll.TimerLaw
import Netpoll.LoopTimers
import Netpoll.Fifo
import Netpoll.MpscFifo
import Netpoll.EventLoop
import Netpoll.LoopRuns
import Netpoll.ConnSet
import Netpoll.Closed
import Netpoll.Connector
import Netpoll.Ledger
import Netpoll.SocketOwner
import Netpoll.TcpClient
import Netpoll.OneAttempt
import Netpoll.Reconnect
import Netpoll.TimerTags
import Netpoll.ActiveTimers
import Netpoll.WheelInsert
import Netpoll.WheelTeardown
import Netpoll.TimerFd
import Netpoll.ClientConn
import Netpoll.Pollers
import Netpoll.SelfLock
import Netpoll.Portable
import Netpoll.BufferReach
import Netpoll.BufferCopy
import Netpoll.BufferGrowth
import Netpoll.IntFraming
import Netpoll.AttemptReport
import Netpoll.WriteQueue
import Netpoll.BytesSent
import Netpoll.WriteComplete
import Netpoll.FileRest
import Netpoll.EncodeUtil
import Netpoll.InetAddress
import Netpoll.QuitFlag
import Netpoll.SplitString
import Netpoll.Mutex
import Netpoll.WorkerPool
import Netpoll.PollArray
import Netpoll.Registrations
import Netpoll.ServerStop
import Netpoll.StopSafe
import Netpoll.Resolver
import Netpoll.ResolverAnswers
import Netpoll.ResolverLock
import Netpoll.PrefixCode
import Netpoll.ChatCodec
import Netpoll.ChatSession
import Netpoll.LoopThread
import Netpoll.RunReturns
import Netpoll.HttpContext
import Netpoll.HttpServer
import Netpoll.FileTable
import Netpoll.Acceptor
import Netpoll.LoopPool
import Netpoll.Dispatch
