import Lotta.Lib.Runs
import Lotta.Lib.Simulation
import Lotta.Lib.Countdown
import Lotta.Lib.Fifo
import Lotta.Lib.Tagged
import Lotta.Lib.Search
import Lotta.Lib.SwapRemove
import Lotta.Lib.Overwrite
import Lotta.Lib.ByteOrder
import Lotta.Buffer
import Lotta.BufferQueue
import Lotta.BufferSplit
import Lotta.Channel
import Lotta.PollPoller
import Lotta.PollIndex
import Lotta.PollRegistry
import Lotta.PollRemoval
import Lotta.WatchedSet
import Lotta.Dispatch
import Lotta.TcpConnection
import Lotta.Outbound
import Lotta.ConnectionLoop
import Lotta.BufferedOutput
import Lotta.ConnectionEffects
import Lotta.Lifecycle
import Lotta.HalfClose
import Lotta.EventLoop
import Lotta.LoopQuit
import Lotta.LoopProgress
import Lotta.OutputProgress
import Lotta.OrderlyShutdown
import Lotta.EventLoopThread
import Lotta.ThreadJoin
import Lotta.EventLoopPool
import Lotta.CrossThread
import Lotta.SendOrder
import Lotta.SendProgress
import Lotta.Lib.Multimap
import Lotta.TimerQueue
import Lotta.TimerArming
import Lotta.TimerRun
import Lotta.TimerLookup
import Lotta.TimerCancel
import Lotta.TimerFd
import Lotta.TimerKept
import Lotta.SharedTimers
import Lotta.ReadStream
import Lotta.ReadFailure
import Lotta.TwoEnds
import Lotta.BufferRevoke
import Lotta.BufferInt
import Lotta.BufferSpace
import Lotta.Connector
import Lotta.ConnectorErrors
import Lotta.ConnectorAttempts
import Lotta.ConnectorSockets
import Lotta.Acceptor
import Lotta.TcpClient
import Lotta.ClientTeardown
import Lotta.TcpServer
import Lotta.Ownership
import Lotta.ConnTable
import Lotta.PooledServer
import Lotta.ServerTeardown
import Lotta.Http.Message
import Lotta.Http.Parser
import Lotta.Http.RoundTrip
import Lotta.Http.Server
import Lotta.Http.Accepted
import Lotta.Http.Slices
import Lotta.Http.Delivery
import Lotta.Http.Rejected
import Lotta.Http.Framing
import Lotta.Http.Exceptions
import Lotta.Http.Dialogue
import Lotta.Http.Connection
