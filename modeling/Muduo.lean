import Muduo.Lib.Lts
import Muduo.Lib.Pipe
import Muduo.Proofs.Buffer
import Muduo.Proofs.Channel
import Muduo.TcpConnection
import Muduo.Proofs.Handlers
import Muduo.History
import Muduo.ConnSystem
import Muduo.Proofs.ConnSystem
import Muduo.Proofs.Output
import Muduo.Trace
import Muduo.Lib.Transcript
import Muduo.Proofs.Shutdown
import Muduo.Proofs.LoopOnly
import Muduo.Proofs.State
import Muduo.Proofs.Destroyed
import Muduo.Proofs.Callbacks
import Muduo.EventLoop
import Muduo.Proofs.EventLoop
import Muduo.Proofs.Wakeup
import Muduo.Proofs.Quit
import Muduo.EventLoopThread
import Muduo.Proofs.EventLoopThread
import Muduo.Poller
import Muduo.Proofs.Poller
import Muduo.BufferSystem
import Muduo.Proofs.BufferSystem
import Muduo.Proofs.FailedCalls
import Muduo.TcpServer
import Muduo.ServerTrace
import Muduo.Proofs.Marks
import Muduo.Proofs.Names
import Muduo.Proofs.TcpServer
import Muduo.Proofs.Wired
import Muduo.Proofs.Ownership
import Muduo.Proofs.Tally
import Muduo.Proofs.Counted
import Muduo.Proofs.Orderly
import Muduo.Proofs.ServerDestroyed
import Muduo.Proofs.Alive
import Muduo.Proofs.ServerView
import Muduo.Proofs.Lifecycle
import Muduo.Proofs.BufferCalls
import Muduo.Proofs.BufferStorage
import Muduo.EventLoopThreadPool
import Muduo.Proofs.EventLoopThreadPool
import Muduo.Proofs.Registry
import Muduo.OutputSystem
import Muduo.Proofs.Notify
import Muduo.Proofs.ServerRegistry
import Muduo.Proofs.Placement
import Muduo.Proofs.ServerConns
import Muduo.Lib.Decoder
import Muduo.Session
import Muduo.Proofs.Session
import Muduo.Proofs.Programs
import Muduo.Lib.Family
import Muduo.PoolSystem
import Muduo.Proofs.OwnerQuits
import Muduo.Proofs.PoolSystem
import Muduo.Proofs.OwnSteps
import Muduo.Proofs.PoolStart
import Muduo.PollLoop
import Muduo.Proofs.PollLoop
import Muduo.Proofs.Turns
import Muduo.Proofs.Drain
import Muduo.Proofs.Delivered
import Muduo.Proofs.AtRest
import Muduo.Proofs.Confined
import Muduo.Proofs.Runs
import Muduo.Proofs.Progress
import Muduo.Proofs.Work
import Muduo.Proofs.ServerStart
import Muduo.Proofs.ServerListens
