import TinyMuduo.Lib.Machine
import TinyMuduo.Lib.Block
import TinyMuduo.Lib.ByteOrder
import TinyMuduo.Buffer.Model
import TinyMuduo.Buffer.Correct
import TinyMuduo.Buffer.Deque
import TinyMuduo.Conn.Model
import TinyMuduo.Conn.Correct
import TinyMuduo.Conn.Stream
import TinyMuduo.Conn.Shutdown
import TinyMuduo.Poller.Model
import TinyMuduo.Poller.Registry
import TinyMuduo.Poller.Agree
import TinyMuduo.Lib.OrdSet
import TinyMuduo.Loop.Functors
import TinyMuduo.Timer.Model
import TinyMuduo.Lib.Heap
import TinyMuduo.Timer.Queue
import TinyMuduo.Timer.Ownership
import TinyMuduo.Timer.Cancel
import TinyMuduo.Timer.Arming
import TinyMuduo.Loop.Thread
import TinyMuduo.Timer.Identity
import TinyMuduo.Server.Names
import TinyMuduo.Lib.Incremental
import TinyMuduo.Codec.Model
import TinyMuduo.Codec.Wire
import TinyMuduo.Codec.Correct
import TinyMuduo.Http.Model
import TinyMuduo.Http.Parse
import TinyMuduo.Http.Grammar
import TinyMuduo.Http.Server
import TinyMuduo.Log.Model
import TinyMuduo.Log.Async
import TinyMuduo.Server.Model
import TinyMuduo.Server.Stage
import TinyMuduo.Server.Invariant
import TinyMuduo.Server.Steps
import TinyMuduo.Server.Lifecycle
import TinyMuduo.Server.Destroy
import TinyMuduo.Base.BoundedBlockingQueue
import TinyMuduo.Base.ThreadPool
import TinyMuduo.Base.ThreadPoolWait
import TinyMuduo.Conn.FlowControl
import TinyMuduo.Timer.Due
import TinyMuduo.Rpc.Channel
import TinyMuduo.Rpc.Match
import TinyMuduo.Lib.LowerBound
import TinyMuduo.Zone.Model
import TinyMuduo.Zone.Local
import TinyMuduo.Zone.File
import TinyMuduo.Conn.Watch
import TinyMuduo.Conn.Closed
import TinyMuduo.Client.Attempts
import TinyMuduo.Buffer.Ints
import TinyMuduo.Client.Sockets
import TinyMuduo.Http.Headers
import TinyMuduo.Poller.Mirror
import TinyMuduo.Date.Julian
import TinyMuduo.Log.LogFile
import TinyMuduo.Log.Logger
import TinyMuduo.Log.Format
import TinyMuduo.Conn.Interest
import TinyMuduo.Rpc.Peers
import TinyMuduo.Rpc.EndToEnd
import TinyMuduo.Rpc.Completion
import TinyMuduo.Rpc.Stream
import TinyMuduo.Client.TcpClient
import TinyMuduo.Client.Handover
import TinyMuduo.Client.Lifecycle
import TinyMuduo.Client.Removed
import TinyMuduo.Server.Acceptor
import TinyMuduo.Server.Reserve
import TinyMuduo.Base.CountDownLatch
import TinyMuduo.Base.BlockingQueue
import TinyMuduo.Http.Response
import TinyMuduo.Http.EndToEnd
import TinyMuduo.Lib.Refine
import TinyMuduo.Idle.Wheel
import TinyMuduo.Idle.SortedList
import TinyMuduo.Lib.ExactCover
import TinyMuduo.Lib.Ring
import TinyMuduo.Server.Balance
import TinyMuduo.Sudoku.Build
import TinyMuduo.Sudoku.Create
import TinyMuduo.Sudoku.Rules
import TinyMuduo.Sudoku.Correct
