import DamnWebServer.Lib.Transition
import DamnWebServer.Base.Machine
import DamnWebServer.Net.Buffer
import DamnWebServer.Net.BufferQueue
import DamnWebServer.Net.Poller
import DamnWebServer.Net.TcpConnection
import DamnWebServer.Net.ConnectionOutput
import DamnWebServer.Net.ConnectionState
import DamnWebServer.Net.EventLoop
import DamnWebServer.Net.EventLoopWakeup
import DamnWebServer.Lib.OrderedSet
import DamnWebServer.Net.TimerQueue
import DamnWebServer.Net.TimerQueueRep
import DamnWebServer.Net.TimerRuns
import DamnWebServer.Base.Bytes
import DamnWebServer.Base.Decimal
import DamnWebServer.Base.Timestamp
import DamnWebServer.Http.Context
import DamnWebServer.Http.Lines
import DamnWebServer.Http.Server
import DamnWebServer.Http.RequestLine
import DamnWebServer.Http.Parsing
import DamnWebServer.Http.Segmentation
import DamnWebServer.Net.ConnectionHandlers
import DamnWebServer.Lib.Queues
import DamnWebServer.Net.TcpServer
import DamnWebServer.Net.ServerStages
import DamnWebServer.Net.ServerInvariant
import DamnWebServer.Net.ServerLife
import DamnWebServer.Net.ChannelDispatch
import DamnWebServer.Net.ServerSingle
import DamnWebServer.Net.ServerTeardown
import DamnWebServer.Net.PollerRuns
import DamnWebServer.Net.TimerAlarm
import DamnWebServer.Net.TimerCancel
import DamnWebServer.Http.Incremental
import DamnWebServer.Http.RequestHead
import DamnWebServer.Http.ResponseText
import DamnWebServer.Net.ConnectionShutdown
import DamnWebServer.Net.Descriptors
import DamnWebServer.Log.FixedBuffer
import DamnWebServer.Log.LogStream
import DamnWebServer.Log.IntegerText
import DamnWebServer.Log.StreamRoom
import DamnWebServer.Log.Logger
import DamnWebServer.Log.AsyncLogging
import DamnWebServer.Log.AsyncBuffers
import DamnWebServer.Log.AsyncStop
import DamnWebServer.Log.LogSink
import DamnWebServer.Log.TimeText
import DamnWebServer.Log.FileUtil
import DamnWebServer.Log.LogFile
import DamnWebServer.Log.LogRolling
import DamnWebServer.Net.BufferRoom
import DamnWebServer.Net.PollerQuiet
import DamnWebServer.Http.ParseRuns
import DamnWebServer.Net.ConnectionSend
import DamnWebServer.Lib.Journal
import DamnWebServer.Log.LogPipeline
import DamnWebServer.Http.Exchange
import DamnWebServer.Http.HttpConnection
import DamnWebServer.Net.ServerBooks
import DamnWebServer.Lib.Potential
import DamnWebServer.Net.ServerWork
import DamnWebServer.Lib.Monitor
import DamnWebServer.Base.CountDownLatch
import DamnWebServer.Base.Thread
import DamnWebServer.Net.EventLoopThread
import DamnWebServer.Net.EventLoopThreadRuns
import DamnWebServer.Log.RecordText
import DamnWebServer.Log.LogReadBack
import DamnWebServer.Log.AsyncReturn
import DamnWebServer.Lib.RoundRobin
import DamnWebServer.Net.EpollPoller
