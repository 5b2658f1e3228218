import Uartd.Lib.Transition
import Uartd.Lib.Progress
import Uartd.Lib.Segment
import Uartd.Lib.Family
import Uartd.Lib.Fifo
import Uartd.Lib.Mailbox
import Uartd.LinkList.Basic
import Uartd.LinkList.Refinement
import Uartd.LinkList.Queue
import Uartd.LinkList.Destroy
import Uartd.LinkList.Consumers
import Uartd.LinkList.Alloc
import Uartd.LinkList.AddData
import Uartd.ThreadPool.Basic
import Uartd.ThreadPool.Chain
import Uartd.ThreadPool.Invariant
import Uartd.ThreadPool.Refinement
import Uartd.ThreadPool.Wakeups
import Uartd.ThreadPool.Shutdown
import Uartd.Lib.Ring
import Uartd.DataFifo.Basic
import Uartd.DataFifo.Refinement
import Uartd.DataFifo.Range
import Uartd.Lib.Writes
import Uartd.Lib.CString
import Uartd.Lib.Framing
import Uartd.Lib.Loop
import Uartd.Lib.Stdio
import Uartd.Lib.Malloc
import Uartd.Lib.Lines
import Uartd.Lib.Rows
import Uartd.DataFifo.Graph
import Uartd.Lib.Decimal
import Uartd.Message.Protocol
import Uartd.Message.Basic
import Uartd.Message.Wakeups
import Uartd.Message.Sender
import Uartd.Message.Sending
import Uartd.Message.ShortWrites
import Uartd.Message.ReadySend
import Uartd.Message.Overrun
import Uartd.Message.Dispatch
import Uartd.Protocol.FileLines
import Uartd.Protocol.Time
import Uartd.Protocol.Tables
import Uartd.ThreadPool.Handover
import Uartd.ThreadPool.Teardown
import Uartd.ThreadPool.Progress
import Uartd.Receive.Basic
import Uartd.Receive.Threads
import Uartd.Receive.Token
import Uartd.Receive.Orphan
import Uartd.Receive.Rounds
import Uartd.Receive.Pipe
import Uartd.Receive.WholeRead
import Uartd.Receive.UartRead
import Uartd.Receive.Order
import Uartd.Receive.Tickets
import Uartd.Receive.SockJobs
import Uartd.Receive.Servers
import Uartd.Receive.Progress
import Uartd.Receive.Account
import Uartd.Receive.Contiguous
import Uartd.Message.Threads
import Uartd.Daemon.Basic
import Uartd.Daemon.Rounds
import Uartd.Daemon.Requests
import Uartd.Daemon.Consumers
import Uartd.Daemon.Replies
import Uartd.Dueros.Basic
import Uartd.Dueros.Writing
import Uartd.Dueros.Bounds
import Uartd.Dueros.Strings
import Uartd.Dueros.Decode
import Uartd.Dueros.Frames
import Uartd.Report.HttpReply
import Uartd.Report.ExcuteCmd
import Uartd.Lib.Calls
import Uartd.Lib.Collate
import Uartd.TestMode.Broadcast
import Uartd.Report.CurTime
import Uartd.Report.KeyReport
import Uartd.Report.Leftovers
import Uartd.Startup.Basic
import Uartd.Startup.Ready
import Uartd.Lib.Critical
import Uartd.DataFifo.Threads
