import Ezio.Lib.Exec
import Ezio.Util
import Ezio.Util.Split
import Ezio.Event.FdIo
import Ezio.Event.EventAction
import Ezio.Event.Epoll.Basic
import Ezio.Event.Epoll.Dispatch
import Ezio.Event.Epoll.Lemmas.Basic
import Ezio.Event.Epoll.Lemmas.Update
import Ezio.Event.Epoll.Lemmas.Frame
import Ezio.Event.Epoll.Lemmas.Wf
import Ezio.Event.Epoll.Lemmas.Readiness
import Ezio.Event.Epoll.Lemmas.Listed
import Ezio.Event.Epoll.Lemmas.ChangeList
import Ezio.Event.Epoll.Lemmas.Registration
import Ezio.Event.Epoll.Lemmas.Synced
import Ezio.Event.Epoll.Lemmas.Interest
import Ezio.Event.Epoll.Lemmas.Reuse
import Ezio.Event.Epoll.Lemmas.Listen
import Ezio.Event.Epoll.Lemmas.Accept
import Ezio.Event.Epoll.Lemmas.WriteQueue
import Ezio.Event.Epoll.Lemmas.WriteOrder
import Ezio.Event.Epoll.Lemmas.Cancel
import Ezio.Event.Epoll.Lemmas.CancelState
import Ezio.Event.Epoll.Lemmas.CancelQueue
import Ezio.Event.Epoll.Lemmas.CancelSafe
import Ezio.DataStruct.RingBuffer
import Ezio.Util.Roundup
import Ezio.DataStruct.RingBuffer.Init
import Ezio.DataStruct.RingBuffer.Spsc
import Ezio.Lib.Handles
import Ezio.Lib.Ring
import Ezio.DataStruct.RingBuffer.Lemmas
import Ezio.DataStruct.RingBuffer.SpscLemmas
import Ezio.DataStruct.RingBuffer.Calls
import Ezio.DataStruct.RingBuffer.Range
import Ezio.DataStruct.RingBuffer.Reads
import Ezio.Event.IoUring.Basic
import Ezio.Event.IoUring.Dispatch
import Ezio.Event.IoUring.Lemmas.Queue
import Ezio.Event.IoUring.Lemmas.TryStep
import Ezio.Event.IoUring.Lemmas.Effect
import Ezio.Event.IoUring.Lemmas.Submit
import Ezio.Event.IoUring.Lemmas.History
import Ezio.Event.IoUring.Lemmas.Step
import Ezio.Event.IoUring.Lemmas.Lag
import Ezio.Event.IoUring.Lemmas.Turn
import Ezio.Event.IoUring.Lemmas.Completion
import Ezio.Event.IoUring.Lemmas.Routing
import Ezio.Event.IoUring.Lemmas.Deferred
import Ezio.Event.IoUring.Lemmas.Heap
import Ezio.Event.IoUring.Lemmas.Batch
import Ezio.Event.IoUring.Lemmas.Blocks
import Ezio.Event.IoUring.Lemmas.ReadBuffer
import Ezio.Event.Epoll.Lemmas.ReadBuffer
import Ezio.Event.CallbackReuse
import Ezio.Coroutine.FramePool
import Ezio.Coroutine.FramePool.ArrayPool
import Ezio.Coroutine.FramePool.Ledger
import Ezio.Coroutine.Frames
import Ezio.Coroutine.Frames.Memory
import Ezio.Coroutine.Frames.Lemmas
import Ezio.Coroutine.Frames.Step
import Ezio.Coroutine.Frames.Release
import Ezio.Coroutine.Frames.Leak
import Ezio.Coroutine.Frames.Spawned
import Ezio.Coroutine.Frames.Swept
import Ezio.Coroutine.Service
import Ezio.Coroutine.Service.Lemmas
import Ezio.Coroutine.Service.Await
import Ezio.Coroutine.Service.Multishot
import Ezio.Coroutine.Service.Resume
import Ezio.Coroutine.Service.Write
import Ezio.Coroutine.Service.ReadState
import Ezio.Coroutine.Service.Clear
import Ezio.Coroutine.Service.CancelRead
import Ezio.Coroutine.Task
import Ezio.Coroutine.Task.Compose
import Ezio.Coroutine.Task.Started
import Ezio.Event.EventLoop
import Ezio.Event.EventLoop.Ledger
import Ezio.Event.EventLoop.Jobs
import Ezio.Event.EventLoop.WakeUp
import Ezio.Event.EventLoop.Close
import Ezio.Event.EventLoop.Blocking
import Ezio.DataStruct.OptMap
import Ezio.Event.Notifier
import Ezio.Event.Notifier.Armed
import Ezio.Socket.UdpSocket
import Ezio.Socket.UdpSocket.Delivery
import Ezio.Socket.TcpSocket
import Ezio.Socket.TcpSocket.Lemmas
import Ezio.Socket.TcpSocket.Limit
import Ezio.Socket.TcpSocket.Buffers
import Ezio.Socket.TcpSocket.Owned
import Ezio.Socket.TcpSocket.Fds
import Ezio.Event.FdIo.Scatter
import Ezio.Event.FdIo.TcpRead
import Ezio.Socket.TcpSocket.ReadMsg
import Ezio.Socket.TcpSocket.Reconnect
import Ezio.Socket.TcpSocket.Channel
import Ezio.Socket.TcpSocket.Tracked
import Ezio.Socket.TcpSocket.Protocol
import Ezio.Event.Inotify
import Ezio.Event.Inotify.Read
import Ezio.Event.Inotify.Delivery
import Ezio.Event.IoUring.Lemmas.Timers
import Ezio.Event.IoUring.Lemmas.InFlight
import Ezio.Event.IoUring.Lemmas.FlightRouting
import Ezio.Event.IoUring.Lemmas.CancelTarget
import Ezio.Event.IoUring.Lemmas.SlotAlloc
import Ezio.Event.FdIo.UdpWrite
import Ezio.Event.UdpSend
import Ezio.Event.FdIo.TcpWrite
import Ezio.Event.FdIo.Cursor
import Ezio.Event.FdIo.Counts
import Ezio.Event.FdIo.FileTransfer
import Ezio.Event.FdIo.EventFdWrite
import Ezio.Event.Epoll.Lemmas.TcpTask
import Ezio.Event.Epoll.Lemmas.MultishotRead
import Ezio.Event.Epoll.Lemmas.TcpQueue
import Ezio.Event.Epoll.Lemmas.UdpFailure
import Ezio.Event.FdIo.UdpPrefix
import Ezio.Event.SignalEvent
import Ezio.Event.SignalEvent.Edge
import Ezio.Event.Epoll.Lemmas.ReadReturns
import Ezio.Event.Epoll.Lemmas.WriteSide
import Ezio.Event.FileOffset
import Ezio.Event.FileOffset.Submit
import Ezio.Event.IoUring.Lemmas.ReadAction
import Ezio.Event.IoUring.Lemmas.ReadOffset
import Ezio.Event.IoUring.Lemmas.SequentialReads
import Ezio.Event.Epoll.Lemmas.CancelCode
import Ezio.Event.Inotify.Watch
import Ezio.Event.IoUring.Lemmas.BlockFrame
import Ezio.Event.IoUring.Lemmas.GroupIds
import Ezio.Event.IoUring.Lemmas.Provided
import Ezio.Event.Poller
import Ezio.Event.Epoll.Lemmas.Deferred
import Ezio.Event.Epoll.Lemmas.RingHeaders
import Ezio.Event.Poller.Lemmas
import Ezio.Event.EventService
import Ezio.Event.EventService.Lemmas
import Ezio.Event.EventService.Stop
import Ezio.Event.EventService.SelfClose
import Ezio.Event.EventLoop.Handlers
import Ezio.Coroutine.Frames.Apart
import Ezio.Socket.TcpSocket.ConnectFds
import Ezio.Event.Timer
import Ezio.Event.Timer.Backend
import Ezio.Event.Timer.Served
import Ezio.Event.Timer.Calls
import Ezio.Event.Timer.Dispatched
import Ezio.Event.Timer.Handled
import Ezio.Event.Epoll.Lemmas.Owned
