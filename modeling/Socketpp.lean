import Socketpp.Lib.Machine
import Socketpp.Lib.Cells
import Socketpp.Lib.Lock
import Socketpp.Lib.Slices
import Socketpp.Lib.Text
import Socketpp.Lib.Requests
import Socketpp.Lib.Keys
import Socketpp.Lib.Inbox
import Socketpp.Lib.Owners
import Socketpp.Lib.Tables
import Socketpp.Platform
import Socketpp.Platform.Error
import Socketpp.Net.TextForm
import Socketpp.Net.Address
import Socketpp.Event.Loop
import Socketpp.Event.PostBuffers
import Socketpp.Event.RunLoop
import Socketpp.Event.Wakers
import Socketpp.Event.StopSequence
import Socketpp.Event.Epoll
import Socketpp.Event.EpollMask
import Socketpp.Event.Poll
import Socketpp.Event.TimerCancel
import Socketpp.Event.TimerHandle
import Socketpp.Event.IocpTimers
import Socketpp.Event.TimerProgram
import Socketpp.Event.KqueueInterest
import Socketpp.Event.IocpDgram
import Socketpp.Event.IocpSlots
import Socketpp.Event.IocpStream
import Socketpp.Socket.SmallVector
import Socketpp.Socket.Options
import Socketpp.Socket.OptionPasses
import Socketpp.Socket.Durations
import Socketpp.Socket.Multicast
import Socketpp.Socket.AddressLength
import Socketpp.Net.AddressKeys
import Socketpp.Socket.Handle
import Socketpp.Socket.Open
import Socketpp.Socket.AcceptLoop
import Socketpp.Socket.ConnectAsync
import Socketpp.Socket.IocpConnect
import Socketpp.Socket.LoopDestruction
import Socketpp.Socket.UdpBatch
import Socketpp.Socket.UdpMux
import Socketpp.Socket.UdpMuxReceive
import Socketpp.Socket.UdpMuxProgress
import Socketpp.Socket.UdpMuxRegistry
import Socketpp.High.ThreadPool
import Socketpp.High.PoolWorkers
import Socketpp.High.SerialQueue
import Socketpp.High.SerialProgress
import Socketpp.High.Posts
import Socketpp.High.ConnectionEngine
import Socketpp.High.ConnectionSteps
import Socketpp.High.ConnectionLoop
import Socketpp.High.WritePath
import Socketpp.High.Backpressure
import Socketpp.High.Pause
import Socketpp.High.WriteInterest
import Socketpp.High.GracefulClose
import Socketpp.High.ConnectionProgress
import Socketpp.High.Stream
import Socketpp.High.StreamSteps
import Socketpp.High.StreamCallbacks
import Socketpp.High.StreamInvariant
import Socketpp.High.StreamTable
import Socketpp.High.StreamLifetime
import Socketpp.High.StreamSerial
import Socketpp.High.StreamQuiet
import Socketpp.High.StreamLink
import Socketpp.High.StreamConn
import Socketpp.High.StreamWork
import Socketpp.High.StreamProgress
import Socketpp.High.StreamDestroy
import Socketpp.High.LinkProgress
import Socketpp.High.DgramBatch
import Socketpp.High.DgramReceive
import Socketpp.High.DgramPipeline
import Socketpp.High.DgramProgress
import Socketpp.High.DgramTable
import Socketpp.High.PeerClaims
import Socketpp.High.DgramPeers
import Socketpp.High.DgramLifetime
import Socketpp.High.DgramClaim
import Socketpp.High.DgramSockets
import Socketpp.High.DgramDestroy
import Socketpp.High.PeerReceive
import Socketpp.High.ListenPause
import Socketpp.High.DgramPause
import Socketpp.High.DispatcherUse
import Socketpp.High.DispatcherPeers
import Socketpp.High.Ownership
