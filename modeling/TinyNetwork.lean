import TinyNetwork.BufferQueue
import TinyNetwork.WritableSpace
import TinyNetwork.OutgoingStream
import TinyNetwork.HttpTrace
import TinyNetwork.HttpIncremental
import TinyNetwork.HttpRoundTrip
import TinyNetwork.HttpSegments
import TinyNetwork.MemoryDisjoint
import TinyNetwork.LogBuffers
import TinyNetwork.FunctorQueue
import TinyNetwork.TimerFiring
import TinyNetwork.TimerAlarm
import TinyNetwork.PollerMirror
import TinyNetwork.PollerDisable
import TinyNetwork.PollReport
import TinyNetwork.PoolLeases
import TinyNetwork.PoolCounter
import TinyNetwork.PoolAges
import TinyNetwork.PoolNotify
import TinyNetwork.TaskRuns
import TinyNetwork.LogStop
import TinyNetwork.HalfClose
import TinyNetwork.ConnectionLifecycle
import TinyNetwork.LoopQuit
import TinyNetwork.LogStatement
import TinyNetwork.LogInsertions
import TinyNetwork.LogTimes
import TinyNetwork.ServerRegistry
import TinyNetwork.HttpVerdict
import TinyNetwork.ResponseFraming
import TinyNetwork.LogRolling
import TinyNetwork.FileAppend
import TinyNetwork.CrossThreadSend
import TinyNetwork.FunctorOwners
import TinyNetwork.MemoryDestroy
import TinyNetwork.FreshBytes
import TinyNetwork.EchoServer
import TinyNetwork.HttpDemo
import TinyNetwork.LogPipeline
import TinyNetwork.ServerDescriptors
import TinyNetwork.LoopInterest
import TinyNetwork.LoopPasses
import TinyNetwork.TimerThreads
import TinyNetwork.TimerRate
import TinyNetwork.LogProgram
import TinyNetwork.MessageOrder
import TinyNetwork.ActiveChannels
import TinyNetwork.Backpressure
import TinyNetwork.MemoryWindow
import TinyNetwork.BufferMemory
import TinyNetwork.TaskAttention
import TinyNetwork.TaskThrows
