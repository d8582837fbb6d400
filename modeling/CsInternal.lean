import CsInternal.Library.Transition
import CsInternal.Library.Fairness
import CsInternal.Library.Accounting
import CsInternal.Library.Loop
import CsInternal.Library.LinkedRing
import CsInternal.Library.ByteMemory
import CsInternal.Library.SharedCounter
import CsInternal.Library.NetworkOrder
import CsInternal.Library.Delivery
import CsInternal.Library.Attributes
import CsInternal.Thread.FutexLock
import CsInternal.Thread.FutexLockSafety
import CsInternal.Thread.FutexCounter
import CsInternal.Thread.FutexTermination
import CsInternal.Thread.CasCounter
import CsInternal.Thread.CasTermination
import CsInternal.Thread.LockFreeStack
import CsInternal.Thread.LockFreeStackLinear
import CsInternal.Thread.LockFreeStackProgress
import CsInternal.Network.RouteTrie
import CsInternal.Network.RouteTable
import CsInternal.Network.RouteLookup
import CsInternal.Network.RouteSearch
import CsInternal.Network.MiniDump
import CsInternal.Network.ShortFrames
import CsInternal.Network.TunReader
import CsInternal.Io.ZeroCopy
import CsInternal.Io.FuseFile
import CsInternal.Io.BoundedRead
import CsInternal.Io.IntrusiveList
import CsInternal.Cpu.PriorityQueue
import CsInternal.Cpu.EventLoop
import CsInternal.Cpu.EventLoopSafety
import CsInternal.Cpu.EventLoopLiveness
import CsInternal.Cpu.CoroutinePacing
import CsInternal.Cpu.IndexedQueue
import CsInternal.Cpu.QueueInspection
import CsInternal.Cpu.AllocationFailure
import CsInternal.Cpu.CoroutineConservation
import CsInternal.Cpu.SwapContext
import CsInternal.Cpu.ContextIsolation
import CsInternal.Cpu.FreshFrame
import CsInternal.Cpu.CoroutineThreads
import CsInternal.ToyDocker.NetworkStartup
import CsInternal.ToyDocker.StartupCompletion
import CsInternal.ToyDocker.NetlinkMessage
import CsInternal.ToyDocker.NetlinkTransaction
import CsInternal.ToyDocker.LinkRequests
import CsInternal.ToyDocker.LinkMeanings
import CsInternal.ToyDocker.HardwareAddress
import CsInternal.ToyDocker.InterfaceNames
import CsInternal.MiniGdb.Tracee
import CsInternal.MiniGdb.Debugger
import CsInternal.MiniGdb.SourceWindow
import CsInternal.MiniGdb.ShadowMemory
import CsInternal.MiniGdb.NativeRun
import CsInternal.MiniGdb.Commands
import CsInternal.MiniGdb.CommandLine
import CsInternal.MiniGdb.Printing
import CsInternal.MiniGdb.RepeatedBreakpoint
import CsInternal.MiniGdb.Planting
import CsInternal.MiniGdb.StepOut
import CsInternal.MiniGdb.StepIn
import CsInternal.MiniGdb.Trace
import CsInternal.MiniGdb.ContinueProgress
import CsInternal.MiniGdb.MemoryCommands
import CsInternal.MiniGdb.Signals
import CsInternal.Thread.FutexCalls
