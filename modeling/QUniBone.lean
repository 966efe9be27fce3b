import QUniBone.Lib.Prog
import QUniBone.Lib.Loop
import QUniBone.Cpu34.Extended
import QUniBone.Adapter.RefusedRequests
import QUniBone.Cpu34.RestartLaw
import QUniBone.Cpu34.Registers
import QUniBone.Cpu34.Traversal
import QUniBone.Cpu34.Cycles
import QUniBone.Cpu34.CoherentRuns
import QUniBone.Cpu34.UserMode
import QUniBone.Cpu34.Termination
import QUniBone.Cpu34.AbortFreeze
import QUniBone.Adapter.Registration
import QUniBone.Adapter.Parameter
import QUniBone.Common.GetoptParses
import QUniBone.Common.InputLine
import QUniBone.M9312.Sockets
import QUniBone.PruU.CpuArbitrator
import QUniBone.PruU.GrantAcceptance
import QUniBone.PruQ.GrantAcceptance
import QUniBone.PruQ.BlockTransfer
import QUniBone.PruQ.Timeouts
import QUniBone.Memory.DirectMemory
import QUniBone.PruU.RegisterEvents
import QUniBone.PruU.TimersEnd
import QUniBone.Adapter.DmaRuns
import QUniBone.Storage.ImageRuns
import QUniBone.Timeout.Served
import QUniBone.Serial.Characters
import QUniBone.Serial.LineClock
import QUniBone.Serial.PatternMatcher
import QUniBone.Serial.TermiosDecoder
import QUniBone.Floppy.MicroProgram
import QUniBone.Loaders.AbsoluteLoader
import QUniBone.Mscp.Interrupts
import QUniBone.Mscp.Resets
import QUniBone.Lib.Span
import QUniBone.Disk.Preconditions
import QUniBone.Disk.InitRuns
import QUniBone.Disk.Rk05
import QUniBone.Disk.Rf11Compared
import QUniBone.Ke11.Arithmetic
import QUniBone.Cpu20.TrapEnds
import QUniBone.Disk.Rk11Compared
import QUniBone.Disk.Rl11Compared
import QUniBone.Floppy.Sectors
import QUniBone.Mscp.DiskCompared
import QUniBone.Ke11.Coherence
import QUniBone.Sharedfs.PathIndex
import QUniBone.Sharedfs.BufferRuns
import QUniBone.Sharedfs.Rt11Owners
import QUniBone.Sharedfs.NameCollisions
import QUniBone.Sharedfs.XxdpArranged
import QUniBone.Sharedfs.XxdpReturns
import QUniBone.Sharedfs.SortGroups
import QUniBone.Sharedfs.GuestWrites
import QUniBone.Sharedfs.NameRoundTrip
import QUniBone.Sharedfs.Rt11Import
import QUniBone.Sharedfs.Rt11Layout
import QUniBone.Adapter.Enabling
import QUniBone.Pru.RegisterWrites
import QUniBone.PruU.MailboxCalls
import QUniBone.Sharedfs.XxdpRender
import QUniBone.Sharedfs.XxdpReadBack
import QUniBone.Sharedfs.XxdpRendered
