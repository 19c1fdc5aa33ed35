import ZurichOS.Arp
import ZurichOS.ArpNetwork
import ZurichOS.Ata
import ZurichOS.BubbleSort
import ZurichOS.CString
import ZurichOS.Capabilities
import ZurichOS.Checksum
import ZurichOS.CommandLine
import ZurichOS.Compositor
import ZurichOS.Condvar
import ZurichOS.ConsoleBounds
import ZurichOS.ConsoleCore
import ZurichOS.Descriptors
import ZurichOS.Dhcp
import ZurichOS.Dns
import ZurichOS.DnsAnswers
import ZurichOS.DnsQueries
import ZurichOS.E1000
import ZurichOS.ElfConfined
import ZurichOS.ElfImage
import ZurichOS.ElfUndone
import ZurichOS.Environment
import ZurichOS.ExitStatus
import ZurichOS.ExitWait
import ZurichOS.Expansion
import ZurichOS.FatConfined
import ZurichOS.FatFile
import ZurichOS.FatFreeing
import ZurichOS.FatHandles
import ZurichOS.FatHoles
import ZurichOS.FatListing
import ZurichOS.FatMirrors
import ZurichOS.FatNaming
import ZurichOS.FatOwnership
import ZurichOS.FatPartial
import ZurichOS.FatReads
import ZurichOS.FatScans
import ZurichOS.FatStops
import ZurichOS.FatTouched
import ZurichOS.FatUnlink
import ZurichOS.FileTree
import ZurichOS.FrameConservation
import ZurichOS.Heap
import ZurichOS.HeapAligned
import ZurichOS.HeapLimits
import ZurichOS.History
import ZurichOS.Http
import ZurichOS.Inheritance
import ZurichOS.Isolation
import ZurichOS.KernelStacks
import ZurichOS.Keyboard
import ZurichOS.LastEntries
import ZurichOS.LineDrawing
import ZurichOS.LineEditor
import ZurichOS.Loopback
import ZurichOS.LostWakeup
import ZurichOS.Mkdir
import ZurichOS.MmapAtomic
import ZurichOS.MountLiveness
import ZurichOS.MountRuns
import ZurichOS.Mouse
import ZurichOS.MsgQueue
import ZurichOS.NetPoll
import ZurichOS.OpenEffects
import ZurichOS.ParserBounds
import ZurichOS.PathFold
import ZurichOS.Pci
import ZurichOS.Pipe
import ZurichOS.PipeSyscalls
import ZurichOS.Pmm
import ZurichOS.PortService
import ZurichOS.ProcessTree
import ZurichOS.Procfs
import ZurichOS.Ramfs
import ZurichOS.RamfsBounds
import ZurichOS.RamfsDirectories
import ZurichOS.ReceiveBounds
import ZurichOS.ReservedFrames
import ZurichOS.Route
import ZurichOS.Rwlock
import ZurichOS.RwlockWedge
import ZurichOS.Scheduler
import ZurichOS.Scrollback
import ZurichOS.Seccomp
import ZurichOS.Semaphore
import ZurichOS.SentLengths
import ZurichOS.SharedMemory
import ZurichOS.SignalMask
import ZurichOS.SignedWords
import ZurichOS.Socket
import ZurichOS.SocketOwners
import ZurichOS.Sort
import ZurichOS.Stdin
import ZurichOS.TabCompletion
import ZurichOS.Tar
import ZurichOS.TarCore
import ZurichOS.TaskSlots
import ZurichOS.TcpChecksum
import ZurichOS.TcpStream
import ZurichOS.TextTools
import ZurichOS.Transitions
import ZurichOS.Truncate
import ZurichOS.UserMemory
import ZurichOS.Users
import ZurichOS.VmaRange
import ZurichOS.Vmm
import ZurichOS.WaitQueue
import ZurichOS.Wire
