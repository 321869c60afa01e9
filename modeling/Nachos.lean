import Nachos.Lib.Bytes
import Nachos.Lib.CInt
import Nachos.Lib.FixedArray
import Nachos.Lib.Ownership
import Nachos.Lib.PriorityList
import Nachos.Lib.Transition
import Nachos.Threads.Utility
import Nachos.Threads.ThreadTable
import Nachos.UserProg.BitMap
import Nachos.FileSys.SynchDisk
import Nachos.FileSys.FileHeader
import Nachos.FileSys.OpenFile
import Nachos.FileSys.Transfer
import Nachos.FileSys.Allocation
import Nachos.FileSys.StoredImage
import Nachos.FileSys.Directory
import Nachos.FileSys.FileSystem
import Nachos.FileSys.Ownership
import Nachos.FileSys.Operations
import Nachos.FileSys.Session
import Nachos.FileSys.SingleFile
import Nachos.FileSys.StaleHandle
import Nachos.FileSys.FileArrays
import Nachos.Machine.Interrupt
import Nachos.Machine.Stable
import Nachos.Machine.Delivery
import Nachos.Threads.Kernel
import Nachos.Threads.Preserved
import Nachos.Threads.Placement
import Nachos.Threads.Counting
import Nachos.Threads.Reclaim
import Nachos.Lib.Outcome
import Nachos.Machine.Translate
import Nachos.Machine.Mips
import Nachos.Machine.Alike
import Nachos.Machine.Precise
import Nachos.FileSys.OtherFiles
import Nachos.Machine.LoadDelay
import Nachos.UserProg.Isolation
import Nachos.Machine.HandlerLevel
import Nachos.Threads.Levels
import Nachos.Threads.Discipline
import Nachos.Network.Network
import Nachos.Network.PostOffice
import Nachos.Network.PostalDelivery
import Nachos.Machine.Disk
import Nachos.FileSys.DiskRequests
import Nachos.FileSys.Garbage
import Nachos.FileSys.Remount
import Nachos.FileSys.FsTest
import Nachos.Machine.Elevator
import Nachos.Machine.ElevatorRuns
import Nachos.Lib.History
import Nachos.Machine.ElevatorHistory
import Nachos.Machine.ElevatorTiming
import Nachos.Machine.ElevatorArrivals
import Nachos.Machine.Console
import Nachos.Machine.ConsoleInput
import Nachos.Lib.Exclusive
import Nachos.Network.SendRequests
import Nachos.Machine.TableModes
import Nachos.FileSys.RequestBounds
import Nachos.FileSys.LastSector
import Nachos.FileSys.DirectoryMap
import Nachos.Lib.Tiling
import Nachos.Bin.Coff2Noff
import Nachos.Bin.Segments
import Nachos.UserProg.Loader
import Nachos.UserProg.ProgramImage
import Nachos.Lib.ByteOrder
import Nachos.Lib.DoubleWord
import Nachos.Machine.Access
import Nachos.Machine.HostOrder
import Nachos.Machine.Product
import Nachos.Machine.Results
import Nachos.Machine.Bitwise
import Nachos.Machine.Arithmetic
import Nachos.Machine.Unaligned
import Nachos.FileSys.Accounting
import Nachos.FileSys.StoredNames
import Nachos.Machine.Branches
import Nachos.UserProg.RegisterFile
import Nachos.UserProg.Placement
import Nachos.Bin.Uninitialized
import Nachos.Network.MailTransit
import Nachos.Machine.Draining
import Nachos.Lib.Cyclic
import Nachos.Machine.DiskLatency
import Nachos.Machine.TrackBuffer
import Nachos.Lib.RoundRobin
import Nachos.Threads.Turns
import Nachos.Threads.ThreadTest
import Nachos.Lib.Chain
import Nachos.Threads.LinkedList
import Nachos.Threads.ListSequence
import Nachos.Threads.SortedList
import Nachos.UserProg.BitMapSet
import Nachos.Lib.Assembly
import Nachos.Lib.Multiplex
import Nachos.Threads.MachineState
import Nachos.Threads.SwitchI386
import Nachos.Threads.ForkI386
import Nachos.Machine.Idling
import Nachos.UserProg.ConsoleTest
import Nachos.UserProg.ConsoleRun
import Nachos.UserProg.ConsoleEnd
import Nachos.Network.PostalNet
import Nachos.Network.MailOrder
import Nachos.Network.MailTest
import Nachos.Machine.Persistent
import Nachos.Machine.EntryBits
import Nachos.Threads.Fairness
import Nachos.Threads.Schedule
import Nachos.Machine.Timer
