import Talios.Lib.Dyadic
import Talios.Lib.Word
import Talios.Lib.Bitmap
import Talios.Lib.Radix
import Talios.Lib.Bytes
import Talios.Lib.SortedQueue
import Talios.Lib.Ring
import Talios.Lib.Links
import Talios.Lib.NextRing
import Talios.Lib.Interval
import Talios.Lib.Reading
import Talios.Lib.Split
import Talios.Lib.Fields
import Talios.Memory.Buddy
import Talios.Memory.BuddyInvariant
import Talios.Memory.BuddyStep
import Talios.Memory.BuddyInit
import Talios.Memory.BuddyRun
import Talios.Memory.BuddyExact
import Talios.Memory.BuddyBoot
import Talios.Memory.Discovery
import Talios.Memory.Slab
import Talios.Memory.SlabInvariant
import Talios.Memory.SlabRing
import Talios.Memory.SlabLedger
import Talios.Memory.SlabAccount
import Talios.Memory.SlabStep
import Talios.Memory.SlabCalls
import Talios.Memory.SlabInit
import Talios.Memory.SlabRun
import Talios.Memory.SlabFrame
import Talios.Memory.SlabGrow
import Talios.Memory.ObjectCache
import Talios.Memory.KernelRun
import Talios.Memory.SlabTrim
import Talios.Memory.SlabParted
import Talios.Memory.SlabPartedCalls
import Talios.Memory.SlabPartedGrow
import Talios.Memory.MemoryRun
import Talios.Memory.SlabExhaust
import Talios.Memory.SlabFailure
import Talios.Memory.SlabLinks
import Talios.Memory.SlabBooks
import Talios.Memory.SlabBooksRun
import Talios.Mm.Vma
import Talios.Mm.VmaRun
import Talios.Mm.VmaSearch
import Talios.Mm.Munmap
import Talios.Mm.Brk
import Talios.Mm.Partition
import Talios.Mm.AddressSpace
import Talios.Mm.AddressSpaceStep
import Talios.Mm.AddressSpaceCalls
import Talios.Mm.AddressSpaceRun
import Talios.Mm.PageTable
import Talios.Mm.PageTree
import Talios.Mm.PageTableStep
import Talios.Mm.PageTableCalls
import Talios.Mm.PageTableGrow
import Talios.Mm.PageMap
import Talios.Mm.PageFault
import Talios.Mm.UserRange
import Talios.Mm.UserRangeRun
import Talios.Mm.UserPages
import Talios.Mm.TableAddress
import Talios.Mm.FreeTables
import Talios.Mm.DirectTables
import Talios.Mm.DirectTablesRun
import Talios.Mm.FreeTablesStep
import Talios.Mm.FreeTablesTree
import Talios.Mm.FreeTablesRun
import Talios.Mm.FreeTablesMap
import Talios.Fs.Fat32
import Talios.Fs.Fat32Copy
import Talios.Fs.Fat32Write
import Talios.Fs.Fat32Lookup
import Talios.Fs.Fat32Slots
import Talios.Fs.Fat32Entry
import Talios.Fs.Fat32Chain
import Talios.Fs.Fat32Read
import Talios.Fs.OpenFile
import Talios.Fs.FatTable
import Talios.Fs.DirClusters
import Talios.Fs.DirStores
import Talios.Fs.Getdents
import Talios.Fs.DirLayout
import Talios.Fs.DirListing
import Talios.Fs.DirNames
import Talios.Fs.DirMatch
import Talios.Fs.ListedFound
import Talios.Fs.PathWalk
import Talios.Fs.PathFiles
import Talios.Fs.OpenEntry
import Talios.Fs.FilePosition
import Talios.Fs.Mount
import Talios.Sync.SpinLock
import Talios.Sched.Schedule
import Talios.Sched.ScheduleRun
import Talios.Sync.WaitQueue
import Talios.Sync.Semaphore
import Talios.Disk.Request
import Talios.Disk.RequestRun
import Talios.Disk.Transfer
import Talios.Disk.Queue
import Talios.Time.Timer
import Talios.Time.Softirq
import Talios.Time.Cmos
import Talios.Keyboard.Ring
import Talios.Keyboard.Reader
import Talios.Console.Lock
import Talios.Console.Number
import Talios.Console.Format
import Talios.Console.Screen
import Talios.Task.Stack
import Talios.Task.Files
import Talios.Task.Execve
import Talios.Task.Descriptors
import Talios.Task.Fork
import Talios.Task.ForkMemory
import Talios.Task.ForkTables
import Talios.Task.TaskRing
import Talios.Task.UserCopy
import Talios.User.Malloc
import Talios.User.KeyCode
import Talios.User.Modifiers
import Talios.User.Typing
import Talios.User.Strings
import Talios.User.Command
import Talios.User.ChangeDir
import Talios.Memory.Memcopy
import Talios.Memory.SlabSearch
import Talios.Memory.LinkedList
import Talios.Interrupt.Cpu
import Talios.Interrupt.Entry
import Talios.Interrupt.Gate
import Talios.Interrupt.SystemCall
import Talios.Interrupt.Threads
import Talios.Interrupt.Current
import Talios.Boot.Loader
import Talios.Boot.Paging
import Talios.Interrupt.Irq
import Talios.Console.Grid
import Talios.User.Shell
import Talios.User.ListDir
