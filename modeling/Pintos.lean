import Pintos.Lib.OrderedList
import Pintos.Lib.Runs
import Pintos.Lib.ByteMemory
import Pintos.Model.Timer
import Pintos.Model.StringLib
import Pintos.Analysis.SleepList
import Pintos.Model.Vaddr
import Pintos.Model.ArgPassing
import Pintos.Interface.MainArgs
import Pintos.Analysis.Strtok
import Pintos.Analysis.ArgPassing
import Pintos.Lib.CheckedAccess
import Pintos.Model.Syscall
import Pintos.Analysis.SyscallChecks
import Pintos.Analysis.SyscallPanics
import Pintos.Lib.Lifetime
import Pintos.Lib.Table
import Pintos.Model.Process
import Pintos.Analysis.ProcessLifetime
import Pintos.Model.Sched
import Pintos.Analysis.Donation
import Pintos.Analysis.Preemption
import Pintos.Analysis.LockSafety
import Pintos.Analysis.Mlfqs
import Pintos.Model.FdTable
import Pintos.Analysis.FdTable
import Pintos.Lib.Digits
import Pintos.Model.Ustar
import Pintos.Analysis.UstarRoundTrip
import Pintos.Lib.Heap
import Pintos.Model.Bitmap
import Pintos.Lib.WordBits
import Pintos.Model.BitmapWords
import Pintos.Analysis.Bitmap
import Pintos.Model.Filesys
import Pintos.Analysis.FreeMap
import Pintos.Model.Partition
import Pintos.Analysis.Partition
import Pintos.Model.Fsutil
import Pintos.Analysis.Fsutil
import Pintos.Analysis.OpenInodes
import Pintos.Analysis.InodeBytes
import Pintos.Lib.Slots
import Pintos.Analysis.Directory
import Pintos.Model.OpenFiles
import Pintos.Analysis.OpenFiles
import Pintos.Lib.Clock
import Pintos.Model.Frame
import Pintos.Model.Page
import Pintos.Analysis.VmConsistency
import Pintos.Interface.FlatMemory
import Pintos.Analysis.VmRefinement
import Pintos.Analysis.VmSimulation
import Pintos.Lib.LongDivision
import Pintos.Model.Arithmetic
import Pintos.Analysis.Arithmetic
import Pintos.Model.Malloc
import Pintos.Analysis.Malloc
import Pintos.Model.Memmove
import Pintos.Analysis.Memmove
import Pintos.Model.Stdlib
import Pintos.Analysis.Atoi
import Pintos.Lib.HeapOrder
import Pintos.Analysis.Sort
import Pintos.Model.CommandLine
import Pintos.Analysis.CommandLine
import Pintos.Model.Intq
import Pintos.Analysis.Intq
import Pintos.Lib.Loops
import Pintos.Model.Pagedir
import Pintos.Analysis.Pagedir
import Pintos.Analysis.PagedirDestroy
import Pintos.Lib.Buckets
import Pintos.Lib.ClassSet
import Pintos.Model.Hash
import Pintos.Analysis.Hash
import Pintos.Model.Spt
import Pintos.Analysis.SptHash
import Pintos.Lib.DList
import Pintos.Model.List
import Pintos.Analysis.List
import Pintos.Analysis.ListLoops
import Pintos.Analysis.ListCalls
import Pintos.Lib.NaturalMergeSort
import Pintos.Analysis.ListSort
import Pintos.Model.Printf
import Pintos.Interface.IntegerConversion
import Pintos.Analysis.PrintfInteger
import Pintos.Analysis.Printf
