import Pintos.Lib.Run
import Pintos.Threads.List
import Pintos.Threads.State
import Pintos.Threads.Sched
import Pintos.Threads.Machine
import Pintos.Threads.Donation
import Pintos.Threads.Preemption
import Pintos.Threads.Invariant
import Pintos.Threads.Frame
import Pintos.Threads.Semaphore
import Pintos.Threads.Lock
import Pintos.Lib.Prog
import Pintos.Userprog.Syscall
import Pintos.Userprog.SyscallSpec
import Pintos.Userprog.LoadArgs
import Pintos.Userprog.Process
import Pintos.LibKernel.Bitmap
import Pintos.Threads.Palloc
import Pintos.Filesys.Filesys
import Pintos.Userprog.FdTable
import Pintos.Devices.Intq
import Pintos.Devices.Timer
import Pintos.Threads.Malloc
import Pintos.Filesys.InodeData
import Pintos.Lib.Buckets
import Pintos.Lib.EquivSet
import Pintos.LibKernel.Hash
import Pintos.Threads.RwLock
import Pintos.Lib.Links
import Pintos.LibKernel.Ordered
import Pintos.LibKernel.List
import Pintos.LibKernel.Sort
import Pintos.Lib.Arithmetic
import Pintos.Lib.Stdio
import Pintos.Lib.Ustar
import Pintos.Lib.String
import Pintos.Threads.FixedPoint
import Pintos.Devices.Partition
import Pintos.Lib.Heap
import Pintos.Lib.Stdlib
import Pintos.Userprog.Pagedir
import Pintos.Lib.Slots
import Pintos.Filesys.Calls
import Pintos.Filesys.Alloc
import Pintos.Filesys.Safety
import Pintos.Userprog.Wait
