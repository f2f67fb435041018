import Gummy.Lib.CWord
import Gummy.Lib.ByteMem
import Gummy.Lib.WordStack
import Gummy.Lib.Packed
import Gummy.Lib.Transition
import Gummy.Lib.Linked
import Gummy.Queue
import Gummy.Queue.Runs
import Gummy.RingBuffer
import Gummy.RingBuffer.Runs
import Gummy.Vmm
import Gummy.Vmm.Tables
import Gummy.Vmm.Walk
import Gummy.Vmm.Regions
import Gummy.Vmm.Spaces
import Gummy.Vmm.Edits
import Gummy.Vmm.SpaceOps
import Gummy.Vmm.Mapped
import Gummy.Vmm.FirstFit
import Gummy.Vmm.Rollback
import Gummy.Vmm.Contents
import Gummy.Vmm.Clone
import Gummy.Vmm.Isolation
import Gummy.Vmm.Bytes
import Gummy.Vmm.Kept
import Gummy.Vmm.Tlb
import Gummy.Vmm.Coherence
import Gummy.Vmm.StaleWindow
import Gummy.Kernel.State
import Gummy.Kernel.Thread
import Gummy.Kernel.Sched
import Gummy.Kernel.Process
import Gummy.Kernel.Ipc
import Gummy.Kernel.Syscall
import Gummy.Kernel.Invariant
import Gummy.Kernel.Creation
import Gummy.Kernel.Destruction
import Gummy.Kernel.View
import Gummy.Kernel.Refinement
import Gummy.Kernel.Simulation
import Gummy.Kernel.ProcessTable
import Gummy.Kernel.Messages
import Gummy.Kernel.Delivery
import Gummy.Kernel.Placement
import Gummy.Kernel.Clock
import Gummy.Kernel.Sleep
import Gummy.Kernel.Wakeup
import Gummy.Kernel.Slots
import Gummy.Kernel.Memory
import Gummy.Kernel.UserMemory
import Gummy.Kernel.UserAccess
import Gummy.Kernel.SameMemory
import Gummy.Kernel.Ownership
import Gummy.Kernel.Isolation
import Gummy.Kernel.Spawning
import Gummy.Kernel.Reserved
import Gummy.Kernel.Handover
import Gummy.Kernel.Fairness
import Gummy.Kernel.KernelHalf
import Gummy.Kernel.Reaper
import Gummy.Trap
import Gummy.Trap.Threads
import Gummy.Trap.Gates
import Gummy.Trap.Calls
import Gummy.Initrd
import Gummy.Bitmap
import Gummy.Pmm
import Gummy.Pmm.Runs
import Gummy.Pmm.Usable
import Gummy.Boot
import Gummy.Heap
import Gummy.Heap.Segment
import Gummy.Heap.Ops
import Gummy.Heap.Invariant
import Gummy.Heap.Capacity
import Gummy.Heap.Coalesce
import Gummy.Fat
import Gummy.Fat.Volume
import Gummy.Fat.RootDir
import Gummy.Fat.Reading
import Gummy.Fat.Loading
import Gummy.Fat.Table
import Gummy.Stage1
import Gummy.Stage2
import Gummy.Lib.Scrollback
import Gummy.Terminal
import Gummy.Terminal.History
import Gummy.Lib.Numeral
import Gummy.Vsnprintf
import Gummy.Vsnprintf.Expansion
import Gummy.Vsnprintf.Truncation
import Gummy.Vsnprintf.Numbers
import Gummy.Kernel.Image
