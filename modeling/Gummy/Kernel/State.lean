import Gummy.Queue
import Gummy.RingBuffer
import Gummy.Vmm

/-!
The state of the kernel.

Processes and threads are named by their addresses: a process by the address of
its `process_t`, a thread by its process and its slot in `threads`.  The fields of
all such objects form maps over these names, whether or not the memory is in use,
so that a stale pointer still reads something.  `idle_process` is a static object;
all others live in the heap.

The kernel heap is taken here as an allocator that does its job: a call either
fails or returns memory that no outstanding block overlaps, possibly after mapping
more pages at the end of the heap.  Which of these happens is a parameter of the
call.
-/

namespace Gummy

/-! ### Threads and processes -/

/-- `THREAD_PER_PROCESS` -/
abbrev threadPerProcess : ℕ := 8

/-- The address of `threads[slot]` in the process at `process`. -/
structure ThreadRef where
  process : ℕ
  slot : Fin threadPerProcess
deriving DecidableEq

/-- The objects of type `queue_t`. -/
inductive QueueRef
  | ready
  | blocked
  | zombie
  | sleep
  | waiters (process : ℕ)
deriving DecidableEq

/-- `thread_state_t` -/
inductive ThreadState
  | running
  | ready
  | blocked
  | zombie
  | sleeping
  | free
deriving DecidableEq

/-- `process_state_t` -/
inductive ProcessState
  | normal
  | dying
deriving DecidableEq

/-- `interrupt_context_t` -/
structure InterruptContext where
  gs : ℕ
  fs : ℕ
  es : ℕ
  ds : ℕ
  esi : ℕ
  edi : ℕ
  ebp : ℕ
  edx : ℕ
  ecx : ℕ
  ebx : ℕ
  eax : ℕ
  intNum : ℕ
  errorCode : ℕ
  eip : ℕ
  cs : ℕ
  eflags : ℕ
  esp : ℕ
  ss : ℕ

/-- What `sp0` points to, that is, where a thread goes on when it is dispatched. -/
inductive Context
  /-- nowhere yet: `sp0` is `NULL` -/
  | null
  /-- the frame that `sched_create_thread` lays out -/
  | fresh (ctx : InterruptContext)
  /-- the code that was interrupted by the timer or by a system call -/
  | interrupted
  /-- `ipc_receive`, behind its call of `sys_yield` -/
  | receive (senderPid buffer size : ℕ)
  /-- `sched_destroy_current_process`, behind its call of `sys_yield` -/
  | killed

/-- `thread_t`, except for its queue node. -/
structure Thread where
  stack : ℕ
  sp : ℕ
  stack0 : ℕ
  sp0 : Context
  process : Option ℕ
  state : ThreadState
  exitCode : ℕ
  wakeTick : ℕ

/-- A `thread_t` filled with zeros. -/
def Thread.zero : Thread :=
  { stack := 0, sp := 0, stack0 := 0, sp0 := .null, process := none, state := .running
    exitCode := 0, wakeTick := 0 }

/-- `process_t`, except for its threads and for the queue in its mailbox. -/
structure Process where
  ringBuffer : RingBuffer
  prev : Option ℕ
  next : Option ℕ
  dad : Option ℕ
  cr3 : ℕ
  state : ProcessState
  pid : ℕ
  numThreads : ℕ

/-- A `process_t` filled with zeros. -/
def Process.zero : Process :=
  { ringBuffer := ringBufferInit (fun _ => 0) 0 0, prev := none, next := none, dad := none
    cr3 := 0, state := .normal, pid := 0, numThreads := 0 }

/-- `&idle_process`: a static object of the kernel.  The linker chooses the address;
all that matters is that it lies below the heap. -/
abbrev idleProcess : ℕ := 0xC0020000

/-- `&idle_process.threads[0]`, the thread of `kmain`. -/
abbrev idleThread : ThreadRef := ⟨idleProcess, 0⟩

/-! ### Messages -/

/-- What a message says: the first `size` bytes of `data` count. -/
structure Message where
  senderPid : ℕ
  type : ℕ
  data : List UInt8
deriving DecidableEq

/-- A message handed to a thread: what the receiver asked for, and the bytes
written to its memory, in order. -/
structure Delivery where
  message : Message
  senderPid : ℕ
  buffer : ℕ
  size : ℕ
  stores : List (ℕ × UInt8)

/-! ### The heap -/

/-- `HEAP_VIRTUAL_ADDRESS` -/
abbrev heapBase : ℕ := 0xE0000000

/-- The blocks that were returned by `heap_alloc` and not freed since, and the end of
the mapped heap.  The calls made so far and the frames that `heap_expand` took are
recorded for the specifications only. -/
structure KernelHeap where
  blocks : List (ℕ × ℕ)
  stop : ℕ
  frees : List ℕ
  frames : Set ℕ

/-- How the allocator answers one call: the pages `heap_expand` is asked for first,
and the address returned, if it is one. -/
structure HeapChoice where
  pages : ℕ
  addr : ℕ

/-! ### The kernel -/

structure Kernel where
  mach : Machine
  heap : KernelHeap
  proc : ℕ → Process
  thread : ThreadRef → Thread
  queues : Queues QueueRef ThreadRef
  firstProcess : Option ℕ
  currentThread : ThreadRef
  currentProcess : ℕ
  currentPid : ℕ
  ticks : ℕ
  msPerTick : ℕ
  /-- `tss.esp0` -/
  esp0 : ℕ
  /-- `eax` in the context that each thread saved when it entered the kernel -/
  eax : ThreadRef → ℕ
  /-- for the specifications only: the messages put into each mailbox -/
  accepted : ℕ → List Message
  /-- for the specifications only: the messages taken out of each mailbox -/
  delivered : ℕ → List Delivery
  /-- for the specifications only: how many processes were created -/
  created : ℕ
  /-- the processor stands still with interrupts off -/
  halted : Bool

namespace Kernel

/-- Assign to fields of the process at `p`. -/
def setProc (s : Kernel) (p : ℕ) (f : Process → Process) : Kernel :=
  { s with proc := Function.update s.proc p (f (s.proc p)) }

/-- Assign to fields of the process that `o` points to, if any. -/
def setProcAt (s : Kernel) (o : Option ℕ) (f : Process → Process) : Kernel :=
  match o with
  | some p => s.setProc p f
  | none => s

/-- Assign to fields of the thread `t`. -/
def setThread (s : Kernel) (t : ThreadRef) (f : Thread → Thread) : Kernel :=
  { s with thread := Function.update s.thread t (f (s.thread t)) }

/-- Return `v` from the system call of the thread `t`. -/
def setEax (s : Kernel) (t : ThreadRef) (v : ℕ) : Kernel :=
  { s with eax := Function.update s.eax t v }

section Set

variable (s : Kernel) {p q : ℕ} {t u : ThreadRef}

@[simp] lemma setProc_self (f : Process → Process) : (s.setProc p f).proc p = f (s.proc p) :=
  Function.update_self ..

lemma setProc_of_ne (f : Process → Process) (h : q ≠ p) : (s.setProc p f).proc q = s.proc q :=
  Function.update_of_ne h ..

@[simp] lemma setThread_self (f : Thread → Thread) :
    (s.setThread t f).thread t = f (s.thread t) :=
  Function.update_self ..

lemma setThread_of_ne (f : Thread → Thread) (h : u ≠ t) :
    (s.setThread t f).thread u = s.thread u :=
  Function.update_of_ne h ..

end Set

/-- `while (p) … p = p->next`: the processes met from `first_process` on.  There are
fewer than `2 ^ 32` addresses, hence no longer list without repetition. -/
def processes (s : Kernel) : List ℕ :=
  Linked.chain (fun p => (s.proc p).next) (2 ^ 32) s.firstProcess

end Kernel

/-- `heap_expand`, at the end of the mapped heap. -/
def heapGrow (pages : ℕ) (s : Kernel) : Kernel :=
  let start := s.heap.stop
  let stop := start + pages * pageSize
  if pages = 0 ∨ stop ≥ 0xFFC00000 then s
  else
    let (res, mach) :=
      vmmAllocPagesRegion pages (vmmFlagsRw ||| vmmFlagsPresent) start stop s.mach
    { s with
      mach
      heap := { s.heap with
        stop := if res.isSome then stop else start
        frames := s.heap.frames ∪ {f | s.mach.pmm.Free f ∧ ¬ mach.pmm.Free f} } }

/-- The bytes `[addr, addr + size)` lie in the heap and in no outstanding block. -/
def KernelHeap.Fits (h : KernelHeap) (addr size : ℕ) : Prop :=
  0 < size ∧ heapBase ≤ addr ∧ addr + size ≤ h.stop ∧
    ∀ b ∈ h.blocks, addr + size ≤ b.1 ∨ b.1 + b.2 ≤ addr

instance (h : KernelHeap) (addr size : ℕ) : Decidable (h.Fits addr size) :=
  inferInstanceAs (Decidable (_ ∧ _))

/-- `heap_alloc`, answered by `c`. -/
def heapGet (size : ℕ) (c : HeapChoice) (s : Kernel) : Option ℕ × Kernel :=
  let s := heapGrow c.pages s
  if s.heap.Fits c.addr size then
    (some c.addr, { s with heap := { s.heap with blocks := (c.addr, size) :: s.heap.blocks } })
  else (none, s)

/-- `heap_free` -/
def heapPut (addr : ℕ) (s : Kernel) : Kernel :=
  { s with heap := { s.heap with
    blocks := s.heap.blocks.filter (·.1 ≠ addr)
    frees := s.heap.frees ++ [addr] } }

end Gummy
