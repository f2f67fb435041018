import Gummy.Kernel.Ipc

/-!
The system calls of `syscall.c` and the other entries into the kernel.

Every entry runs with interrupts off, up to its return or to its call of
`schedule`, so that one entry is one step; a thread that `schedule` switches to
goes on in the same step as far as its saved context says.  What user code does
between two entries does not touch the state modelled here.
-/

namespace Gummy

open CWord

/-! ### System calls -/

/-- `memcpy` of `image` to `virt` in the active address space. -/
def copyImage (virt : ℕ) (image : List UInt8) (m : Machine) : Machine :=
  (copyStores virt image).foldl (fun m (a, b) =>
    match m.translate a with
    | some pa => { m with phys := m.phys.write8 pa b }
    | none => m) m

/-- Where `sys_nprocess_impl` puts the image. -/
abbrev imageBase : ℕ := 0x400000

/-- `sys_nprocess_impl`, for the bytes `image` at `entry`: the value returned. -/
def sysNprocess (entry : ℕ) (image : List UInt8) (cData cProc cStack : HeapChoice) (g : Garbage)
    (s : Kernel) : ℕ × Kernel :=
  if entry = 0 ∨ image.length = 0 then (0, s)
  else
    match heapGet image.length cData s with
    | (none, s) => (0, s)
    | (some data, s) =>
      match schedCreateProcess cProc s with
      | (none, s) => (0, heapPut data s)
      | (some p, s) =>
        let pages := alignUp 32 image.length pageSize / pageSize
        let (res, mach) := vmmAllocPagesRegionIn (s.proc p).cr3 pages
          (vmmFlagsPresent ||| vmmFlagsRw ||| vmmFlagsUser) imageBase
          (u32 (imageBase + pages * pageSize)) s.mach
        let s := { s with mach }
        if res.isNone then (0, schedDestroyProcess p g (heapPut data s))
        else
          match schedCreateThread imageBase p cStack s with
          | (none, s) =>
            let s := { s with mach := (vmmFreePagesIn (s.proc p).cr3 pages imageBase s.mach).2 }
            (0, schedDestroyProcess p g (heapPut data s))
          | (some t, s) =>
            let (_, mach) :=
              inSpace (s.proc p).cr3 (fun m => ((), copyImage imageBase image m)) s.mach
            let s := schedReady t (heapPut data { s with mach })
            ((s.proc p).pid, s)

/-- `sys_nthread_impl`: the value returned. -/
def sysNthread (entry : ℕ) (c : HeapChoice) (s : Kernel) : ℕ × Kernel :=
  match schedGetCurrentProcess s with
  | none => (2 ^ 32 - 1, s)
  | some p =>
    match schedCreateThread entry p c s with
    | (none, s) => (2 ^ 32 - 1, s)
    | (some t, s) => (0, schedReady t s)

/-- `sched_thread_sleep` -/
def schedThreadSleep (wakeTick : ℕ) (s : Kernel) : Outcome :=
  let rest (s : Kernel) := s.setEax s.currentThread 0
  if wakeTick ≤ s.ticks then .done (rest s)
  else if s.currentThread = idleThread then .done (rest s)
  else
    let s := s.setThread s.currentThread ({ · with wakeTick })
    .call .interrupted rest (schedSleep s.currentThread s)

/-- `sys_sleep_impl` -/
def sysSleep (ms : ℕ) (s : Kernel) : Outcome :=
  schedThreadSleep (u32 (s.ticks + ms / s.msPerTick)) s

/-- `sched_exit_current_thread`: behind its call of `schedule` stands a `hlt` loop with
interrupts off. -/
def schedExitCurrentThread (status : ℕ) (s : Kernel) : Outcome :=
  if schedGetCurrentProcess s = some idleProcess then .done (s.setEax s.currentThread 0)
  else
    let t := s.currentThread
    let s := s.setThread t ({ · with exitCode := status })
    .call .interrupted (fun s => { s with halted := true }) (schedZombie t s)

/-! ### Entries -/

/-- The ways into the kernel, with what they find in registers and in user memory. -/
inductive Event
  /-- the timer interrupt -/
  | tick
  /-- `int $0x81` -/
  | yield
  | exit (status : ℕ)
  | getpid
  | getppid
  | nprocess (entry : ℕ) (image : List UInt8) (cData cProc cStack : HeapChoice) (g : Garbage)
  | nthread (entry : ℕ) (c : HeapChoice)
  | sleep (ms : ℕ)
  | send (pid type : ℕ) (data : Option ByteMem) (size : ℕ) (stack : ByteMem)
  | receive (senderPid buffer size : ℕ)
  /-- an exception in user code -/
  | fault
  /-- kernel code calls `sched_destroy_process` -/
  | destroy (proc : ℕ) (g : Garbage)
  /-- kernel code calls `heap_alloc` -/
  | alloc (size : ℕ) (c : HeapChoice)
  /-- kernel code maps pages in the upper half -/
  | mapKernel (n regionStart regionEnd : ℕ)

/-- Return `ret` to the calling thread. -/
def returning (r : ℕ × Kernel) : Outcome := .done (r.2.setEax r.2.currentThread r.1)

/-- The handler of an entry.  Registers hold 32 bits. -/
def handle (e : Event) (s : Kernel) : Outcome :=
  match e with
  | .tick => .call .interrupted id (timerTick s)
  | .yield => .call .interrupted id s
  | .exit status => schedExitCurrentThread (u32 status) s
  | .getpid => returning (schedGetCurrentPid s, s)
  | .getppid => returning (schedGetCurrentPpid s, s)
  | .nprocess entry image cData cProc cStack g =>
    returning (sysNprocess (u32 entry) image cData cProc cStack g s)
  | .nthread entry c => returning (sysNthread (u32 entry) c s)
  | .sleep ms => sysSleep (u32 ms) s
  | .send pid type data size stack =>
    returning (ipcSend (u32 pid) (u32 type) data (u32 size) stack s)
  | .receive senderPid buffer size => ipcReceive (u32 senderPid) (u32 buffer) (u32 size) s
  | .fault =>
    match schedGetCurrentProcess s with
    | none => .done s
    | some p => .call .killed id (killCurrentProcess p s)
  | .destroy proc g => .done (schedDestroyProcess proc g s)
  | .alloc size c => .done (heapGet (u32 size) c s).2
  | .mapKernel n regionStart regionEnd =>
    .done { s with mach := (vmmAllocPagesRegion n (vmmFlagsPresent ||| vmmFlagsRw) regionStart
      regionEnd s.mach).2 }

/-- The thread that was switched to goes on: in the code it was interrupted in, or
behind the `sys_yield` of `ipc_receive`. -/
def resume (s : Kernel) : Kernel :=
  if s.halted then s
  else
    match (s.thread s.currentThread).sp0 with
    | .receive senderPid buffer size => receiveRest senderPid buffer size s
    | _ => s

/-- The rest of a step, once the handler has come to its end. -/
def Outcome.finish : Outcome → Kernel
  | .done s => s
  | .call sp0 rest s =>
    match schedule sp0 s with
    | (false, s) => rest s
    | (true, s) => resume s

/-- One entry into the kernel, up to the return to code outside it. -/
def step (s : Kernel) (e : Event) : Kernel := if s.halted then s else (handle e s).finish

/-! ### Runs -/

/-- What the code outside the handlers keeps to: an exception comes from user code,
which the idle process has none of; only listed processes other than the idle one are
destroyed; and kernel mappings stay in the upper half, below the window on the page
tables. -/
def Admissible (s : Kernel) : Event → Prop
  | .fault => s.currentThread.process ≠ idleProcess
  | .destroy proc _ => proc ∈ s.processes ∧ proc ≠ idleProcess
  | .mapKernel _ regionStart regionEnd => 0xC0000000 ≤ regionStart ∧ regionEnd ≤ 0xFFC00000
  | _ => True

/-- The steps of the kernel. -/
def Step (s : Kernel) (e : Event) (s' : Kernel) : Prop := Admissible s e ∧ s' = step s e

/-- Where `sched_init` finds the kernel: the variables of the scheduler and the static
process are zero, and the heap has its initial pages. -/
structure Boot (s : Kernel) : Prop where
  proc : s.proc idleProcess = Process.zero
  thread : ∀ i, s.thread ⟨idleProcess, i⟩ = Thread.zero
  q : ∀ i, s.queues.q ⟨idleProcess, i⟩ = none
  waitersNext : s.queues.headNext (.waiters idleProcess) = none
  waitersPrev : s.queues.headPrev (.waiters idleProcess) = none
  waitersSize : s.queues.size (.waiters idleProcess) = 0
  pid : s.currentPid = 0
  ticks : s.ticks = 0
  blocks : s.heap.blocks = []
  stop : s.heap.stop = heapBase + 24 * pageSize
  accepted : s.accepted idleProcess = []
  delivered : s.delivered idleProcess = []
  created : s.created = 0
  halted : s.halted = false

/-- The state in which `kmain` starts the first threads. -/
def Init (s : Kernel) : Prop := ∃ s₀, Boot s₀ ∧ s = schedInit 100 s₀

end Gummy
