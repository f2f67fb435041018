import Gummy.Kernel.State

/-!
The threads of `thread.c`: the moves between queues, creation and destruction.

All of this runs with interrupts off.  The two calls that end in the scheduler,
`sched_exit_current_thread` and `sched_thread_sleep`, stand with the system calls.
-/

namespace Gummy

open CWord

/-! ### Moves -/

/-- What the functions `sched_ready`, `sched_zombie` and `sched_sleep` do: move a
thread to the end of a queue and set its state. -/
def moveTo (q : QueueRef) (state : ThreadState) (t : ThreadRef) (s : Kernel) : Kernel :=
  { s with queues := queuePush (queueRemove s.queues t) q t }.setThread t ({ · with state })

/-- `sched_ready` -/
def schedReady (t : ThreadRef) (s : Kernel) : Kernel := moveTo .ready .ready t s

/-- `sched_zombie` -/
def schedZombie (t : ThreadRef) (s : Kernel) : Kernel := moveTo .zombie .zombie t s

/-- `sched_sleep` -/
def schedSleep (t : ThreadRef) (s : Kernel) : Kernel := moveTo .sleep .sleeping t s

/-! ### Creation -/

/-- `USER_STACK_PAGES` -/
abbrev userStackPages : ℕ := 16

/-- `USER_STACK_SIZE` -/
abbrev userStackSize : ℕ := userStackPages * pageSize

/-- `USER_STACK_TOP` -/
abbrev userStackTop : ℕ := 0xBFFFF000

/-- `KERNEL_STACK_SIZE` -/
abbrev kernelStackSize : ℕ := pageSize

/-- The top of the user stack of a slot. -/
def userStackEnd (slot : Fin threadPerProcess) : ℕ :=
  userStackTop - slot * (userStackSize + pageSize)

/-- The frame at the top of a new kernel stack. -/
def initialContext (proc loc sp : ℕ) : InterruptContext :=
  let user := proc ≠ idleProcess
  let data := if user then 0x23 else 0x10
  { gs := data, fs := data, es := data, ds := data
    esi := 0, edi := 0, ebp := 0, edx := 0, ecx := 0, ebx := 0, eax := 0
    intNum := 0, errorCode := 0, eip := loc
    cs := if user then 0x1B else 0x08
    eflags := 0x202
    esp := if user then sp else 0
    ss := data }

/-- `memset(t, 0, sizeof(*t))`, which clears the node as well. -/
def clearThread (t : ThreadRef) (s : Kernel) : Kernel :=
  { s with
    thread := Function.update s.thread t Thread.zero
    queues := { s.queues with
      next := Function.update s.queues.next t none
      prev := Function.update s.queues.prev t none
      q := Function.update s.queues.q t none } }

/-- The first slot that no thread has ever used. -/
def freeSlot (proc : ℕ) (s : Kernel) : Option (Fin threadPerProcess) :=
  (List.finRange threadPerProcess).find? fun i => (s.thread ⟨proc, i⟩).process.isNone

/-- The user stack of a new thread; threads of the idle process have none. -/
def allocUserStack (proc stack sp : ℕ) (s : Kernel) : Bool × Kernel :=
  if proc = idleProcess then (true, s)
  else
    let (res, mach) := vmmAllocPagesRegionIn (s.proc proc).cr3 userStackPages
      (vmmFlagsPresent ||| vmmFlagsRw ||| vmmFlagsUser) stack sp s.mach
    (res.isSome, { s with mach })

/-- The fields of a new thread, after the `memset`. -/
def fillThread (proc loc stack0 sp : ℕ) (t : Thread) : Thread :=
  { t with
    sp0 := .fresh (initialContext proc loc sp)
    process := some proc
    sp := if proc ≠ idleProcess then sp else t.sp
    stack := if proc ≠ idleProcess then sp - userStackSize else t.stack
    stack0 }

/-- `sched_create_thread`: the thread, `none` for `NULL`. -/
def schedCreateThread (loc proc : ℕ) (c : HeapChoice) (s : Kernel) : Option ThreadRef × Kernel :=
  if loc = 0 then (none, s)
  else if (s.proc proc).numThreads ≥ threadPerProcess then (none, s)
  else
    match freeSlot proc s with
    | none => (none, s)
    | some slot =>
      let t : ThreadRef := ⟨proc, slot⟩
      match heapGet kernelStackSize c (clearThread t s) with
      | (none, s) => (none, s)
      | (some stack0, s) =>
        let sp := userStackEnd slot
        match allocUserStack proc (sp - userStackSize) sp s with
        | (false, s) => (none, heapPut stack0 s)
        | (true, s) =>
          let s := s.setThread t (fillThread proc loc stack0 sp)
          (some t, s.setProc proc fun p => { p with numThreads := (p.numThreads + 1) % 2 ^ 8 })

/-! ### Destruction -/

/-- `sched_destroy_thread` -/
def schedDestroyThread (t : ThreadRef) (s : Kernel) : Kernel :=
  match (s.thread t).process with
  | none => s
  | some proc =>
    if (s.thread t).state = .free then s
    else if t = s.currentThread then s
    else
      let s := if (s.thread t).stack ≠ 0 then
          { s with mach :=
            (vmmFreePagesIn (s.proc proc).cr3 userStackPages (s.thread t).stack s.mach).2 }
        else s
      let s := if (s.thread t).stack0 ≠ 0 then heapPut (s.thread t).stack0 s else s
      let s := { s with queues := queueRemove s.queues t }
      let s := s.setProc proc fun p => { p with numThreads := (p.numThreads + 2 ^ 8 - 1) % 2 ^ 8 }
      s.setThread t ({ · with state := .free })

end Gummy
