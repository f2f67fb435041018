import Gummy.Kernel.Sched

/-!
The processes of `process.c`: the list of all processes, creation and destruction.
-/

namespace Gummy

open CWord

/-- `sizeof(process_t)` -/
abbrev sizeofProcess : ℕ := 1636

/-- `IPC_QUEUE_SIZE` -/
abbrev ipcQueueSize : ℕ := 16

/-- `sizeof(ipc_message_t)` -/
abbrev sizeofMessage : ℕ := 76

/-- `sched_get_process`: `none` for `NULL`. -/
def schedGetProcess (pid : ℕ) (s : Kernel) : Option ℕ :=
  s.processes.find? fun p => (s.proc p).pid = pid

/-- `sched_get_current_process` -/
def schedGetCurrentProcess (s : Kernel) : Option ℕ := (s.thread s.currentThread).process

/-- `sched_get_current_pid` -/
def schedGetCurrentPid (s : Kernel) : ℕ :=
  match schedGetCurrentProcess s with
  | none => 0
  | some p => (s.proc p).pid

/-- `sched_get_current_ppid` -/
def schedGetCurrentPpid (s : Kernel) : ℕ :=
  match schedGetCurrentProcess s with
  | none => 0
  | some p =>
    match (s.proc p).dad with
    | none => 0
    | some dad => (s.proc dad).pid

/-- `memset(proc, 0, sizeof(*proc))`, with the threads and queue fields inside. -/
def clearProcess (p : ℕ) (s : Kernel) : Kernel :=
  { s with
    proc := Function.update s.proc p Process.zero
    thread := fun t => if t.process = p then Thread.zero else s.thread t
    queues :=
      { next := fun t => if t.process = p then none else s.queues.next t
        prev := fun t => if t.process = p then none else s.queues.prev t
        q := fun t => if t.process = p then none else s.queues.q t
        headNext := Function.update s.queues.headNext (.waiters p) none
        headPrev := Function.update s.queues.headPrev (.waiters p) none
        size := Function.update s.queues.size (.waiters p) 0 }
    accepted := Function.update s.accepted p []
    delivered := Function.update s.delivered p [] }

/-- The fields of a new process, after the `memset` and apart from `cr3`. -/
def fillProcess (p : ℕ) (s : Kernel) : Kernel :=
  let s := s.setProc p ({ · with numThreads := 0, pid := s.currentPid })
  let s := { s with currentPid := u32 (s.currentPid + 1), created := s.created + 1 }
  let s := s.setProc p ({ · with dad := (s.thread s.currentThread).process })
  let s := s.setProc p fun pr => { pr with
    ringBuffer := ringBufferInit pr.ringBuffer.buf sizeofMessage ipcQueueSize }
  { s with queues := queueInit s.queues (.waiters p) }

/-- Linking at the head of the process list, at the end of `sched_create_process`. -/
def linkProcess (p : ℕ) (s : Kernel) : Kernel :=
  let s := s.setProc p ({ · with next := s.firstProcess })
  let s := s.setProcAt s.firstProcess ({ · with prev := some p })
  { s with firstProcess := some p }

/-- `sched_create_process`, once the memory at `p` has been allocated. -/
def setUpProcess (p : ℕ) (s : Kernel) : Option ℕ × Kernel :=
  let s := clearProcess p s
  match vmmClone s.mach with
  | (cr3, mach) =>
    let s := { s with mach }.setProc p ({ · with cr3 })
    if cr3 = 0 then (none, heapPut p s)
    else (some p, linkProcess p (fillProcess p s))

/-- `sched_create_process`: the process, `none` for `NULL`. -/
def schedCreateProcess (c : HeapChoice) (s : Kernel) : Option ℕ × Kernel :=
  match heapGet sizeofProcess c s with
  | (none, s) => (none, s)
  | (some p, s) => setUpProcess p s

/-- What the memory of a `process_t` reads once the heap has it back. -/
structure Garbage where
  proc : Process
  thread : Fin threadPerProcess → Thread
  next : Fin threadPerProcess → Option ThreadRef
  prev : Fin threadPerProcess → Option ThreadRef
  q : Fin threadPerProcess → Option QueueRef
  headNext : Option ThreadRef
  headPrev : Option ThreadRef
  size : ℕ

/-- `heap_free(proc)`: from here on the memory at `proc` may hold anything. -/
def freeProcess (p : ℕ) (g : Garbage) (s : Kernel) : Kernel :=
  let s := heapPut p s
  { s with
    proc := Function.update s.proc p g.proc
    thread := fun t => if t.process = p then g.thread t.slot else s.thread t
    queues :=
      { next := fun t => if t.process = p then g.next t.slot else s.queues.next t
        prev := fun t => if t.process = p then g.prev t.slot else s.queues.prev t
        q := fun t => if t.process = p then g.q t.slot else s.queues.q t
        headNext := Function.update s.queues.headNext (.waiters p) g.headNext
        headPrev := Function.update s.queues.headPrev (.waiters p) g.headPrev
        size := Function.update s.queues.size (.waiters p) g.size } }

/-- The reparenting loop of `sched_destroy_process`. -/
def reparent (proc : ℕ) (s : Kernel) : Kernel :=
  s.processes.foldl (fun s p =>
    if (s.proc p).dad = some proc then s.setProc p ({ · with dad := (s.proc proc).dad }) else s) s

/-- Unlinking from the process list, at the end of `sched_destroy_process`. -/
def unlinkProcess (proc : ℕ) (s : Kernel) : Kernel :=
  let s := s.setProcAt (s.proc proc).prev ({ · with next := (s.proc proc).next })
  let s := s.setProcAt (s.proc proc).next ({ · with prev := (s.proc proc).prev })
  if s.firstProcess = some proc then { s with firstProcess := (s.proc proc).next } else s

/-- `sched_destroy_process` -/
def schedDestroyProcess (proc : ℕ) (g : Garbage) (s : Kernel) : Kernel :=
  if s.mach.cr3 = (s.proc proc).cr3 then s
  else
    let s := reparent proc s
    let s := (List.finRange threadPerProcess).foldl (fun s i => schedDestroyThread ⟨proc, i⟩ s) s
    let s := { s with mach := vmmDestroy (s.proc proc).cr3 s.mach }
    let s := if (s.proc proc).cr3 ≠ 0 then
        { s with mach := { s.mach with pmm := pmmFreePage s.mach.pmm (s.proc proc).cr3 } } else s
    freeProcess proc g (unlinkProcess proc s)

/-- `sched_destroy_current_process`, up to its call of `sys_yield`. -/
def killCurrentProcess (proc : ℕ) (s : Kernel) : Kernel :=
  let queues := (List.finRange threadPerProcess).foldl
    (fun Q i => queueRemove Q ⟨proc, i⟩) s.queues
  { s with queues }.setProc proc ({ · with state := .dying })

end Gummy
