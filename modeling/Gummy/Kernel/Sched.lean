import Gummy.Kernel.Thread

/-!
The scheduler of `sched.c`.

`schedule` either returns to its caller or switches to another thread, and the
first component of its result says which; on a switch, what happens next is what
the new thread's saved context says.
-/

namespace Gummy

open CWord

/-- `switch_context`, up to `restore_context`. -/
def switchContext (new : ThreadRef) (s : Kernel) : Kernel :=
  match (s.thread new).process with
  | none => { s with halted := true }
  | some proc =>
    let s := { s with currentThread := new }
    let s := if new ≠ idleThread then
        { s with esp0 := (s.thread new).stack0 + kernelStackSize } else s
    let s := if proc ≠ s.currentProcess then
        { s with mach := { s.mach with cr3 := (s.proc proc).cr3 } } else s
    { s with currentProcess := proc }.setThread new ({ · with state := .running })

/-- `schedule` before its call of `queue_pop`: save the context `sp0`, and queue the
current thread if it is running. -/
def requeue (sp0 : Context) (s : Kernel) : Kernel :=
  let s := s.setThread s.currentThread ({ · with sp0 })
  if (s.thread s.currentThread).state = .running then
    { s with queues := queuePush s.queues .ready s.currentThread }
  else s

/-- `schedule`, called with the context `sp0`: whether it switched. -/
def schedule (sp0 : Context) (s : Kernel) : Bool × Kernel :=
  if queueEmpty s.queues .ready then (false, s)
  else
    let s := requeue sp0 s
    match queuePop s.queues .ready with
    | (none, queues) => (false, { s with queues })
    | (some new, queues) =>
      let s := { s with queues }
      if new = s.currentThread then (false, s)
      else
        match (s.thread new).process with
        | none => (true, { s with halted := true })  -- a page fault in the kernel
        | some proc =>
          -- the current thread keeps the processor until a live process turns up
          if (s.proc proc).state = .dying then (false, s)
          else (true, switchContext new s)

/-- The loop of `timer_handler`: `n` is the node to look at. -/
def wakeSleepers : ℕ → Option ThreadRef → Kernel → Kernel
  | 0, _, s => s
  | _ + 1, none, s => s
  | fuel + 1, some n, s =>
    let next := s.queues.next n
    let s := if s.ticks ≥ (s.thread n).wakeTick then schedReady n s else s
    wakeSleepers fuel next s

/-- `timer_handler`, up to its call of `schedule`.  The loop visits each node of the
queue once. -/
def timerTick (s : Kernel) : Kernel :=
  let s := { s with ticks := u32 (s.ticks + 1) }
  wakeSleepers (s.queues.size .sleep) (s.queues.headNext .sleep) s

/-! ### Start -/

/-- `sched_init`, for the frequency in hertz.  It runs once, with the address space
that `vmm_init` found and with all its variables zero. -/
def schedInit (frequency : ℕ) (s : Kernel) : Kernel :=
  let timerFrequency := if frequency ≤ 18 then 100 else frequency
  let s := { s with msPerTick := 1000 / timerFrequency }
  let s := s.setProc idleProcess ({ · with
    pid := s.currentPid, cr3 := s.mach.cr3, numThreads := 1 })
  let s := { s with currentPid := u32 (s.currentPid + 1) }
  let queues := queueInit (queueInit (queueInit (queueInit s.queues .ready) .blocked) .zombie)
    .sleep
  let s := { s with queues }
  let s := { s with currentThread := idleThread }.setThread idleThread
    ({ · with process := some idleProcess })
  let s := s.setProc idleProcess ({ · with prev := none, next := none, dad := none })
  { s with currentProcess := idleProcess, firstProcess := some idleProcess }

end Gummy
