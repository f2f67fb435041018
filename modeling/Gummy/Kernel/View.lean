import Gummy.Kernel.Destruction
import Mathlib

/-!
The kernel as its users see it.

A `View` has processes, threads, queues and mailboxes, but no addresses of fields, no
pages and no heap blocks.  `Act` lists everything that handlers do to it, and
`View.schedule` is the scheduler.  What is claimed about scheduling and messages is
proved of views; `Kernel.Refinement` shows that each step of the kernel is a sequence of
acts and a call of the scheduler.
-/

namespace Gummy

open CWord

/-! ### Views -/

structure ProcessView where
  pid : ℕ
  dad : Option ℕ
  state : ProcessState
  mailbox : List Message
  accepted : List Message
  delivered : List Delivery

structure ThreadView where
  state : ThreadState
  sp0 : Context

structure View where
  processes : List ℕ
  proc : ℕ → ProcessView
  /-- `none` for a slot that no thread has ever used -/
  thread : ThreadRef → Option ThreadView
  queue : QueueRef → List ThreadRef
  current : ThreadRef
  created : ℕ
  halted : Bool

/-- The stores are the pid of the sender and as much of the data as was asked for. -/
def Delivery.Exact (d : Delivery) : Prop :=
  d.stores = wordStores d.senderPid d.message.senderPid ++
    copyStores d.buffer (d.message.data.take d.size)

namespace View

/-- What every view of a kernel has: queues of live threads in use, none of them in two
places, and a live current thread. -/
structure WF (v : View) : Prop where
  processes_nodup : v.processes.Nodup
  idle_mem : idleProcess ∈ v.processes
  nodup : ∀ q, (v.queue q).Nodup
  unique : ∀ q q' t, t ∈ v.queue q → t ∈ v.queue q' → q = q'
  live : ∀ q, ∀ t ∈ v.queue q, t.process ∈ v.processes
  used : ∀ q, ∀ t ∈ v.queue q, ∃ x, v.thread t = some x ∧ x.state ≠ .free
  waiters : ∀ p, ∀ t ∈ v.queue (.waiters p), t.process = p
  current_mem : v.current.process ∈ v.processes
  current_used : ∃ x, v.thread v.current = some x ∧ x.state ≠ .free

/-! ### Acts -/

def setThread (t : ThreadRef) (f : ThreadView → ThreadView) (v : View) : View :=
  { v with thread := Function.update v.thread t ((v.thread t).map f) }

def setProc (p : ℕ) (f : ProcessView → ProcessView) (v : View) : View :=
  { v with proc := Function.update v.proc p (f (v.proc p)) }

/-- A thread moves to the end of a queue. -/
def move (q : QueueRef) (state : ThreadState) (t : ThreadRef) (v : View) : View :=
  { v with queue := Denotes.pushList v.queue q t }.setThread t ({ · with state })

/-- A new thread is ready to start. -/
def start (t : ThreadRef) (ctx : InterruptContext) (v : View) : View :=
  { v with
    queue := Denotes.pushList v.queue .ready t
    thread := Function.update v.thread t (some ⟨.ready, .fresh ctx⟩) }

/-- The threads of a process leave the queues, and it is marked as dying. -/
def kill (p : ℕ) (v : View) : View :=
  { v with queue := dropProcess v.queue p }.setProc p ({ · with state := .dying })

/-- The current process has a child. -/
def create (p : ℕ) (v : View) : View :=
  { v with
    processes := p :: v.processes
    proc := Function.update v.proc p
      ⟨u32 (v.created + 1), some v.current.process, .normal, [], [], []⟩
    thread := fun t => if t.process = p then none else v.thread t
    created := v.created + 1 }

/-- A process goes; its children are left to its father. -/
def destroy (p : ℕ) (v : View) : View :=
  { v with
    processes := v.processes.erase p
    proc := fun q => { v.proc q with
      dad := if (v.proc q).dad = some p then (v.proc p).dad else (v.proc q).dad }
    queue := dropProcess v.queue p }

/-- A message is put into a mailbox. -/
def post (p : ℕ) (m : Message) (v : View) : View :=
  v.setProc p fun x => { x with mailbox := x.mailbox ++ [m], accepted := x.accepted ++ [m] }

/-- A message is put into a mailbox, and the first thread that waits there is woken. -/
def send (p : ℕ) (m : Message) (v : View) : View :=
  match v.queue (.waiters p) with
  | [] => v.post p m
  | t :: _ => (v.post p m).move .ready .ready t

/-- The current process takes the first message. -/
def take (d : Delivery) (v : View) : View :=
  v.setProc v.current.process fun x =>
    { x with mailbox := x.mailbox.tail, delivered := x.delivered ++ [d] }

lemma take_proc_self (d : Delivery) (v : View) : (v.take d).proc v.current.process =
    { v.proc v.current.process with
      mailbox := (v.proc v.current.process).mailbox.tail
      delivered := (v.proc v.current.process).delivered ++ [d] } :=
  Function.update_self ..

lemma take_proc_of_ne (d : Delivery) (v : View) {p : ℕ} (h : p ≠ v.current.process) :
    (v.take d).proc p = v.proc p :=
  Function.update_of_ne h ..

/-- What handlers do without giving up the processor.  A message is taken only where
`takes` holds. -/
inductive Act (takes : View → Prop) (v : View) : View → Prop
  | wake {t : ThreadRef} (h : t ∈ v.queue .sleep) : Act takes v (v.move .ready .ready t)
  | start {t : ThreadRef} (ctx : InterruptContext) (hp : t.process ∈ v.processes)
      (h : v.thread t = none) : Act takes v (v.start t ctx)
  | create {p : ℕ} (hp : p ∉ v.processes) (hi : p ≠ idleProcess) : Act takes v (v.create p)
  | destroy {p : ℕ} (hp : p ∈ v.processes) (hi : p ≠ idleProcess)
      (hcur : v.current.process ≠ p) : Act takes v (v.destroy p)
  | send {p : ℕ} (m : Message) (hp : p ∈ v.processes) (hs : (v.proc p).state ≠ .dying)
      (hm : m.senderPid = (v.proc v.current.process).pid) : Act takes v (v.send p m)
  | take {d : Delivery} {l : List Message}
      (hm : (v.proc v.current.process).mailbox = d.message :: l) (hd : d.Exact)
      (ht : takes v) : Act takes v (v.take d)

/-- What the current thread does before it calls the scheduler in order to wait or to end,
and the context it calls it with.  It waits for a message only where `waits` holds. -/
inductive GiveUp (waits : View → Prop) (v : View) : Context → View → Prop
  | sleep (h : v.current ≠ idleThread) :
      GiveUp waits v .interrupted (v.move .sleep .sleeping v.current)
  | exit (h : v.current.process ≠ idleProcess) :
      GiveUp waits v .interrupted (v.move .zombie .zombie v.current)
  | wait {senderPid buffer size : ℕ} (hm : (v.proc v.current.process).mailbox = [])
      (hw : waits v) : GiveUp waits v (.receive senderPid buffer size)
        (v.move (.waiters v.current.process) .blocked v.current)
  | kill (h : v.current.process ≠ idleProcess) :
      GiveUp waits v .killed (v.kill v.current.process)

/-- How the view `v` comes to a call of the scheduler: the handler leaves the current thread
as it is, or the thread gives up. -/
def Calls (waits : View → Prop) (v : View) (sp0 : Context) (v' : View) : Prop :=
  v' = v ∧ sp0 = .interrupted ∨ v.WF ∧ GiveUp waits v sp0 v'

/-- A sequence of acts, each on a well-formed view. -/
abbrev Acts (takes : View → Prop) : View → View → Prop :=
  Relation.ReflTransGen fun v v' => v.WF ∧ Act takes v v'

/-- What is kept by acts is kept by a sequence of acts. -/
lemma Acts.invariant {takes J : View → Prop}
    (hact : ∀ v v', v.WF → J v → Act takes v v' → J v') {v v' : View} (h : Acts takes v v')
    (hv : J v) : J v' := by
  induction h with
  | refl => exact hv
  | tail _ h ih => exact hact _ _ h.1 ih h.2

/-! ### The scheduler -/

/-- `schedule`, before it takes the first thread off the ready queue. -/
def requeue (sp0 : Context) (v : View) : View :=
  let v := v.setThread v.current ({ · with sp0 })
  if (v.thread v.current).map ThreadView.state = some .running then
    { v with queue := Denotes.pushList v.queue .ready v.current }
  else v

/-- The first thread of the ready queue is taken off. -/
def skip (l : List ThreadRef) (v : View) : View :=
  { v with queue := Function.update v.queue .ready l }

/-- The first thread of the ready queue becomes the current thread. -/
def dispatch (n : ThreadRef) (l : List ThreadRef) (v : View) : View :=
  { v.skip l with current := n }.setThread n ({ · with state := .running })

@[simp] lemma skip_queue (l : List ThreadRef) (v : View) :
    (v.skip l).queue = Function.update v.queue .ready l :=
  rfl

@[simp] lemma dispatch_queue (n : ThreadRef) (l : List ThreadRef) (v : View) :
    (v.dispatch n l).queue = Function.update v.queue .ready l :=
  rfl

/-- `schedule`: whether it switches. -/
inductive Schedule (sp0 : Context) (v : View) : Bool → View → Prop
  | idle (h : v.queue .ready = []) : Schedule sp0 v false v
  | keep {n : ThreadRef} {l : List ThreadRef} (h : (v.requeue sp0).queue .ready = n :: l)
      (hn : n = v.current ∨ (v.proc n.process).state = .dying) :
      Schedule sp0 v false ((v.requeue sp0).skip l)
  | switch {n : ThreadRef} {l : List ThreadRef} (h : (v.requeue sp0).queue .ready = n :: l)
      (hn : n ≠ v.current) (hs : (v.proc n.process).state ≠ .dying) :
      Schedule sp0 v true ((v.requeue sp0).dispatch n l)

section Requeue

variable (sp0 : Context) (v : View)

@[simp] lemma requeue_processes : (v.requeue sp0).processes = v.processes := by
  unfold requeue
  dsimp only
  split_ifs <;> rfl

@[simp] lemma requeue_proc : (v.requeue sp0).proc = v.proc := by
  unfold requeue
  dsimp only
  split_ifs <;> rfl

@[simp] lemma requeue_current : (v.requeue sp0).current = v.current := by
  unfold requeue
  dsimp only
  split_ifs <;> rfl

@[simp] lemma requeue_created : (v.requeue sp0).created = v.created := by
  unfold requeue
  dsimp only
  split_ifs <;> rfl

@[simp] lemma requeue_halted : (v.requeue sp0).halted = v.halted := by
  unfold requeue
  dsimp only
  split_ifs <;> rfl

@[simp] lemma requeue_thread : (v.requeue sp0).thread =
    Function.update v.thread v.current ((v.thread v.current).map ({ · with sp0 })) := by
  unfold requeue
  dsimp only
  split_ifs <;> rfl

/-- The current thread is queued exactly if it is running. -/
lemma requeue_queue : (v.requeue sp0).queue =
    if (v.thread v.current).map ThreadView.state = some .running then
      Denotes.pushList v.queue .ready v.current else v.queue := by
  have hstate : ((v.setThread v.current ({ · with sp0 })).thread
      (v.setThread v.current ({ · with sp0 })).current).map ThreadView.state =
      (v.thread v.current).map ThreadView.state := by
    simp only [setThread, Function.update_self, Option.map_map]
    rfl
  unfold requeue
  dsimp only
  rw [hstate]
  split_ifs <;> rfl

variable {v}

lemma requeue_ne_nil (h : v.queue .ready ≠ []) : (v.requeue sp0).queue .ready ≠ [] := by
  rw [requeue_queue]
  split_ifs
  · simp [Denotes.pushList]
  · exact h

end Requeue

/-- `requeue` queues nobody but the current thread. -/
lemma WF.requeue {v : View} (h : v.WF) (sp0 : Context) : (v.requeue sp0).WF := by
  have hmem : ∀ q, ∀ t ∈ (v.requeue sp0).queue q, t ∈ v.queue q ∨ q = .ready ∧ t = v.current := by
    intro q t ht
    rw [requeue_queue] at ht
    split_ifs at ht
    · exact ((Denotes.mem_pushList h.nodup).1 ht).imp And.left id
    · exact Or.inl ht
  have hused : ∀ t, (∃ x, v.thread t = some x ∧ x.state ≠ .free) →
      ∃ x, (v.requeue sp0).thread t = some x ∧ x.state ≠ .free := by
    rintro t ⟨x, hx, hfree⟩
    rw [requeue_thread]
    by_cases ht : t = v.current
    · subst ht
      exact ⟨{ x with sp0 }, by simp [hx], hfree⟩
    · exact ⟨x, by rw [Function.update_of_ne ht, hx], hfree⟩
  refine ⟨?_, ?_, fun q => ?_, fun q q' t ht ht' => ?_, fun q t ht => ?_, fun q t ht => ?_,
    fun p t ht => ?_, ?_, ?_⟩
  · rw [requeue_processes]
    exact h.processes_nodup
  · rw [requeue_processes]
    exact h.idle_mem
  · rw [requeue_queue]
    split_ifs
    · exact Denotes.nodup_pushList h.nodup _ _ _
    · exact h.nodup q
  · rw [requeue_queue] at ht ht'
    split_ifs at ht ht'
    · -- a push takes the thread out of every other queue
      obtain ⟨ht, hne⟩ | ⟨rfl, rfl⟩ := (Denotes.mem_pushList h.nodup).1 ht
      · obtain ⟨ht', -⟩ | ⟨-, heq⟩ := (Denotes.mem_pushList h.nodup).1 ht'
        · exact h.unique _ _ _ ht ht'
        · exact absurd heq hne
      · obtain ⟨-, hne⟩ | ⟨rfl, -⟩ := (Denotes.mem_pushList h.nodup).1 ht'
        · exact absurd rfl hne
        · rfl
    · exact h.unique _ _ _ ht ht'
  · rw [requeue_processes]
    obtain ht | ⟨-, rfl⟩ := hmem q t ht
    · exact h.live q t ht
    · exact h.current_mem
  · obtain ht | ⟨-, rfl⟩ := hmem q t ht
    · exact hused t (h.used q t ht)
    · exact hused _ h.current_used
  · obtain ht | ⟨hq, -⟩ := hmem _ t ht
    · exact h.waiters p t ht
    · simp at hq
  · rw [requeue_processes, requeue_current]
    exact h.current_mem
  · rw [requeue_current]
    exact hused _ h.current_used

/-- The scheduler would switch: the thread it takes off the ready queue is not the current
one, and its process is not dying. -/
def Switches (v : View) : Prop :=
  ∃ n l, (v.requeue .null).queue .ready = n :: l ∧ n ≠ v.current ∧
    (v.proc n.process).state ≠ .dying

lemma Schedule.eq_true_iff {sp0 : Context} {v v' : View} {b : Bool} (h : Schedule sp0 v b v') :
    b = true ↔ v.Switches := by
  have hq : ∀ sp, (v.requeue sp).queue = (v.requeue .null).queue := fun sp => by
    rw [requeue_queue, requeue_queue]
  cases h with
  | idle h =>
    refine iff_of_false Bool.false_ne_true ?_
    rintro ⟨n, l, hl, hn, -⟩
    rw [requeue_queue] at hl
    split_ifs at hl
    · simp only [Denotes.pushList, h, Function.update_self, List.erase_nil, List.nil_append,
        List.cons.injEq] at hl
      exact hn hl.1.symm
    · exact List.cons_ne_nil n l (hl.symm.trans h)
  | keep h hn =>
    refine iff_of_false Bool.false_ne_true ?_
    rintro ⟨n', l', hl, hne, hs⟩
    rw [hq] at h
    obtain ⟨rfl, -⟩ := List.cons.inj (h.symm.trans hl)
    exact hn.elim hne hs
  | switch h hn hs =>
    rw [hq] at h
    exact iff_of_true rfl ⟨_, _, h, hn, hs⟩

/-- The current thread was dispatched inside `ipc_receive`. -/
def Resumes (v : View) : Prop :=
  ∃ senderPid buffer size, (v.thread v.current).map ThreadView.sp0 =
    some (.receive senderPid buffer size)

/-- What follows a call of the scheduler in the same step.  If it returns, its caller may
stop the processor; if the thread dispatched is inside `ipc_receive`, it takes a message
if there is one. -/
inductive After : Bool → View → View → Prop
  | returned (v : View) : After false v v
  | stopped (v : View) : After false v { v with halted := true }
  | elsewhere {v : View} (h : ¬ v.Resumes) : After true v v
  | starved {v : View} (h : v.Resumes) (hm : (v.proc v.current.process).mailbox = []) :
      After true v v
  | received {v : View} {d : Delivery} {l : List Message} (h : v.Resumes)
      (hm : (v.proc v.current.process).mailbox = d.message :: l) (hd : d.Exact) :
      After true v (v.take d)

/-- A step of the kernel: some acts and, unless the handler returns, a call of the
scheduler. -/
inductive Step (takes waits : View → Prop) (v : View) : View → Prop
  | done {v' : View} (h : Acts takes v v') : Step takes waits v v'
  | call {v₁ v₂ v₃ v₄ : View} {sp0 : Context} {b : Bool} (hacts : Acts takes v v₁)
      (hcalls : Calls waits v₁ sp0 v₂) (hwf₂ : v₂.WF) (hs : Schedule sp0 v₂ b v₃)
      (hwf₃ : v₃.WF) (hafter : After b v₃ v₄) : Step takes waits v v₄

/-- What is kept by acts, on giving up the processor and by the scheduler is kept by
steps.  Between giving up and the scheduler something else may hold. -/
lemma Step.invariant {takes waits J : View → Prop} {K : Context → View → Prop}
    (hact : ∀ v v', v.WF → J v → Act takes v v' → J v')
    (hstay : ∀ v, v.WF → J v → K .interrupted v)
    (hgive : ∀ v v' sp0, v.WF → v'.WF → J v → GiveUp waits v sp0 v' → K sp0 v')
    (hcall : ∀ v v₁ v₂ sp0 b, v.WF → K sp0 v → Schedule sp0 v b v₁ → v₁.WF →
      After b v₁ v₂ → J v₂) {v v' : View} (h : Step takes waits v v') (hv : J v) : J v' := by
  cases h with
  | done h => exact h.invariant hact hv
  | call hacts hcalls hwf₂ hs hwf₃ hafter =>
    have hv₁ := hacts.invariant hact hv
    refine hcall _ _ _ _ _ hwf₂ ?_ hs hwf₃ hafter
    obtain ⟨rfl, rfl⟩ | ⟨hwf₁, hg⟩ := hcalls
    · exact hstay _ hwf₂ hv₁
    · exact hgive _ _ _ hwf₁ hwf₂ hv₁ hg

end View

end Gummy
