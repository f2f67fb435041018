import Gummy.Kernel.Syscall

/-!
What most steps of the kernel leave alone: memory, the address spaces and who has a stack.
-/

namespace Gummy

open CWord

variable {s s' s'' : Kernel}

/-- What the address spaces depend on, but for the space that is active. -/
structure Layout where
  phys : ByteMem
  pmm : Pmm
  stop : ℕ
  first : Option ℕ
  cr3 : ℕ → ℕ
  next : ℕ → Option ℕ
  owner : ThreadRef → Option ℕ
  stack : ThreadRef → ℕ

def Kernel.layout (s : Kernel) : Layout where
  phys := s.mach.phys
  pmm := s.mach.pmm
  stop := s.heap.stop
  first := s.firstProcess
  cr3 p := (s.proc p).cr3
  next p := (s.proc p).next
  owner t := (s.thread t).process
  stack t := (s.thread t).stack

/-- The address spaces are the same, but for the one that is active. -/
def SameMemory (s s' : Kernel) : Prop := s'.layout = s.layout

namespace SameMemory

lemma refl (s : Kernel) : SameMemory s s := rfl

lemma trans (h : SameMemory s s') (h' : SameMemory s' s'') : SameMemory s s'' :=
  Eq.trans h' h

lemma cr3 (h : SameMemory s s') (p : ℕ) : (s'.proc p).cr3 = (s.proc p).cr3 :=
  congrFun (congrArg Layout.cr3 h) p

lemma process (h : SameMemory s s') (t : ThreadRef) :
    (s'.thread t).process = (s.thread t).process :=
  congrFun (congrArg Layout.owner h) t

lemma stack (h : SameMemory s s') (t : ThreadRef) : (s'.thread t).stack = (s.thread t).stack :=
  congrFun (congrArg Layout.stack h) t

lemma setThread (s : Kernel) (u : ThreadRef) {f : Thread → Thread}
    (hprocess : ∀ x, (f x).process = x.process) (hstack : ∀ x, (f x).stack = x.stack) :
    SameMemory s (s.setThread u f) := by
  have hprocess' : ∀ t, ((s.setThread u f).thread t).process = (s.thread t).process := by
    intro t
    by_cases hu : t = u
    · rw [hu, Kernel.setThread_self, hprocess]
    · rw [Kernel.setThread_of_ne _ _ hu]
  have hstack' : ∀ t, ((s.setThread u f).thread t).stack = (s.thread t).stack := by
    intro t
    by_cases hu : t = u
    · rw [hu, Kernel.setThread_self, hstack]
    · rw [Kernel.setThread_of_ne _ _ hu]
  show Layout.mk .. = Layout.mk ..
  rw [funext hprocess', funext hstack']
  rfl

lemma setProc (s : Kernel) (q : ℕ) {f : Process → Process} (hcr3 : ∀ x, (f x).cr3 = x.cr3)
    (hnext : ∀ x, (f x).next = x.next) : SameMemory s (s.setProc q f) := by
  have hcr3' : ∀ p, ((s.setProc q f).proc p).cr3 = (s.proc p).cr3 := by
    intro p
    by_cases hq : p = q
    · rw [hq, Kernel.setProc_self, hcr3]
    · rw [Kernel.setProc_of_ne _ _ hq]
  have hnext' : ∀ p, ((s.setProc q f).proc p).next = (s.proc p).next := by
    intro p
    by_cases hq : p = q
    · rw [hq, Kernel.setProc_self, hnext]
    · rw [Kernel.setProc_of_ne _ _ hq]
  show Layout.mk .. = Layout.mk ..
  rw [funext hcr3', funext hnext']
  rfl

lemma withQueues (s : Kernel) (queues : Queues QueueRef ThreadRef) :
    SameMemory s { s with queues } := rfl

lemma setEax (s : Kernel) (t : ThreadRef) (n : ℕ) : SameMemory s (s.setEax t n) := rfl

lemma moveTo (q : QueueRef) (state : ThreadState) (u : ThreadRef) (s : Kernel) :
    SameMemory s (moveTo q state u s) :=
  (withQueues s _).trans (.setThread _ u (fun _ => rfl) fun _ => rfl)

lemma wakeSleepers (fuel : ℕ) (o : Option ThreadRef) (s : Kernel) :
    SameMemory s (wakeSleepers fuel o s) := by
  induction fuel generalizing o s with
  | zero => exact rfl
  | succ fuel ih =>
    cases o with
    | none => exact rfl
    | some n =>
      rw [Gummy.wakeSleepers]
      split_ifs
      · exact (moveTo .ready .ready n s).trans (ih _ _)
      · exact ih _ _

lemma timerTick (s : Kernel) : SameMemory s (timerTick s) := by
  have hclock : SameMemory s { s with ticks := u32 (s.ticks + 1) } := rfl
  exact hclock.trans (wakeSleepers _ _ _)

lemma switchContext (n : ThreadRef) (s : Kernel) : SameMemory s (switchContext n s) := by
  unfold Gummy.switchContext
  cases (s.thread n).process with
  | none => exact rfl
  | some p =>
    dsimp only
    refine .trans ?_ (.setThread _ n (f := ({ · with state := .running })) (fun _ => rfl)
      fun _ => rfl)
    split_ifs <;> exact rfl

lemma requeue (sp0 : Context) (s : Kernel) : SameMemory s (requeue sp0 s) := by
  refine .trans (.setThread s s.currentThread (f := ({ · with sp0 })) (fun _ => rfl)
    fun _ => rfl) ?_
  unfold Gummy.requeue
  dsimp only
  split_ifs <;> exact rfl

lemma schedule (sp0 : Context) (s : Kernel) : SameMemory s (schedule sp0 s).2 := by
  have hq := requeue sp0 s
  unfold Gummy.schedule
  by_cases hempty : queueEmpty s.queues .ready
  · rw [if_pos hempty]
    exact rfl
  rw [if_neg hempty]
  dsimp only
  generalize Gummy.requeue sp0 s = r at hq ⊢
  refine hq.trans ?_
  rcases queuePop r.queues .ready with ⟨_ | n, Q⟩
  · exact rfl
  dsimp only
  split_ifs with hn
  · exact rfl
  · cases (r.thread n).process with
    | none => exact rfl
    | some p =>
      dsimp only
      split_ifs
      · exact rfl
      · exact (withQueues r Q).trans (switchContext n _)

lemma ipcTake (senderPid buffer size : ℕ) (s : Kernel) :
    SameMemory s (ipcTake senderPid buffer size s).2 := by
  unfold Gummy.ipcTake
  cases schedGetCurrentProcess s with
  | none => exact rfl
  | some p =>
    dsimp only
    rcases ringBufferPop (s.proc p).ringBuffer with ⟨_ | out, r⟩
    · exact rfl
    · refine .trans (.setProc s p (f := ({ · with ringBuffer := r })) (fun _ => rfl)
        fun _ => rfl) rfl

lemma receiveRest (senderPid buffer size : ℕ) (s : Kernel) :
    SameMemory s (receiveRest senderPid buffer size s) :=
  (ipcTake senderPid buffer size s).trans rfl

lemma ipcSend (pid type : ℕ) (data : Option ByteMem) (size : ℕ) (stack : ByteMem)
    (s : Kernel) : SameMemory s (ipcSend pid type data size stack s).2 := by
  unfold Gummy.ipcSend
  cases data with
  | none => exact rfl
  | some data =>
    dsimp only
    split_ifs
    · exact rfl
    cases schedGetProcess pid s with
    | none => exact rfl
    | some p =>
      dsimp only
      have hproc : ∀ r, SameMemory s (s.setProc p ({ · with ringBuffer := r })) := fun r =>
        setProc s p (fun _ => rfl) fun _ => rfl
      have hring : ∀ r accepted queues, SameMemory s
          { s.setProc p ({ · with ringBuffer := r }) with accepted, queues } := fun r _ _ =>
        hproc r
      split_ifs
      · exact rfl
      · exact hproc _
      · exact hring _ _ _
      · rcases queuePop _ (QueueRef.waiters p) with ⟨_ | u, Q⟩
        · exact hring _ _ _
        · exact (hring _ _ Q).trans (moveTo .ready .ready u _)

lemma killCurrentProcess (q : ℕ) (s : Kernel) : SameMemory s (killCurrentProcess q s) :=
  (withQueues s _).trans (.setProc _ q (f := ({ · with state := .dying })) (fun _ => rfl)
    fun _ => rfl)

lemma resume (s : Kernel) : SameMemory s (resume s) := by
  unfold Gummy.resume
  split_ifs
  · exact rfl
  · cases (s.thread s.currentThread).sp0 with
    | receive senderPid buffer size => exact receiveRest senderPid buffer size s
    | _ => exact rfl

lemma finish (sp0 : Context) {rest : Kernel → Kernel} (s : Kernel)
    (hrest : ∀ x, SameMemory x (rest x)) : SameMemory s (Outcome.call sp0 rest s).finish := by
  have hs := schedule sp0 s
  rw [Outcome.finish]
  rcases hres : Gummy.schedule sp0 s with ⟨_ | _, x⟩ <;> rw [hres] at hs
  · exact hs.trans (hrest x)
  · exact hs.trans (resume x)

lemma sleep (wakeTick : ℕ) (s : Kernel) : SameMemory s (schedThreadSleep wakeTick s).finish := by
  unfold schedThreadSleep
  dsimp only
  split_ifs
  · exact setEax s _ 0
  · exact setEax s _ 0
  · refine .trans ?_ (finish .interrupted _ fun x => setEax x _ 0)
    exact (setThread s s.currentThread (f := ({ · with wakeTick })) (fun _ => rfl)
      fun _ => rfl).trans (moveTo .sleep .sleeping _ _)

lemma exit (status : ℕ) (s : Kernel) :
    SameMemory s (schedExitCurrentThread status s).finish := by
  unfold schedExitCurrentThread
  split_ifs
  · exact setEax s _ 0
  · refine .trans ?_ (finish .interrupted _ fun x => ?_)
    · exact (setThread s s.currentThread (f := ({ · with exitCode := status })) (fun _ => rfl)
        fun _ => rfl).trans (moveTo .zombie .zombie _ _)
    · exact rfl

lemma receive (senderPid buffer size : ℕ) (s : Kernel) :
    SameMemory s (ipcReceive senderPid buffer size s).finish := by
  unfold ipcReceive
  split_ifs
  · exact setEax s _ 1
  cases schedGetCurrentProcess s with
  | none => exact setEax s _ 1
  | some p =>
    dsimp only
    split_ifs
    · refine .trans ?_ (finish (.receive senderPid buffer size) _ fun x => receiveRest _ _ _ x)
      exact (setThread s s.currentThread (f := ({ · with state := .blocked })) (fun _ => rfl)
        fun _ => rfl).trans (withQueues _ _)
    · exact receiveRest _ _ _ s

/-- The same processes. -/
lemma processes (h : SameMemory s s') : s'.processes = s.processes := by
  have hnext : (fun p => (s'.proc p).next) = fun p => (s.proc p).next := congrArg Layout.next h
  have hfirst : s'.firstProcess = s.firstProcess := congrArg Layout.first h
  rw [Kernel.processes, Kernel.processes, hnext, hfirst]

end SameMemory

/-- The entries that change no memory. -/
def Event.KeepsMemory : Event → Prop
  | .nprocess .. | .nthread .. | .destroy .. | .alloc .. | .mapKernel .. => False
  | _ => True

lemma step_sameMemory (s : Kernel) {e : Event} (he : e.KeepsMemory) :
    SameMemory s (step s e) := by
  unfold step
  split_ifs
  · exact rfl
  cases e with
  | tick => exact (SameMemory.timerTick s).trans (.finish _ _ fun _ => rfl)
  | yield => exact .finish _ s fun _ => rfl
  | exit status => exact .exit _ s
  | getpid => exact .setEax s _ _
  | getppid => exact .setEax s _ _
  | sleep ms => exact .sleep _ s
  | send pid type data size stack => exact (SameMemory.ipcSend _ _ _ _ _ s).trans (.setEax _ _ _)
  | receive senderPid buffer size => exact .receive _ _ _ s
  | fault =>
    unfold handle
    dsimp only
    cases schedGetCurrentProcess s with
    | none => exact rfl
    | some p => exact (SameMemory.killCurrentProcess p s).trans (.finish _ _ fun _ => rfl)
  | _ => exact he.elim

end Gummy
