import Gummy.Kernel.Simulation

/-!
The clock and the threads that wait for it.

`Timeless` goes through the functions of the kernel and says that they leave the clock and
the times to wake alone; `SleepFrame` adds that nobody falls asleep.  The exceptions are the
timer interrupt, which counts, and a thread's own calls of `sys_sleep`.
-/

namespace Gummy

open CWord

open View (Act Acts GiveUp Schedule)

/-- The step is not a call of `sys_sleep` by the thread `t`. -/
def SleepsOn (t : ThreadRef) (s : Kernel) (e : Event) : Prop :=
  ∀ ms, e = .sleep ms → s.currentThread ≠ t

def Event.isTick : Event → Bool
  | .tick => true
  | _ => false

/-- How often the timer fires. -/
def ticksIn (l : List Event) : ℕ := l.countP Event.isTick

/-! ### Times to wake -/

/-- The clock stands still, and so does the time at which `t` is to wake. -/
structure Timeless (t : ThreadRef) (s s' : Kernel) : Prop where
  ticks : s'.ticks = s.ticks := by rfl
  msPerTick : s'.msPerTick = s.msPerTick := by rfl
  wakeTick : (s'.thread t).wakeTick = (s.thread t).wakeTick := by rfl

variable {s s' s'' : Kernel} {v v' : View} {D D' : List (ℕ × ℕ)} {P : List ℕ}
  {L : QueueRef → List ThreadRef} {t : ThreadRef} {takes waits : View → Prop}

namespace Timeless

lemma trans (h : Timeless t s s') (h' : Timeless t s' s'') : Timeless t s s'' where
  ticks := h'.ticks.trans h.ticks
  msPerTick := h'.msPerTick.trans h.msPerTick
  wakeTick := h'.wakeTick.trans h.wakeTick

lemma of_globals (h : SameGlobals s s') (ht : s'.thread t = s.thread t) : Timeless t s s' where
  ticks := h.ticks
  msPerTick := h.msPerTick
  wakeTick := congrArg Thread.wakeTick ht

lemma setThread (s : Kernel) (u : ThreadRef) {f : Thread → Thread}
    (hf : ∀ x, (f x).wakeTick = x.wakeTick) : Timeless t s (s.setThread u f) where
  wakeTick := by
    by_cases hu : t = u
    · subst hu
      rw [Kernel.setThread_self, hf]
    · rw [Kernel.setThread_of_ne _ _ hu]

lemma withQueues (s : Kernel) (queues : Queues QueueRef ThreadRef) :
    Timeless t s { s with queues } := ⟨rfl, rfl, rfl⟩

lemma withMach (s : Kernel) (mach : Machine) : Timeless t s { s with mach } := ⟨rfl, rfl, rfl⟩

lemma heapPut (addr : ℕ) (s : Kernel) : Timeless t s (heapPut addr s) := ⟨rfl, rfl, rfl⟩

lemma moveTo (q : QueueRef) (state : ThreadState) (u : ThreadRef) (s : Kernel) :
    Timeless t s (moveTo q state u s) :=
  (withQueues s _).trans (.setThread _ u fun _ => rfl)

lemma wakeSleepers (fuel : ℕ) (o : Option ThreadRef) (s : Kernel) :
    Timeless t s (wakeSleepers fuel o s) := by
  induction fuel generalizing o s with
  | zero => exact ⟨rfl, rfl, rfl⟩
  | succ fuel ih =>
    cases o with
    | none => exact ⟨rfl, rfl, rfl⟩
    | some n =>
      rw [Gummy.wakeSleepers]
      split_ifs
      · exact (moveTo .ready .ready n s).trans (ih _ _)
      · exact ih _ _

lemma heapGet (size : ℕ) (c : HeapChoice) (s : Kernel) :
    Timeless t s (heapGet size c s).2 := by
  obtain ⟨m, k, -, -, hget | ⟨-, hget⟩⟩ := heapGet_spec size c s <;>
  · rw [hget]
    exact ⟨rfl, rfl, rfl⟩

lemma switchContext (n : ThreadRef) (s : Kernel) : Timeless t s (switchContext n s) := by
  unfold Gummy.switchContext
  cases (s.thread n).process with
  | none => exact ⟨rfl, rfl, rfl⟩
  | some p =>
    dsimp only
    refine .trans ?_ (.setThread _ n (f := ({ · with state := .running })) fun _ => rfl)
    split_ifs <;> exact ⟨rfl, rfl, rfl⟩

lemma requeue (sp0 : Context) (s : Kernel) : Timeless t s (requeue sp0 s) := by
  refine .trans (.setThread s s.currentThread (f := ({ · with sp0 })) fun _ => rfl) ?_
  unfold Gummy.requeue
  dsimp only
  split_ifs <;> exact ⟨rfl, rfl, rfl⟩

lemma schedule (sp0 : Context) (s : Kernel) : Timeless t s (schedule sp0 s).2 := by
  have hq := requeue (t := t) sp0 s
  unfold Gummy.schedule
  by_cases hempty : queueEmpty s.queues .ready
  · rw [if_pos hempty]
    exact ⟨rfl, rfl, rfl⟩
  rw [if_neg hempty]
  dsimp only
  generalize Gummy.requeue sp0 s = r at hq ⊢
  refine hq.trans ?_
  rcases queuePop r.queues .ready with ⟨_ | n, Q⟩
  · exact ⟨rfl, rfl, rfl⟩
  dsimp only
  split_ifs with hn
  · exact ⟨rfl, rfl, rfl⟩
  · cases (r.thread n).process with
    | none => exact ⟨rfl, rfl, rfl⟩
    | some p =>
      dsimp only
      split_ifs
      · exact ⟨rfl, rfl, rfl⟩
      · exact (withQueues r Q).trans (switchContext n _)

lemma receiveRest (senderPid buffer size : ℕ) (s : Kernel) :
    Timeless t s (receiveRest senderPid buffer size s) := by
  unfold Gummy.receiveRest ipcTake
  cases schedGetCurrentProcess s with
  | none => exact ⟨rfl, rfl, rfl⟩
  | some p =>
    dsimp only
    rcases ringBufferPop (s.proc p).ringBuffer with ⟨_ | out, r⟩ <;> exact ⟨rfl, rfl, rfl⟩

lemma ipcSend (pid type : ℕ) (data : Option ByteMem) (size : ℕ) (stack : ByteMem)
    (s : Kernel) : Timeless t s (ipcSend pid type data size stack s).2 := by
  unfold Gummy.ipcSend
  cases data with
  | none => exact ⟨rfl, rfl, rfl⟩
  | some data =>
    dsimp only
    split_ifs
    · exact ⟨rfl, rfl, rfl⟩
    cases schedGetProcess pid s with
    | none => exact ⟨rfl, rfl, rfl⟩
    | some p =>
      dsimp only
      split_ifs
      · exact ⟨rfl, rfl, rfl⟩
      · exact ⟨rfl, rfl, rfl⟩
      · exact ⟨rfl, rfl, rfl⟩
      · rcases queuePop _ (QueueRef.waiters p) with ⟨_ | u, Q⟩
        · exact ⟨rfl, rfl, rfl⟩
        · exact .trans {} (moveTo .ready .ready u _)

lemma schedCreateThread (h : Inv s P L D) {p : ℕ} (hp : p ∈ P)
    (ht : (s.thread t).process ≠ none) (loc : ℕ) (c : HeapChoice) :
    Timeless t s (schedCreateThread loc p c s).2 := by
  obtain ⟨res, s', heq, -, hc⟩ := h.schedCreateThread hp loc c
  rw [heq]
  exact .of_globals hc.frame.globals (hc.frame.thread t ht)

lemma schedCreateProcess (h : Inv s P L D) (hlive : t.process ∈ P) (c : HeapChoice) :
    Timeless t s (schedCreateProcess c s).2 := by
  obtain ⟨res, s', heq, ⟨-, -, hframe⟩ | ⟨p, -, -, hnew⟩⟩ := h.schedCreateProcess c
  · rw [heq]
    exact .of_globals hframe.globals (hframe.thread t hlive)
  · rw [heq]
    exact ⟨hnew.ticks, hnew.msPerTick, congrArg Thread.wakeTick (hnew.thread t hlive)⟩

lemma schedDestroyProcess (h : Inv s P L D) {p : ℕ} (hp : p ∈ P) (hi : p ≠ idleProcess)
    (hne : t.process ≠ p) (g : Garbage) : Timeless t s (schedDestroyProcess p g s) := by
  obtain ⟨-, heq⟩ | ⟨-, -, hd⟩ := h.schedDestroyProcess hp hi g
  · rw [heq]
    exact ⟨rfl, rfl, rfl⟩
  · exact .of_globals hd.globals (hd.thread t hne)

lemma sysNthread (h : Abs s v D) (ht : (s.thread t).process ≠ none) (entry : ℕ)
    (c : HeapChoice) : Timeless t s (sysNthread entry c s).2 := by
  have hcreate := schedCreateThread h.inv h.wf.current_mem ht entry c
  rw [Gummy.sysNthread, h.currentProcess]
  dsimp only
  rcases hres : Gummy.schedCreateThread entry v.current.process c s with ⟨_ | u, s'⟩ <;>
    rw [hres] at hcreate
  · exact hcreate
  · exact hcreate.trans (moveTo .ready .ready u s')

/-- `sys_nprocess` fills the slots of the new process only, also where it has to give it up. -/
lemma sysNprocess (h : Abs s v []) (hlive : t.process ∈ v.processes)
    (ht : (s.thread t).process ≠ none) (entry : ℕ) (image : List UInt8)
    (cData cProc cStack : HeapChoice) (g : Garbage) :
    Timeless t s (sysNprocess entry image cData cProc cStack g s).2 := by
  unfold Gummy.sysNprocess
  by_cases hentry : entry = 0 ∨ image.length = 0
  · rw [if_pos hentry]
    exact ⟨rfl, rfl, rfl⟩
  rw [if_neg hentry]
  have hget := heapGet (t := t) image.length cData s
  have ht₁ : ((Gummy.heapGet image.length cData s).2.thread t).process ≠ none := by
    obtain ⟨m, k, -, -, heq | ⟨-, heq⟩⟩ := heapGet_spec image.length cData s <;>
    · rw [heq]
      exact ht
  obtain ⟨s₁, heq, h₁⟩ | ⟨s₁, heq, h₁⟩ := h.heapGet image.length cData
  · rw [heq] at hget ⊢
    exact hget
  rw [heq] at hget ht₁ ⊢
  dsimp only at hget ht₁ ⊢
  refine hget.trans ?_
  have hcreate := schedCreateProcess (t := t) h₁.inv hlive cProc
  obtain ⟨res, s₂, heq, ⟨rfl, -, -⟩ | ⟨p, rfl, hinv, hnew⟩⟩ := h₁.inv.schedCreateProcess cProc
  · rw [heq] at hcreate ⊢
    exact hcreate.trans ⟨rfl, rfl, rfl⟩
  rw [heq] at hcreate ⊢
  dsimp only at hcreate ⊢
  refine hcreate.trans ?_
  have hne : t.process ≠ p := fun hp => hnew.not_mem (hp ▸ hlive)
  have ht₂ : (s₂.thread t).process ≠ none := by
    rw [hnew.thread t hlive]
    exact ht₁
  have hmem : p ∈ p :: v.processes := List.mem_cons_self
  have hi := hnew.ne_idle
  have hcr3 := vmmAllocPagesRegionIn_cr3 s₂.mach (s₂.proc p).cr3
    (alignUp 32 image.length pageSize / pageSize)
    (vmmFlagsPresent ||| vmmFlagsRw ||| vmmFlagsUser) imageBase
    (u32 (imageBase + alignUp 32 image.length pageSize / pageSize * pageSize))
  rcases halloc : vmmAllocPagesRegionIn (s₂.proc p).cr3
    (alignUp 32 image.length pageSize / pageSize)
    (vmmFlagsPresent ||| vmmFlagsRw ||| vmmFlagsUser) imageBase
    (u32 (imageBase + alignUp 32 image.length pageSize / pageSize * pageSize)) s₂.mach with ⟨res, m⟩
  rw [halloc] at hcr3
  dsimp only
  have h₃ := hinv.congr (SameLinks.withMach _ s₂ hcr3)
  refine .trans (withMach s₂ m) ?_
  by_cases hres : res.isNone = true
  · rw [if_pos hres]
    exact .trans (heapPut cData.addr _)
      (schedDestroyProcess (h₃.release rfl) hmem hi hne g)
  rw [if_neg hres]
  have hthread := schedCreateThread h₃ hmem ht₂ imageBase cStack
  obtain ⟨res', s₄, heq, h₄, hc⟩ := h₃.schedCreateThread hmem imageBase cStack
  rw [heq] at hthread ⊢
  refine hthread.trans ?_
  cases res' with
  | none =>
    have h₅ := h₄.congr (SameLinks.withMach _ s₄ (vmmFreePagesIn_cr3 s₄.mach (s₄.proc p).cr3
      (alignUp 32 image.length pageSize / pageSize) imageBase))
    exact (withMach s₄ _).trans (.trans (heapPut cData.addr _)
      (schedDestroyProcess (h₅.release rfl) hmem hi hne g))
  | some u =>
    exact (withMach s₄ _).trans (.trans (heapPut cData.addr _) (moveTo .ready .ready u _))

end Timeless

/-! ### The queue -/

namespace View

/-- A thread that is put into another queue. -/
lemma WF.sleep_of_push (h : v.WF) {q : QueueRef} (hq : q ≠ .sleep) {u : ThreadRef}
    (ht : t ∈ Denotes.pushList v.queue q u .sleep) : t ∈ v.queue .sleep := by
  obtain ⟨ht, -⟩ | ⟨heq, -⟩ := (Denotes.mem_pushList h.nodup).1 ht
  · exact ht
  · exact absurd heq.symm hq

/-- Acts take threads out of the sleep queue only. -/
lemma Acts.sleep_subset (h : Acts takes v v') : ∀ t ∈ v'.queue .sleep, t ∈ v.queue .sleep := by
  refine Acts.invariant (J := fun x => ∀ t ∈ x.queue .sleep, t ∈ v.queue .sleep)
    (fun w w' hwf hw hact t ht => hw t ?_) h fun t ht => ht
  cases hact with
  | wake h => exact hwf.sleep_of_push (q := .ready) (by simp) ht
  | start ctx hp h => exact hwf.sleep_of_push (q := .ready) (by simp) ht
  | create hp hi => exact ht
  | destroy hp hi hcur => exact (mem_dropProcess.1 ht).1
  | send m hp hs hm =>
    rw [View.send] at ht
    split at ht
    · exact ht
    · exact hwf.sleep_of_push (q := .ready) (by simp) ht
  | take hm hd ht' => exact ht

/-- Unless the thread that calls it is running, `schedule` leaves the sleep queue alone. -/
lemma Schedule.sleep_eq {sp0 : Context} {b : Bool} (h : Schedule sp0 v b v')
    (hrun : (v.thread v.current).map ThreadView.state ≠ some .running) :
    v'.queue .sleep = v.queue .sleep := by
  have hq : (v.requeue sp0).queue = v.queue := by rw [requeue_queue, if_neg hrun]
  cases h with
  | idle h => rfl
  | keep h hn => simp [hq]
  | switch h hn hs => simp [hq]

lemma Schedule.sleep_subset {sp0 : Context} {b : Bool} (hwf : v.WF) (h : Schedule sp0 v b v') :
    ∀ t ∈ v'.queue .sleep, t ∈ v.queue .sleep := by
  have hq : ∀ t ∈ (v.requeue sp0).queue .sleep, t ∈ v.queue .sleep := by
    intro t ht
    rw [requeue_queue] at ht
    split_ifs at ht
    · exact hwf.sleep_of_push (by simp) ht
    · exact ht
  intro t ht
  cases h with
  | idle h => exact ht
  | keep h hn => exact hq t (by simpa using ht)
  | switch h hn hs => exact hq t (by simpa using ht)

end View

/-- What a step does for the thread `t`: if it sleeps then, it slept before and for the same
time. -/
structure SleepFrame (t : ThreadRef) (s s' : Kernel) : Prop where
  ticks : s'.ticks = s.ticks
  msPerTick : s'.msPerTick = s.msPerTick
  sleeping : t ∈ s'.queues.toList .sleep →
    t ∈ s.queues.toList .sleep ∧ (s'.thread t).wakeTick = (s.thread t).wakeTick

lemma Abs.sleepers (h : Abs s v D) : s.queues.toList .sleep = v.queue .sleep :=
  h.inv.queues.toList_eq (k := .sleep) trivial

/-- A thread that sleeps is live and in use. -/
lemma Abs.sleeper (h : Abs s v D) (ht : t ∈ v.queue .sleep) :
    t.process ∈ v.processes ∧ (s.thread t).process ≠ none := by
  refine ⟨h.wf.live _ t ht, ?_⟩
  rw [(h.inv.queued _ t ht).1]
  simp

namespace SleepFrame

lemma trans (h : SleepFrame t s s') (h' : SleepFrame t s' s'') : SleepFrame t s s'' where
  ticks := h'.ticks.trans h.ticks
  msPerTick := h'.msPerTick.trans h.msPerTick
  sleeping ht := by
    obtain ⟨ht', hwake'⟩ := h'.sleeping ht
    obtain ⟨ht, hwake⟩ := h.sleeping ht'
    exact ⟨ht, hwake'.trans hwake⟩

/-- The queues are the same. -/
lemma of_queues (hq : s'.queues = s.queues) (h : Timeless t s s') : SleepFrame t s s' where
  ticks := h.ticks
  msPerTick := h.msPerTick
  sleeping ht := ⟨hq ▸ ht, h.wakeTick⟩

/-- Nobody falls asleep, as views show. -/
lemma of_views (h : Abs s v D) (h' : Abs s' v' D')
    (hsub : ∀ t ∈ v'.queue .sleep, t ∈ v.queue .sleep)
    {u : ThreadRef} (hclock : Timeless u s s')
    (htime : t ∈ v'.queue .sleep → t ∈ v.queue .sleep → Timeless t s s') :
    SleepFrame t s s' where
  ticks := hclock.ticks
  msPerTick := hclock.msPerTick
  sleeping ht := by
    rw [h'.sleepers] at ht
    rw [h.sleepers]
    exact ⟨hsub t ht, (htime ht (hsub t ht)).wakeTick⟩

end SleepFrame

/-! ### Steps -/

/-- What is at hand when the handler starts: the timer interrupt has been counted. -/
def Kernel.clock (s : Kernel) : Event → Kernel
  | .tick => { s with ticks := u32 (s.ticks + 1) }
  | _ => s

/-- The frame of a handler, and of what it does if `schedule` returns to it. -/
def Outcome.KeepsSleep (t : ThreadRef) (s : Kernel) : Outcome → Prop
  | .done s' => SleepFrame t s s'
  | .call _ rest s' => SleepFrame t s s' ∧ ∀ x, SleepFrame t x (rest x)

lemma SleepFrame.setEax (s : Kernel) (u : ThreadRef) (n : ℕ) : SleepFrame t s (s.setEax u n) :=
  .of_queues rfl {}

lemma receiveRest_queues (senderPid buffer size : ℕ) (s : Kernel) :
    (receiveRest senderPid buffer size s).queues = s.queues := by
  unfold receiveRest ipcTake
  cases schedGetCurrentProcess s with
  | none => rfl
  | some p =>
    dsimp only
    rcases ringBufferPop (s.proc p).ringBuffer with ⟨_ | out, r⟩ <;> rfl

lemma SleepFrame.receiveRest (senderPid buffer size : ℕ) (s : Kernel) :
    SleepFrame t s (receiveRest senderPid buffer size s) :=
  .of_queues (receiveRest_queues ..) (.receiveRest ..)

/-- The current thread moves to a queue of those that do not sleep. -/
lemma SleepFrame.move (h : Abs s v D) (h' : Abs s' (v.move q state v.current) D)
    (hq : q ≠ .sleep) (htime : Timeless t s s') : SleepFrame t s s' :=
  .of_views h h' (fun _ ht => h.wf.sleep_of_push hq ht) htime fun _ _ => htime

lemma Abs.sleep_keepsSleep (h : Abs s v []) (hne : s.currentThread ≠ t) (wakeTick : ℕ) :
    (schedThreadSleep wakeTick s).KeepsSleep t s := by
  unfold schedThreadSleep
  dsimp only
  split_ifs with hwake hidle
  · exact .setEax ..
  · exact .setEax ..
  have hmove := h.moveCurrent (f := ({ · with wakeTick })) rfl rfl .sleep .sleeping (by simp)
    (by simp)
  have hclock : ∀ u, u ≠ s.currentThread →
      Timeless u s (s.setThread s.currentThread ({ · with wakeTick })) := fun u hu =>
    ⟨rfl, rfl, congrArg Thread.wakeTick (Kernel.setThread_of_ne _ _ hu)⟩
  have htime := (hclock t hne.symm).trans (.moveTo .sleep .sleeping s.currentThread _)
  refine ⟨⟨htime.ticks, htime.msPerTick, fun ht => ?_⟩, fun x => .setEax ..⟩
  refine ⟨?_, htime.wakeTick⟩
  have ht' : t ∈ Denotes.pushList v.queue .sleep v.current .sleep := by
    rw [show Denotes.pushList v.queue .sleep v.current .sleep = _ from hmove.sleepers.symm]
    exact ht
  rw [h.sleepers]
  rcases (Denotes.mem_pushList h.wf.nodup).1 ht' with ⟨ht', -⟩ | ⟨-, rfl⟩
  · exact ht'
  · exact absurd h.current hne

lemma Timeless.ipcReceive {senderPid buffer size : ℕ} {sp0 : Context} {rest : Kernel → Kernel}
    (h : ipcReceive senderPid buffer size s = .call sp0 rest s') : Timeless t s s' := by
  unfold Gummy.ipcReceive at h
  split_ifs at h
  cases hp : schedGetCurrentProcess s with
  | none => simp [hp] at h
  | some p =>
    rw [hp] at h
    dsimp only at h
    split_ifs at h
    injection h with _ _ h
    subst h
    exact .trans (.setThread s s.currentThread (f := ({ · with state := .blocked }))
      fun _ => rfl) (.withQueues _ _)

lemma Abs.receive_keepsSleep (h : Abs s v []) (senderPid buffer size : ℕ) :
    (ipcReceive senderPid buffer size s).KeepsSleep t s := by
  by_cases hargs : ReceiveArgs senderPid buffer size
  · by_cases hm : (v.proc v.current.process).mailbox = []
    · obtain ⟨s', heq, hmove⟩ := h.receive_wait hargs hm
      have htime := Timeless.ipcReceive (t := t) heq
      rw [heq]
      exact ⟨.move h hmove (by simp) htime, fun x => .receiveRest ..⟩
    · have hempty := (h.proc _ h.wf.current_mem).mailbox.empty_iff
      unfold ipcReceive
      rw [if_neg hargs, h.currentProcess]
      dsimp only
      rw [if_neg (mt hempty.1 hm)]
      exact .receiveRest ..
  · unfold ipcReceive
    rw [if_pos (not_not.1 hargs)]
    exact .setEax ..

lemma Abs.destroy_keepsSleep (h : Abs s v []) {p : ℕ} (hp : p ∈ v.processes)
    (hi : p ≠ idleProcess) (g : Garbage) : SleepFrame t s (Gummy.schedDestroyProcess p g s) := by
  obtain ⟨-, heq⟩ | ⟨hcur, hinv, hd⟩ := h.inv.schedDestroyProcess hp hi g
  · rw [heq]
    exact .of_queues rfl {}
  · exact .of_views h (h.destroy hinv hp hd) (fun _ ht => (mem_dropProcess.1 ht).1)
      (.of_globals hd.globals (hd.thread _ hcur))
      fun ht _ => .of_globals hd.globals (hd.thread _ (mem_dropProcess.1 ht).2)

/-- No handler makes the thread `t` fall asleep, or sleep for another time. -/
lemma Abs.handle_keepsSleep (h : Abs s v []) {e : Event} (hadm : Admissible s e)
    (hs : SleepsOn t s e) : (Gummy.handle e s).KeepsSleep t (s.clock e) := by
  have hcur : s.currentThread.process ∈ v.processes := h.inv.current_mem
  have hused : (s.thread s.currentThread).process ≠ none := by
    rw [h.inv.current_owner]
    simp
  cases e with
  | tick =>
    have hticks : Abs (s.clock .tick) v [] := h.quiet { h.inv with heap := { h.inv.heap with } } {}
    obtain ⟨v', hacts, habs, -⟩ := h.timerTick fun _ => True
    have htime : ∀ u, Timeless u (s.clock .tick) (Gummy.timerTick s) := fun u => .wakeSleepers _ _ _
    exact ⟨.of_views hticks habs hacts.sleep_subset (htime t) fun _ _ => htime t,
      fun x => .of_queues rfl {}⟩
  | yield => exact ⟨.of_queues rfl {}, fun x => .of_queues rfl {}⟩
  | exit status =>
    rw [Gummy.handle]
    unfold schedExitCurrentThread
    split_ifs
    · exact .setEax ..
    · exact ⟨.move h (h.moveCurrent (f := ({ · with exitCode := u32 status })) rfl rfl .zombie
        .zombie (by simp) (by simp)) (by simp) (.trans (.setThread s s.currentThread
          (f := ({ · with exitCode := u32 status })) fun _ => rfl) (.moveTo ..)),
        fun x => .of_queues rfl {}⟩
  | getpid => exact .setEax ..
  | getppid => exact .setEax ..
  | nprocess entry image cData cProc cStack g =>
    obtain ⟨r, s', v', heq, hacts, habs⟩ : ∃ r s' v',
        Gummy.sysNprocess (u32 entry) image cData cProc cStack g s = (r, s') ∧
          Acts (fun _ => True) v v' ∧ Abs s' v' [] :=
      h.sysNprocess (u32 entry) image cData cProc cStack g
    have htime : ∀ u, u.process ∈ v.processes → (s.thread u).process ≠ none → Timeless u s s' := by
      intro u hlive hu
      have := Timeless.sysNprocess h hlive hu (u32 entry) image cData cProc cStack g
      rwa [heq] at this
    rw [Gummy.handle, heq]
    exact .trans (.of_views h habs hacts.sleep_subset (htime _ hcur hused) fun _ ht =>
      htime t (h.sleeper ht).1 (h.sleeper ht).2) (.setEax ..)
  | nthread entry c =>
    obtain ⟨r, s', v', heq, hacts, habs⟩ : ∃ r s' v',
        Gummy.sysNthread (u32 entry) c s = (r, s') ∧ Acts (fun _ => True) v v' ∧ Abs s' v' [] :=
      h.sysNthread (u32 entry) c
    have htime : ∀ u, (s.thread u).process ≠ none → Timeless u s s' := by
      intro u hu
      have := Timeless.sysNthread h hu (u32 entry) c
      rwa [heq] at this
    rw [Gummy.handle, heq]
    exact .trans (.of_views h habs hacts.sleep_subset (htime _ hused) fun _ ht =>
      htime t (h.sleeper ht).2) (.setEax ..)
  | sleep ms => exact h.sleep_keepsSleep (hs ms rfl) _
  | send pid type data size stack =>
    rw [Gummy.handle]
    obtain ⟨err, heq, -⟩ | ⟨s', p, m, heq, hp, hlive, hm, habs⟩ :=
      h.ipcSend (u32 pid) (u32_lt type) data (u32 size) stack
    · rw [heq]
      exact .setEax ..
    · have hacts : Acts (fun _ => True) v (v.send p m) :=
        .single ⟨h.wf, .send m hp hlive hm⟩
      have htime : Timeless t s s' := by
        have := Timeless.ipcSend (t := t) (u32 pid) (u32 type) data (u32 size) stack s
        rwa [heq] at this
      rw [heq]
      exact .trans (.of_views h habs hacts.sleep_subset htime fun _ _ => htime) (.setEax ..)
  | receive senderPid buffer size => exact h.receive_keepsSleep ..
  | fault =>
    rw [Gummy.handle, h.currentProcess]
    exact ⟨.of_views h (h.killCurrentProcess h.wf.current_mem)
      (fun _ ht => (mem_dropProcess.1 ht).1) (u := t) {} fun _ _ => {}, fun x => .of_queues rfl {}⟩
  | destroy proc g =>
    obtain ⟨hp, hi⟩ := hadm
    rw [h.inv.processes_eq] at hp
    exact h.destroy_keepsSleep hp hi g
  | alloc size c =>
    rw [Gummy.handle]
    refine .of_queues ?_ (.heapGet ..)
    obtain ⟨m, k, -, -, hget | ⟨-, hget⟩⟩ := heapGet_spec (u32 size) c s <;>
    · rw [hget]
      rfl
  | mapKernel n regionStart regionEnd => exact .of_queues rfl {}

section Clock

variable (s : Kernel) (e : Event)

lemma Kernel.clock_queues : (s.clock e).queues = s.queues := by cases e <;> rfl

lemma Kernel.clock_thread : (s.clock e).thread = s.thread := by cases e <;> rfl

lemma Kernel.clock_msPerTick : (s.clock e).msPerTick = s.msPerTick := by cases e <;> rfl

lemma Kernel.clock_ticks_le : (s.clock e).ticks ≤ s.ticks + ticksIn [e] := by
  cases e with
  | tick => exact Nat.mod_le _ _
  | _ => exact Nat.le_refl _

end Clock

lemma resume_queues (s : Kernel) : (resume s).queues = s.queues := by
  unfold resume
  split_ifs
  · rfl
  · cases (s.thread s.currentThread).sp0 with
    | receive senderPid buffer size => exact receiveRest_queues senderPid buffer size s
    | _ => rfl

lemma Timeless.resume (s : Kernel) : Timeless t s (resume s) := by
  unfold Gummy.resume
  split_ifs
  · exact ⟨rfl, rfl, rfl⟩
  · cases (s.thread s.currentThread).sp0 with
    | receive senderPid buffer size => exact .receiveRest senderPid buffer size s
    | _ => exact ⟨rfl, rfl, rfl⟩

lemma Timeless.finish (sp0 : Context) {rest : Kernel → Kernel} (s : Kernel)
    (hrest : ∀ x, Timeless t x (rest x)) : Timeless t s (Outcome.call sp0 rest s).finish := by
  have hs := Timeless.schedule (t := t) sp0 s
  rw [Outcome.finish]
  rcases hres : Gummy.schedule sp0 s with ⟨_ | _, x⟩ <;> rw [hres] at hs
  · exact Timeless.trans hs (hrest x)
  · exact Timeless.trans hs (.resume x)

/-- No step makes the thread `t` fall asleep, or sleep for another time, except its own calls
of `sys_sleep`. -/
theorem Abs.step_sleepFrame (h : Abs s v []) (hrun : s.halted = false) {e : Event}
    (hadm : Admissible s e) (hs : SleepsOn t s e) :
    SleepFrame t (s.clock e) (Gummy.step s e) := by
  have hkeep := h.handle_keepsSleep hadm hs
  have href : (Gummy.handle e s).Refines (fun _ => True) (fun _ => True) v :=
    h.handle hadm (fun _ _ => trivial) (fun _ _ => trivial)
  rw [Gummy.step, hrun, if_neg (by simp)]
  cases hout : Gummy.handle e s with
  | done s' =>
    rw [hout] at hkeep
    exact hkeep
  | call sp0 rest s' =>
    rw [hout] at hkeep href
    obtain ⟨hframe, hrest⟩ := hkeep
    obtain ⟨-, v₂, -, -, habs, -⟩ := href
    obtain ⟨b, s₃, v₃, heq, hsched, habs₃⟩ := habs.schedule sp0
    have htime : Timeless t s' s₃ := by
      have := Timeless.schedule (t := t) sp0 s'
      rwa [heq] at this
    have hschedule : SleepFrame t s' s₃ :=
      .of_views habs habs₃ (hsched.sleep_subset habs.wf) htime fun _ _ => htime
    rw [Outcome.finish, heq]
    cases b with
    | false => exact (hframe.trans hschedule).trans (hrest s₃)
    | true => exact (hframe.trans hschedule).trans (.of_queues (resume_queues s₃) (.resume s₃))

end Gummy
