import Gummy.Kernel.Spawning

/-!
Who runs after a thread has given up the processor.

`schedule` looks at one thread only, the first of the ready queue.  If it belongs to a dying
process the caller goes on, although others may be ready behind it.
-/

namespace Gummy

open CWord

open View (Act GiveUp Schedule After)

open Transition (Reachable)

variable {v v' : View}

namespace View

/-! ### The ready queue -/

/-- Threads of the ready queue neither sleep nor wait, and none of them has ended. -/
def Runnable (v : View) : Prop :=
  ∀ t ∈ v.queue .ready, (v.thread t).map ThreadView.state = some .ready ∨
    (v.thread t).map ThreadView.state = some .running

lemma Runnable.mono (h : v.Runnable) (hthread : ∀ t ∈ v'.queue .ready,
    t ∈ v.queue .ready ∧ (v'.thread t).map ThreadView.state =
      (v.thread t).map ThreadView.state) : v'.Runnable := by
  intro t ht
  obtain ⟨hold, hstate⟩ := hthread t ht
  rw [hstate]
  exact h t hold

lemma setThread_state_self {t : ThreadRef} {f : ThreadView → ThreadView} {x : ThreadView}
    (hx : v.thread t = some x) :
    ((v.setThread t f).thread t).map ThreadView.state = some (f x).state := by
  simp [setThread, hx]

lemma setThread_thread_of_ne {t u : ThreadRef} (f : ThreadView → ThreadView) (h : u ≠ t) :
    (v.setThread t f).thread u = v.thread u := by
  simp [setThread, h]

lemma Runnable.move_ready (h : v.Runnable) (hwf : v.WF) {q : QueueRef} {t : ThreadRef}
    (ht : t ∈ v.queue q) : (v.move .ready .ready t).Runnable := by
  intro u hu
  obtain ⟨x, hx, -⟩ := hwf.used q t ht
  have hpush : u ∈ Denotes.pushList v.queue .ready t .ready := hu
  obtain ⟨hu, hne⟩ | ⟨-, rfl⟩ := (Denotes.mem_pushList hwf.nodup).1 hpush
  · rw [View.move, setThread_thread_of_ne _ hne]
    exact h u hu
  · left
    exact setThread_state_self (v := { v with queue := Denotes.pushList v.queue .ready u }) hx

/-- A thread that leaves for another queue leaves the ready queue. -/
lemma Runnable.move_of_ne (h : v.Runnable) (hwf : v.WF) {q : QueueRef} (hq : q ≠ .ready)
    (state : ThreadState) (t : ThreadRef) : (v.move q state t).Runnable := by
  refine h.mono fun u hu => ?_
  obtain ⟨hu, hne⟩ | ⟨heq, -⟩ := (Denotes.mem_pushList hwf.nodup).1 hu
  · rw [View.move, setThread_thread_of_ne _ hne]
    exact ⟨hu, rfl⟩
  · exact absurd heq.symm hq

lemma Runnable.act (h : v.Runnable) (hwf : v.WF) (hact : Act (fun _ => True) v v') :
    v'.Runnable := by
  cases hact with
  | wake ht => exact h.move_ready hwf ht
  | @start t ctx hp hnone =>
    intro u hu
    change (Function.update v.thread t _ u).map _ = _ ∨ (Function.update v.thread t _ u).map _ = _
    have hpush : u ∈ Denotes.pushList v.queue .ready t .ready := hu
    obtain ⟨hu, hne⟩ | ⟨-, rfl⟩ := (Denotes.mem_pushList hwf.nodup).1 hpush
    · rw [Function.update_of_ne hne]
      exact h u hu
    · left
      rw [Function.update_self]
      rfl
  | @create p hp hi =>
    -- the process is new, so the threads that are ready belong to others
    refine h.mono fun u hu => ⟨hu, ?_⟩
    have hne : u.process ≠ p := by
      rintro rfl
      exact hp (hwf.live .ready u hu)
    simp [View.create, hne]
  | destroy hp hi hcur => exact h.mono fun u hu => ⟨(mem_dropProcess.1 hu).1, rfl⟩
  | @send p m hp hs hm =>
    unfold View.send
    have hpost : (v.post p m).Runnable := h.mono fun u hu => ⟨hu, rfl⟩
    cases hw : v.queue (.waiters p) with
    | nil => exact hpost
    | cons t l =>
      refine hpost.move_ready (q := .waiters p) ⟨hwf.processes_nodup, hwf.idle_mem, hwf.nodup,
        hwf.unique, hwf.live, hwf.used, hwf.waiters, hwf.current_mem, hwf.current_used⟩ ?_
      change t ∈ v.queue (.waiters p)
      rw [hw]
      exact List.mem_cons_self
  | take hm hd ht => exact h.mono fun u hu => ⟨hu, rfl⟩

lemma Runnable.giveUp (h : v.Runnable) (hwf : v.WF) {sp0 : Context}
    (hg : GiveUp (fun _ => True) v sp0 v') : v'.Runnable := by
  cases hg with
  | sleep hc => exact h.move_of_ne hwf (by simp) _ _
  | exit hc => exact h.move_of_ne hwf (by simp) _ _
  | wait hm hw => exact h.move_of_ne hwf (by simp) _ _
  | kill hi => exact h.mono fun u hu => ⟨(mem_dropProcess.1 hu).1, rfl⟩

lemma requeue_state (sp0 : Context) (t : ThreadRef) :
    ((v.requeue sp0).thread t).map ThreadView.state = (v.thread t).map ThreadView.state := by
  rw [requeue_thread]
  by_cases ht : t = v.current
  · subst ht
    rw [Function.update_self, Option.map_map]
    rfl
  · rw [Function.update_of_ne ht]

lemma Runnable.requeue (h : v.Runnable) (hwf : v.WF) (sp0 : Context) :
    (v.requeue sp0).Runnable := by
  intro t ht
  rw [requeue_state]
  rw [requeue_queue] at ht
  split_ifs at ht with hrun
  · -- only a running thread is queued again
    obtain ⟨ht, -⟩ | ⟨-, rfl⟩ := (Denotes.mem_pushList hwf.nodup).1 ht
    · exact h t ht
    · exact Or.inr hrun
  · exact h t ht

lemma Runnable.schedule (h : v.Runnable) (hwf : v.WF) {sp0 : Context} {b : Bool}
    (hs : Schedule sp0 v b v') : v'.Runnable := by
  have htail : ∀ {n l}, (v.requeue sp0).queue .ready = n :: l →
      ((v.requeue sp0).skip l).Runnable := by
    intro n l hl
    refine (h.requeue hwf sp0).mono fun t ht => ⟨?_, rfl⟩
    rw [hl]
    rw [skip_queue, Function.update_self] at ht
    exact List.mem_cons_of_mem n ht
  cases hs with
  | idle hnil => exact h
  | keep hl hn => exact htail hl
  | @switch n l hl hn hd =>
    intro t ht
    have htl : t ∈ l := by simpa using ht
    have hnd : (n :: l).Nodup := hl ▸ (hwf.requeue sp0).nodup .ready
    have hne : t ≠ n := by
      rintro rfl
      exact (List.nodup_cons.1 hnd).1 htl
    rw [dispatch, setThread_thread_of_ne _ hne]
    exact htail hl t (by simpa using htl)

lemma Runnable.after {b : Bool} (h : v.Runnable) (hafter : After b v v') : v'.Runnable := by
  cases hafter with
  | returned => exact h
  | stopped => exact h
  | elsewhere he => exact h
  | starved hr hm => exact h
  | received hr hm hd => exact h.mono fun t ht => ⟨ht, rfl⟩

lemma Runnable.step (h : v.Runnable) (hs : View.Step (fun _ => True) (fun _ => True) v v') :
    v'.Runnable :=
  hs.invariant (J := Runnable) (K := fun _ => Runnable) (fun _ _ hwf hJ hact => hJ.act hwf hact)
    (fun _ _ hJ => hJ) (fun _ _ _ hwf _ hJ hg => hJ.giveUp hwf hg)
    (fun _ _ _ _ _ hwf hJ hs _ hafter => (hJ.schedule hwf hs).after hafter) h

end View

/-! ### The next thread -/

variable {s s₁ : Kernel}

/-- The current thread sleeps, waits or has ended, or its process has been killed. -/
def Kernel.GaveUp (s : Kernel) : Prop :=
  (s.thread s.currentThread).state = .sleeping ∨ (s.thread s.currentThread).state = .blocked ∨
    (s.thread s.currentThread).state = .zombie ∨
    (s.proc s.currentThread.process).state = .dying

/-- The thread is ready, it is not the current one, and its process lives. -/
def Kernel.CanRun (s : Kernel) (t : ThreadRef) : Prop :=
  t ∈ s.queues.toList .ready ∧ t ≠ s.currentThread ∧ (s.proc t.process).state ≠ .dying

/-- The thread that is first when `schedule` looks at the ready queue, the current one being
last if it is running. -/
def Kernel.firstReady (s : Kernel) : Option ThreadRef :=
  if (s.thread s.currentThread).state = .running then
    ((s.queues.toList .ready).erase s.currentThread).head?
  else (s.queues.toList .ready).head?

lemma Abs.ready (h : Abs s v []) : s.queues.toList .ready = v.queue .ready :=
  h.inv.queues.toList_eq (k := .ready) trivial

lemma Abs.canRun_iff (h : Abs s v []) {t : ThreadRef} : s.CanRun t ↔
    t ∈ v.queue .ready ∧ t ≠ v.current ∧ (v.proc t.process).state ≠ .dying := by
  rw [Kernel.CanRun, h.ready, h.current]
  refine and_congr_right fun ht => and_congr_right fun _ => ?_
  rw [(h.proc t.process (h.wf.live .ready t ht)).state]

/-- A thread that has given up does not stand before the others. -/
lemma Abs.requeue_head (h : Abs s v []) (sp0 : Context) (hother : ∃ t, s.CanRun t) :
    ((v.requeue sp0).queue .ready).head? = s.firstReady := by
  obtain ⟨t, ht⟩ := hother
  obtain ⟨ht, hne, -⟩ := h.canRun_iff.1 ht
  obtain ⟨x, hx, -⟩ := h.wf.current_used
  rw [View.requeue_queue, Kernel.firstReady, h.ready, h.current,
    (h.thread_used h.wf.current_mem hx).2.1, hx, Option.map_some]
  by_cases hrun : x.state = .running
  · rw [if_pos (congrArg some hrun), if_pos hrun, Denotes.pushList_self]
    have hmem : t ∈ (v.queue .ready).erase v.current := (List.mem_erase_of_ne hne).2 ht
    obtain ⟨u, l, hl⟩ := List.exists_cons_of_ne_nil (List.ne_nil_of_mem hmem)
    rw [hl]
    rfl
  · rw [if_neg fun hs => hrun (Option.some.inj hs), if_neg hrun]

/-- The thread that is first is not the one that has given up, if its process lives. -/
lemma Abs.first_ne_current (h : Abs s v []) (hr : v.Runnable) (hgave : s.GaveUp) {t : ThreadRef}
    (hfirst : s.firstReady = some t) (hlive : (s.proc t.process).state ≠ .dying) :
    t ∈ s.queues.toList .ready ∧ t ≠ s.currentThread := by
  obtain ⟨x, hx, -⟩ := h.wf.current_used
  have hstate : (s.thread v.current).state = x.state := (h.thread_used h.wf.current_mem hx).2.1
  rw [Kernel.GaveUp, h.current, hstate] at hgave
  rw [Kernel.firstReady, h.ready, h.current, hstate] at hfirst
  rw [h.ready, h.current]
  split_ifs at hfirst with hrun
  · have ht := List.mem_of_mem_head? hfirst
    refine ⟨List.mem_of_mem_erase ht, ?_⟩
    rintro rfl
    exact (h.wf.nodup .ready).not_mem_erase ht
  · have ht := List.mem_of_mem_head? hfirst
    refine ⟨ht, ?_⟩
    rintro rfl
    have hready := hr v.current ht
    rw [hx, Option.map_some, Option.some_inj, Option.some_inj] at hready
    -- what is ready neither sleeps nor waits, so it is the process that is dying
    rcases hgave with hs | hs | hs | hs
    · rw [hs] at hready
      exact hready.elim (absurd · (by simp)) (absurd · (by simp))
    · rw [hs] at hready
      exact hready.elim (absurd · (by simp)) (absurd · (by simp))
    · rw [hs] at hready
      exact hready.elim (absurd · (by simp)) (absurd · (by simp))
    · exact hlive hs

/-- A thread that has given up the processor, while others can run, loses it to one of them
exactly if the first thread of the ready queue is not of a dying process. -/
theorem hands_over_iff (h : Reachable Init Step s) {e : Event} (hadm : Admissible s e)
    {sp0 : Context} {rest : Kernel → Kernel} (hcall : handle e s = .call sp0 rest s₁)
    (hgave : s₁.GaveUp) (hother : ∃ t, s₁.CanRun t) :
    (∃ s₂, schedule sp0 s₁ = (true, s₂) ∧ s₁.CanRun s₂.currentThread ∧
      (s₂.thread s₂.currentThread).state = .running ∧
      (s.halted = false → step s e = resume s₂)) ↔
    ∃ t, s₁.firstReady = some t ∧ (s₁.proc t.process).state ≠ .dying := by
  obtain ⟨v, habs, hrunnable⟩ := reachable_view_of_step (J := View.Runnable)
    (by intro t ht; simp [View.init] at ht) (fun v v' _ hJ hstep => hJ.step hstep) h
  have hhandle : (handle e s).Refines (fun _ => True) (fun _ => True) v :=
    habs.handle hadm (fun _ _ => trivial) (fun _ _ => trivial)
  rw [hcall] at hhandle
  obtain ⟨v₁, v₂, hacts, hcalls, habs₂, -⟩ := hhandle
  have hrunnable₂ : v₂.Runnable := by
    have hr₁ := hacts.invariant (J := View.Runnable) (fun _ _ hwf hJ hact => hJ.act hwf hact)
      hrunnable
    rcases hcalls with ⟨rfl, rfl⟩ | ⟨hwf₁, hg⟩
    · exact hr₁
    · exact hr₁.giveUp hwf₁ hg
  obtain ⟨b, s₂, v₃, heq, hs, habs₃⟩ := habs₂.schedule sp0
  have hhead := habs₂.requeue_head sp0 hother
  constructor
  · rintro ⟨s₂', heq', hcan, -, -⟩
    obtain ⟨rfl, rfl⟩ := Prod.mk.inj (heq'.symm.trans heq)
    cases hs with
    | @switch n l hl hn hd =>
      rw [hl] at hhead
      refine ⟨n, hhead.symm, ?_⟩
      have hcur : s₂'.currentThread = n := habs₃.current
      rw [← hcur]
      exact hcan.2.2
  · rintro ⟨t, hfirst, hlive⟩
    obtain ⟨ht, hne⟩ := habs₂.first_ne_current hrunnable₂ hgave hfirst hlive
    obtain ⟨htv, hnev, hlivev⟩ := habs₂.canRun_iff.1 ⟨ht, hne, hlive⟩
    rw [hfirst] at hhead
    cases hs with
    | idle hnil =>
      rw [hnil] at htv
      exact absurd htv List.not_mem_nil
    | @keep n l hl hn =>
      rw [hl] at hhead
      obtain rfl := Option.some.inj hhead
      exact (hn.elim hnev hlivev).elim
    | @switch n l hl hn hd =>
      rw [hl] at hhead
      obtain rfl := Option.some.inj hhead
      have hcur : s₂.currentThread = n := habs₃.current
      refine ⟨s₂, heq, hcur ▸ ⟨ht, hne, hlive⟩, ?_, fun hrun => ?_⟩
      · obtain ⟨x, hx, -⟩ := (habs₂.wf.requeue sp0).used .ready n (hl ▸ List.mem_cons_self)
        have hrun := View.setThread_state_self (v := { (v₂.requeue sp0).skip l with current := n })
          (f := ({ · with state := .running })) hx
        obtain ⟨y, hy, -⟩ := habs₃.wf.current_used
        have hstate : ((v₂.requeue sp0).dispatch n l).thread n = some y := hy
        rw [View.dispatch] at hstate
        rw [hstate, Option.map_some, Option.some_inj] at hrun
        rw [habs₃.current, (habs₃.thread_used habs₃.wf.current_mem hy).2.1]
        exact hrun
      · rw [step, hrun, if_neg Bool.false_ne_true, hcall, Outcome.finish, heq]

/-- What a thread calls the scheduler with that is to sleep. -/
def sleepyKernel (wakeTick : ℕ) (s : Kernel) : Kernel :=
  schedSleep s.currentThread (s.setThread s.currentThread ({ · with wakeTick }))

lemma handle_sleep {ms : ℕ} (hlater : ¬ u32 (s.ticks + u32 ms / s.msPerTick) ≤ s.ticks)
    (hidle : s.currentThread ≠ idleThread) : handle (.sleep ms) s = .call .interrupted
      (fun s => s.setEax s.currentThread 0)
      (sleepyKernel (u32 (s.ticks + u32 ms / s.msPerTick)) s) := by
  rw [handle, sysSleep, schedThreadSleep, if_neg hlater, if_neg hidle]
  rfl

lemma reachable_program : Reachable Init Step programKernel :=
  .next startProgram (.start ⟨_, boot_bootKernel _, rfl⟩) ⟨trivial, rfl⟩

/-- A program that sleeps hands over to `kmain`. -/
theorem hands_over_iff_program :
    let s₁ := sleepyKernel (u32 ((step programKernel .tick).ticks +
      u32 1000 / (step programKernel .tick).msPerTick)) (step programKernel .tick)
    ∃ s₂, schedule .interrupted s₁ = (true, s₂) ∧ s₁.CanRun s₂.currentThread ∧
      (s₂.thread s₂.currentThread).state = .running := by
  have hcall := @handle_sleep (step programKernel .tick) 1000
    (by rw [programKernel_eq.1]; decide +kernel) (by rw [programKernel_eq.1]; decide +kernel)
  dsimp only
  obtain ⟨s₁, hs₁⟩ : ∃ s₁, s₁ = sleepyKernel (u32 ((step programKernel .tick).ticks +
    u32 1000 / (step programKernel .tick).msPerTick)) (step programKernel .tick) := ⟨_, rfl⟩
  rw [← hs₁] at hcall ⊢
  have hgave : (s₁.thread s₁.currentThread).state = .sleeping := by
    rw [hs₁, programKernel_eq.1]
    decide +kernel
  have hcan : s₁.CanRun idleThread := by
    refine ⟨?_, ?_, ?_⟩
    all_goals
      rw [hs₁, programKernel_eq.1]
      decide +kernel
  have hfirst : s₁.firstReady = some idleThread := by
    rw [hs₁, programKernel_eq.1]
    decide +kernel
  have hreach : Reachable Init Step (step programKernel .tick) :=
    .next .tick reachable_program ⟨trivial, rfl⟩
  obtain ⟨s₂, hs, hcan₂, hrun, -⟩ := (hands_over_iff hreach (e := .sleep 1000) trivial hcall
    (Or.inl hgave) ⟨_, hcan⟩).2 ⟨_, hfirst, hcan.2.2⟩
  exact ⟨s₂, hs, hcan₂, hrun⟩

/-! ### A thread that does not sleep -/

/-- The program `P` runs beside the threads `kmain` and `K` of the kernel.  `K` sleeps until
`P` is at its turn, so that it stands before `P` from then on. -/
def overtaking : List Event :=
  [.nthread 0xC0010000 ⟨0, heapBase + 0x2000⟩, .tick, .tick, .sleep 20, .tick, .tick]

/-- `kmain` runs, `K` and `P` follow. -/
def overtakenKernel : Kernel := overtaking.foldl step programKernel

lemma overtakenKernel_reachable : Reachable Init Step overtakenKernel := by
  have hfollows : Follows (fun _ _ => True) overtaking programKernel :=
    ⟨trivial, trivial, trivial, trivial, trivial, trivial, trivial, trivial, trivial, trivial,
      trivial, trivial, trivial⟩
  have hreach := hfollows.reachable (reachable_program.mono fun _ _ _ hs => ⟨hs, trivial⟩)
  exact hreach.mono fun _ _ _ hs => hs.1

/-- `P` is killed in its turn, and `K` runs again. -/
def sleeplessKernel : Kernel := [Event.tick, .tick, .fault, .tick].foldl step overtakenKernel

lemma reachable_killed (h : Reachable Init Step s)
    (hturn : (step (step s .tick) .tick).currentThread.process ≠ idleProcess) :
    Reachable Init Step ([Event.tick, .tick, .fault, .tick].foldl step s) := by
  have htwo : Reachable Init Step (step (step s .tick) .tick) :=
    .next .tick (.next .tick h ⟨trivial, rfl⟩) ⟨trivial, rfl⟩
  exact .next .tick (.next .fault htwo ⟨hturn, rfl⟩) ⟨trivial, rfl⟩

lemma sleeplessKernel_reachable : Reachable Init Step sleeplessKernel := by
  refine reachable_killed overtakenKernel_reachable ?_
  rw [overtakenKernel, programKernel_eq.1]
  decide +kernel

/-- `K` is to sleep, and `kmain` is ready, but `P` is first in the ready queue: `schedule`
returns, and `K` goes on. -/
theorem sleeping_thread_goes_on : Reachable Init Step sleeplessKernel ∧ ∃ rest s₁,
    handle (.sleep 1000) sleeplessKernel = .call .interrupted rest s₁ ∧ s₁.GaveUp ∧
    s₁.CanRun idleThread ∧ (schedule .interrupted s₁).1 = false := by
  refine ⟨sleeplessKernel_reachable, _, _, handle_sleep ?_ ?_, Or.inl ?_, ⟨?_, ?_, ?_⟩, ?_⟩
  all_goals
    rw [sleeplessKernel, overtakenKernel, programKernel_eq.1]
    decide +kernel

end Gummy
