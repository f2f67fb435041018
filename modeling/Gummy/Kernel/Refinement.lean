import Gummy.Kernel.View

/-!
The kernel refines its view.

`Abs s v D` says that `v` is what can be seen of the state `s`, while the running handler
holds the heap blocks `D`.  Each operation of the kernel corresponds to an act or to
nothing at all; from this follows what a whole step and a whole run can do to the view.
-/

namespace Gummy

open CWord

open View (Act Acts GiveUp Resumes Schedule)

/-! ### The relation -/

/-- The buffer of a mailbox with room for `n` messages holds the messages `l`. -/
structure Mailbox (r : RingBuffer) (n : ℕ) (l : List Message) : Prop where
  elems : ∃ raw, r.Holds raw ∧ raw.map (fun x => decodeMessage (ofBytes x)) = l
  capacity : r.capacity = n
  elemSize : n ≠ 0 → r.elemSize = sizeofMessage

/-- The mailbox of the idle process is never set up: it is always full. -/
def mailboxCapacity (p : ℕ) : ℕ := if p = idleProcess then 0 else ipcQueueSize

/-- `x` is what can be seen of the process at `p`. -/
structure ProcessAbs (s : Kernel) (p : ℕ) (x : ProcessView) : Prop where
  pid : (s.proc p).pid = x.pid
  pid_lt : x.pid < 2 ^ 32
  dad : (s.proc p).dad = x.dad
  state : (s.proc p).state = x.state
  mailbox : Mailbox (s.proc p).ringBuffer (mailboxCapacity p) x.mailbox
  accepted : s.accepted p = x.accepted
  delivered : s.delivered p = x.delivered

def Thread.view (t : Thread) : Option ThreadView := t.process.map fun _ => ⟨t.state, t.sp0⟩

structure Abs (s : Kernel) (v : View) (D : List (ℕ × ℕ)) : Prop where
  inv : Inv s v.processes v.queue D
  proc : ∀ p ∈ v.processes, ProcessAbs s p (v.proc p)
  thread : ∀ t, t.process ∈ v.processes → (s.thread t).view = v.thread t
  current : s.currentThread = v.current
  created : s.created = v.created
  currentPid : s.currentPid = u32 (v.created + 1)
  halted : s.halted = v.halted

variable {s s' : Kernel} {v : View} {D D' : List (ℕ × ℕ)}

lemma Thread.view_of_process {t : Thread} {p : ℕ} (h : t.process = some p) :
    t.view = some ⟨t.state, t.sp0⟩ := by
  simp [Thread.view, h]

theorem Abs.wf (h : Abs s v D) : v.WF where
  processes_nodup := h.inv.linked.nodup
  idle_mem := h.inv.idle_mem
  nodup := h.inv.queues.nodup
  unique _ _ _ ht ht' := h.inv.queues.unique ht ht'
  live q t ht := (h.inv.queues.live q t ht).2
  used q t ht := by
    obtain ⟨hproc, hfree⟩ := h.inv.queued q t ht
    rw [← h.thread t (h.inv.queues.live q t ht).2, Thread.view_of_process hproc]
    exact ⟨_, rfl, hfree⟩
  waiters := h.inv.waiters
  current_mem := h.current ▸ h.inv.current_mem
  current_used := by
    rw [← h.current, ← h.thread _ h.inv.current_mem, Thread.view_of_process h.inv.current_owner]
    exact ⟨_, rfl, h.inv.current_used⟩

/-- A thread that can be seen is in use, and belongs to the process it is a slot of. -/
lemma Abs.thread_used (h : Abs s v D) {t : ThreadRef} (ht : t.process ∈ v.processes)
    {x : ThreadView} (hx : v.thread t = some x) :
    (s.thread t).process = some t.process ∧ (s.thread t).state = x.state ∧
      (s.thread t).sp0 = x.sp0 := by
  rw [← h.thread t ht] at hx
  cases hproc : (s.thread t).process with
  | none => simp [Thread.view, hproc] at hx
  | some p =>
    obtain rfl := h.inv.owner t ht p hproc
    rw [Thread.view_of_process hproc] at hx
    obtain rfl := Option.some.inj hx
    exact ⟨rfl, rfl, rfl⟩

lemma Abs.current_view (h : Abs s v D) : v.thread v.current =
    some ⟨(s.thread s.currentThread).state, (s.thread s.currentThread).sp0⟩ := by
  rw [← h.current, ← h.thread _ h.inv.current_mem, Thread.view_of_process h.inv.current_owner]

lemma Abs.currentProcess (h : Abs s v D) :
    schedGetCurrentProcess s = some v.current.process := by
  rw [schedGetCurrentProcess, h.inv.current_owner, h.current]

/-! ### What cannot be seen -/

/-- The fields of a process that can be seen. -/
def Process.info (p : Process) : ℕ × Option ℕ × ProcessState × RingBuffer :=
  (p.pid, p.dad, p.state, p.ringBuffer)

lemma ProcessAbs.congr {p : ℕ} {x : ProcessView} (h : ProcessAbs s p x)
    (hproc : (s'.proc p).info = (s.proc p).info) (hacc : s'.accepted p = s.accepted p)
    (hdel : s'.delivered p = s.delivered p) : ProcessAbs s' p x := by
  obtain ⟨h1, h2, h3, h4⟩ : (s'.proc p).pid = (s.proc p).pid ∧ (s'.proc p).dad = (s.proc p).dad ∧
      (s'.proc p).state = (s.proc p).state ∧
      (s'.proc p).ringBuffer = (s.proc p).ringBuffer := by
    simpa [Process.info] using hproc
  exact ⟨h1.trans h.pid, h.pid_lt, h2.trans h.dad, h3.trans h.state, h4 ▸ h.mailbox,
    hacc.trans h.accepted, hdel.trans h.delivered⟩

/-- The states `s` and `s'` look the same, when `P` is the process list. -/
structure Quiet (P : List ℕ) (s s' : Kernel) : Prop where
  proc : ∀ p ∈ P, (s'.proc p).info = (s.proc p).info := by exact fun _ _ => rfl
  thread : ∀ t, t.process ∈ P → (s'.thread t).view = (s.thread t).view := by exact fun _ _ => rfl
  current : s'.currentThread = s.currentThread := by rfl
  created : s'.created = s.created := by rfl
  currentPid : s'.currentPid = s.currentPid := by rfl
  halted : s'.halted = s.halted := by rfl
  accepted : ∀ p ∈ P, s'.accepted p = s.accepted p := by exact fun _ _ => rfl
  delivered : ∀ p ∈ P, s'.delivered p = s.delivered p := by exact fun _ _ => rfl

lemma Abs.quiet (h : Abs s v D) (hinv : Inv s' v.processes v.queue D')
    (hq : Quiet v.processes s s') : Abs s' v D' where
  inv := hinv
  proc p hp := (h.proc p hp).congr (hq.proc p hp) (hq.accepted p hp) (hq.delivered p hp)
  thread t ht := (hq.thread t ht).trans (h.thread t ht)
  current := hq.current.trans h.current
  created := hq.created.trans h.created
  currentPid := hq.currentPid.trans h.currentPid
  halted := hq.halted.trans h.halted

lemma Abs.withMach (h : Abs s v D) {m : Machine} (hm : m.cr3 = s.mach.cr3) :
    Abs { s with mach := m } v D :=
  h.quiet (h.inv.congr (SameLinks.withMach _ s hm)) {}

lemma Abs.setEax (h : Abs s v D) (t : ThreadRef) (n : ℕ) : Abs (s.setEax t n) v D :=
  h.quiet (h.inv.congr (SameLinks.setEax _ s t n)) {}

/-- Fields of a thread that cannot be seen. -/
lemma Abs.setThread (h : Abs s v D) (t : ThreadRef) {f : Thread → Thread}
    (howned : (f (s.thread t)).owned = (s.thread t).owned)
    (hview : (f (s.thread t)).view = (s.thread t).view) : Abs (s.setThread t f) v D := by
  refine h.quiet (h.inv.congr (SameLinks.setThread _ s t howned)) { thread := fun u _ => ?_ }
  by_cases hu : u = t
  · subst hu
    rw [Kernel.setThread_self, hview]
  · rw [Kernel.setThread_of_ne _ _ hu]

/-- `heap_alloc` changes nothing that can be seen. -/
lemma Abs.heapGet (h : Abs s v D) (size : ℕ) (c : HeapChoice) :
    (∃ s', heapGet size c s = (none, s') ∧ Abs s' v D) ∨
      ∃ s', heapGet size c s = (some c.addr, s') ∧ Abs s' v ((c.addr, size) :: D) := by
  obtain ⟨m, k, hm, hk, hget | ⟨hfits, hget⟩⟩ := heapGet_spec size c s
  · exact Or.inl ⟨_, hget, h.quiet (h.inv.grow hm hk) {}⟩
  · exact Or.inr ⟨_, hget, h.quiet ((h.inv.grow hm hk).hold hfits) {}⟩

lemma Abs.heapPut (h : Abs s v D) {addr size : ℕ} (hD : D = (addr, size) :: D') :
    Abs (heapPut addr s) v D' :=
  h.quiet (h.inv.release hD) {}

/-! ### Moves -/

/-- The threads that can be seen after one of them has changed. -/
lemma Abs.update_thread (h : Abs s v D) {t : ThreadRef} {x : Thread} {y : Option ThreadView}
    (hxy : x.view = y) {u : ThreadRef} (hu : u.process ∈ v.processes) :
    (Function.update s.thread t x u).view = Function.update v.thread t y u := by
  by_cases hut : u = t
  · subst hut
    rw [Function.update_self, Function.update_self, hxy]
  · rw [Function.update_of_ne hut, Function.update_of_ne hut, h.thread u hu]

theorem Abs.moveTo (h : Abs s v D) {t : ThreadRef} (q : QueueRef) (state : ThreadState)
    (ht : t.process ∈ v.processes) {x : ThreadView} (hx : v.thread t = some x)
    (hfree : x.state ≠ .free) (hq : ∀ p, q = .waiters p → t.process = p)
    (hstate : state ≠ .free) : Abs (moveTo q state t s) (v.move q state t) D := by
  obtain ⟨hproc, hst, -⟩ := h.thread_used ht hx
  have hlive : LiveQueue v.processes q := by
    rcases q with _ | _ | _ | _ | p
    on_goal 5 => exact hq p rfl ▸ ht
    all_goals trivial
  refine ⟨h.inv.moveTo ht hproc (hst ▸ hfree) hlive hq hstate,
    fun p hp => (h.proc p hp).congr rfl rfl rfl, fun u hu => ?_, h.current, h.created,
    h.currentPid, h.halted⟩
  refine h.update_thread ?_ hu
  rw [← h.thread t ht, Thread.view, Thread.view, hproc]
  rfl

/-- `sched_ready` of a thread that is queued. -/
lemma Abs.schedReady (h : Abs s v D) {t : ThreadRef} {q : QueueRef} (ht : t ∈ v.queue q) :
    Abs (schedReady t s) (v.move .ready .ready t) D := by
  obtain ⟨x, hx, hfree⟩ := h.wf.used q t ht
  exact h.moveTo .ready .ready (h.wf.live q t ht) hx hfree (by simp) (by simp)

/-! ### The timer -/

lemma Abs.wakeSleepers (h : Abs s v D) (takes : View → Prop) {A l : List ThreadRef}
    (hl : v.queue .sleep = A ++ l) {fuel : ℕ} (hfuel : l.length ≤ fuel) :
    ∃ v', Acts takes v v' ∧ Abs (wakeSleepers fuel l.head? s) v' D ∧
      ∀ t ∈ v.queue .sleep, s.ticks < (s.thread t).wakeTick → t ∈ v'.queue .sleep := by
  induction l generalizing s v A fuel with
  | nil =>
    refine ⟨v, .refl, ?_, fun t ht _ => ht⟩
    cases fuel <;> exact h
  | cons n l ih =>
    obtain ⟨fuel, rfl⟩ : ∃ k, fuel = k + 1 := Nat.exists_eq_add_of_le' (by simp at hfuel; omega)
    have hfuel : l.length ≤ fuel := by simpa using hfuel
    have hlinked := h.inv.queues.linked .sleep trivial
    rw [hl] at hlinked
    have hnext := hlinked.next_of_eq_append
    have hn : n ∈ v.queue .sleep := by simp [hl]
    simp only [List.head?_cons, Gummy.wakeSleepers, hnext]
    by_cases hw : s.ticks ≥ (s.thread n).wakeTick
    · rw [if_pos hw]
      -- the rest of the queue is as it was
      have hnA : n ∉ A := fun hA =>
        (List.nodup_append.1 hlinked.nodup).2.2 n hA n (by simp) rfl
      have hsleep : (v.move .ready .ready n).queue .sleep = A ++ l := by
        rw [View.move, View.setThread]
        simp [Denotes.pushList, hl, List.erase_append_right _ hnA]
      obtain ⟨v', hacts, habs, hkeep⟩ := ih (h.schedReady hn) hsleep hfuel
      refine ⟨v', .head ⟨h.wf, .wake hn⟩ hacts, habs, fun t ht hlate => ?_⟩
      have hne : t ≠ n := by
        rintro rfl
        exact absurd hw (not_le.2 hlate)
      refine hkeep t ?_ ?_
      · rw [hl] at ht
        rw [hsleep]
        rcases List.mem_append.1 ht with hA | hnl
        · exact List.mem_append_left l hA
        · exact List.mem_append_right A ((List.mem_cons.1 hnl).resolve_left hne)
      · rw [Gummy.schedReady, Gummy.moveTo, Kernel.setThread_of_ne _ _ hne]
        exact hlate
    · rw [if_neg hw]
      exact ih h (A := A ++ [n]) (by simp [hl]) hfuel

/-- `timer_handler` wakes sleepers, but none whose time has not come. -/
theorem Abs.timerTick (h : Abs s v D) (takes : View → Prop) :
    ∃ v', Acts takes v v' ∧ Abs (timerTick s) v' D ∧
      ∀ t ∈ v.queue .sleep, u32 (s.ticks + 1) < (s.thread t).wakeTick →
        t ∈ v'.queue .sleep := by
  have hticks : Abs { s with ticks := u32 (s.ticks + 1) } v D := h.quiet { h.inv with
    heap := { h.inv.heap with } } {}
  have hwake := hticks.wakeSleepers takes (A := []) rfl le_rfl
  have hQ := h.inv.queues
  rw [Gummy.timerTick]
  dsimp only
  rw [hQ.size .sleep trivial, hQ.headNext .sleep trivial]
  exact hwake

/-! ### The scheduler -/

lemma switchContext_eq {n : ThreadRef} {p : ℕ} (hproc : (s.thread n).process = some p)
    (hcr3 : s.mach.cr3 = (s.proc s.currentProcess).cr3) :
    ∃ e, (n ≠ idleThread → e = (s.thread n).stack0 + kernelStackSize) ∧ switchContext n s = { s with
      mach := { s.mach with cr3 := (s.proc p).cr3 }
      currentThread := n, currentProcess := p, esp0 := e }.setThread n ({ · with
        state := .running }) := by
  unfold switchContext
  rw [hproc]
  dsimp only
  by_cases hn : n ≠ idleThread <;> by_cases hp : p ≠ s.currentProcess
  · exact ⟨_, fun _ => rfl, by rw [if_pos hn, if_pos hp]⟩
  · obtain rfl := not_not.1 hp
    exact ⟨_, fun _ => rfl, by rw [if_pos hn, if_neg hp, ← hcr3]⟩
  · exact ⟨_, fun h => absurd h hn, by rw [if_neg hn, if_pos hp]⟩
  · obtain rfl := not_not.1 hp
    exact ⟨_, fun h => absurd h hn, by rw [if_neg hn, if_neg hp, ← hcr3]⟩

lemma Abs.save (h : Abs s v D) (sp0 : Context) :
    Abs (s.setThread s.currentThread ({ · with sp0 })) (v.setThread v.current ({ · with sp0 }))
      D := by
  refine ⟨h.inv.congr (SameLinks.setThread _ s _ rfl), fun p hp => (h.proc p hp).congr rfl rfl rfl,
    fun t ht => ?_, h.current, h.created, h.currentPid, h.halted⟩
  rw [h.current]
  refine h.update_thread ?_ ht
  rw [h.current_view, ← h.current]
  exact Thread.view_of_process h.inv.current_owner

/-- Queueing the current thread if it is running. -/
lemma Abs.pushRunning (h : Abs s v D) :
    Abs (if (s.thread s.currentThread).state = .running then
        { s with queues := queuePush s.queues .ready s.currentThread } else s)
      (if (v.thread v.current).map ThreadView.state = some .running then
        { v with queue := Denotes.pushList v.queue .ready v.current } else v) D := by
  have hinv := h.inv
  have hcur := h.current_view
  by_cases hrun : (s.thread s.currentThread).state = .running
  · rw [if_pos hrun, if_pos (by simp [hcur, hrun]), ← h.current]
    refine ⟨hinv.push hinv.current_owner hinv.current_used (by simp)
      (hinv.queues.push hinv.current_mem trivial), fun p hp => (h.proc p hp).congr rfl rfl rfl,
      h.thread, rfl, h.created, h.currentPid, h.halted⟩
  · rw [if_neg hrun, if_neg (by simp [hcur, hrun])]
    exact h

lemma Abs.requeue (h : Abs s v D) (sp0 : Context) : Abs (requeue sp0 s) (v.requeue sp0) D :=
  (h.save sp0).pushRunning

/-- Taking the first thread off the ready queue. -/
lemma Abs.skip (h : Abs s v D) {n : ThreadRef} {l : List ThreadRef}
    (hl : v.queue .ready = n :: l) :
    ∃ Q, queuePop s.queues .ready = (some n, Q) ∧ Abs { s with queues := Q } (v.skip l) D := by
  obtain ⟨Q, hpop, hinv⟩ := h.inv.pop hl
  exact ⟨Q, hpop, hinv, fun p hp => (h.proc p hp).congr rfl rfl rfl, h.thread, h.current, h.created,
    h.currentPid, h.halted⟩

/-- `switch_context`. -/
lemma Abs.switchContext (h : Abs s v D) {n : ThreadRef} (hn : n.process ∈ v.processes)
    {x : ThreadView} (hx : v.thread n = some x) (hfree : x.state ≠ .free) :
    Abs (switchContext n s) ({ v with current := n }.setThread n ({ · with state := .running }))
      D := by
  obtain ⟨hproc, hst, -⟩ := h.thread_used hn hx
  have hinv := h.inv
  have hcr3 : s.mach.cr3 = (s.proc s.currentProcess).cr3 := by
    rw [hinv.currentProcess, hinv.cr3]
  obtain ⟨e, hesp0, heq⟩ := switchContext_eq hproc hcr3
  have hfree' : (s.thread n).state ≠ .free := hst ▸ hfree
  have hswitch : Inv { s with
      mach := { s.mach with cr3 := (s.proc n.process).cr3 }
      currentThread := n, currentProcess := n.process, esp0 := e } v.processes v.queue D :=
    { hinv with
      current_mem := hn
      current_owner := hproc
      current_used := hfree'
      esp0 := hesp0
      currentProcess := rfl
      cr3 := rfl
      heap := { hinv.heap with } }
  rw [heq]
  refine ⟨hswitch.congr (SameLinks.setThread _ _ n ?_), fun p hp => (h.proc p hp).congr rfl rfl rfl,
    fun t ht => ?_, rfl, h.created, h.currentPid, h.halted⟩
  · simp [Thread.owned, hfree']
  · refine h.update_thread ?_ ht
    rw [← h.thread n hn, Thread.view_of_process hproc]
    exact Thread.view_of_process hproc

/-- The scheduler of the kernel is the one of the view. -/
theorem Abs.schedule (h : Abs s v D) (sp0 : Context) :
    ∃ b s' v', schedule sp0 s = (b, s') ∧ Schedule sp0 v b v' ∧ Abs s' v' D := by
  have hempty := h.inv.queues.queueEmpty_iff (k := .ready) trivial
  unfold Gummy.schedule
  by_cases hr : v.queue .ready = []
  · exact ⟨false, s, v, if_pos (hempty.2 hr), .idle hr, h⟩
  rw [if_neg (mt hempty.1 hr)]
  dsimp only
  obtain ⟨n, l, hl⟩ := List.exists_cons_of_ne_nil (View.requeue_ne_nil sp0 hr)
  have hq := h.requeue sp0
  generalize Gummy.requeue sp0 s = r at hq ⊢
  obtain ⟨Q, hpop, hskip⟩ := hq.skip hl
  have hcur : r.currentThread = v.current := hq.current.trans (View.requeue_current sp0 v)
  have hn : n ∈ (v.requeue sp0).queue .ready := by simp [hl]
  have hlive := hq.wf.live _ n hn
  obtain ⟨x, hx, hfree⟩ := hq.wf.used _ n hn
  have hstate : (r.proc n.process).state = (v.proc n.process).state := by
    rw [(hq.proc n.process hlive).state, View.requeue_proc]
  rw [hpop]
  dsimp only
  rw [(hq.thread_used hlive hx).1]
  by_cases hnc : n = r.currentThread
  · exact ⟨false, _, _, if_pos hnc, .keep hl (Or.inl (hnc.trans hcur)), hskip⟩
  rw [if_neg hnc]
  dsimp only
  rw [hstate]
  by_cases hdying : (v.proc n.process).state = .dying
  · exact ⟨false, _, _, if_pos hdying, .keep hl (Or.inr hdying), hskip⟩
  rw [if_neg hdying]
  exact ⟨true, _, _, rfl, .switch hl (hcur ▸ hnc) hdying, hskip.switchContext hlive hx hfree⟩

/-! ### Creation and destruction -/

/-- A new thread that is not queued yet. -/
lemma Abs.created_some (h : Abs s v D) {p : ℕ} {t : ThreadRef}
    (hinv : Inv s' v.processes v.queue D')
    (hc : Created s s' p (some t)) : ∃ ctx, Abs s' { v with
      thread := Function.update v.thread t (some ⟨.running, .fresh ctx⟩) } D' := by
  obtain ⟨ctx, hctx⟩ := hc.sp0 t rfl
  have hframe := hc.frame
  refine ⟨ctx, hinv, fun p hp => ?_, fun u hu => ?_, hframe.globals.currentThread.trans h.current,
    hframe.globals.created.trans h.created, hframe.globals.currentPid.trans h.currentPid,
    hframe.globals.halted.trans h.halted⟩
  · obtain ⟨n, hn⟩ := hframe.proc p
    exact (h.proc p hp).congr (by rw [hn]; rfl) (by rw [hframe.accepted]) (by rw [hframe.delivered])
  · dsimp only
    by_cases hut : u = t
    · subst hut
      rw [Function.update_self, Thread.view_of_process (hc.owner u rfl), hc.state u rfl, hctx]
    · rw [Function.update_of_ne hut, ← h.thread u hu]
      by_cases hused : (s.thread u).process = none
      · have hne : some t ≠ some u := fun heq => hut (Option.some.inj heq).symm
        simp [Thread.view, hused, hc.slot u hused hne]
      · rw [hframe.thread u hused]

lemma Abs.created_none (h : Abs s v D) {p : ℕ} (hinv : Inv s' v.processes v.queue D')
    (hc : Created s s' p none) : Abs s' v D' := by
  have hframe := hc.frame
  refine h.quiet hinv
    { proc := fun p _ => ?_
      thread := fun u _ => ?_
      current := hframe.globals.currentThread
      created := hframe.globals.created
      currentPid := hframe.globals.currentPid
      halted := hframe.globals.halted
      accepted := fun p _ => by rw [hframe.accepted]
      delivered := fun p _ => by rw [hframe.delivered] }
  · obtain ⟨n, hn⟩ := hframe.proc p
    rw [hn]
    rfl
  · by_cases hused : (s.thread u).process = none
    · simp [Thread.view, hused, hc.slot u hused (by simp)]
    · rw [hframe.thread u hused]

/-- `sched_create_thread`: nothing to be seen, or a thread that is not queued yet. -/
theorem Abs.schedCreateThread (h : Abs s v D) {p : ℕ} (hp : p ∈ v.processes) (loc : ℕ)
    (c : HeapChoice) :
    (∃ s', schedCreateThread loc p c s = (none, s') ∧ Abs s' v D) ∨
      ∃ t s' ctx, schedCreateThread loc p c s = (some t, s') ∧ t.process = p ∧
        v.thread t = none ∧ Abs s' { v with
          thread := Function.update v.thread t (some ⟨.running, .fresh ctx⟩) } D := by
  obtain ⟨res, s', heq, hinv, hc⟩ := h.inv.schedCreateThread hp loc c
  cases res with
  | none => exact Or.inl ⟨s', heq, h.created_none hinv hc⟩
  | some t =>
    obtain ⟨ctx, habs⟩ := h.created_some hinv hc
    have ht := hc.proc_eq t rfl
    refine Or.inr ⟨t, s', ctx, heq, ht, ?_, habs⟩
    rw [← h.thread t (ht ▸ hp), Thread.view, hc.unused t rfl]
    rfl

/-- Queueing the new thread. -/
lemma Abs.startThread {t : ThreadRef} {ctx : InterruptContext} (ht : t.process ∈ v.processes)
    (h : Abs s { v with thread := Function.update v.thread t (some ⟨.running, .fresh ctx⟩) } D) :
    Abs (Gummy.schedReady t s) (v.start t ctx) D := by
  have hmove : Abs (Gummy.schedReady t s) _ D :=
    h.moveTo .ready .ready ht (Function.update_self ..) (by simp) (by simp)
      (by simp)
  have hview : View.move .ready .ready t { v with
      thread := Function.update v.thread t (some ⟨.running, .fresh ctx⟩) } = v.start t ctx := by
    simp [View.move, View.setThread, View.start]
  rwa [hview] at hmove

lemma Mailbox.init (buf : ByteMem) {p : ℕ} (hp : p ≠ idleProcess) :
    Mailbox (ringBufferInit buf sizeofMessage ipcQueueSize) (mailboxCapacity p) [] := by
  refine ⟨⟨[], RingBuffer.Holds.init .., rfl⟩, ?_, fun _ => rfl⟩
  rw [mailboxCapacity, if_neg hp]
  rfl

lemma Abs.create (h : Abs s v D) {p : ℕ} (hinv : Inv s' (p :: v.processes) v.queue D')
    (hc : ProcessCreated v.processes s s' p) : Abs s' (v.create p) D' := by
  refine ⟨hinv, fun q hq => ?_, fun t ht => ?_, hc.currentThread.trans h.current, ?_, ?_,
    hc.halted.trans h.halted⟩
  · by_cases hqp : q = p
    · subst hqp
      obtain ⟨buf, hbuf⟩ := hc.ringBuffer
      have hpid : (s'.proc q).pid = u32 (v.created + 1) := hc.pid.trans h.currentPid
      have hdad : (s'.proc q).dad = some v.current.process := by rw [hc.dad, h.current]
      dsimp only [View.create]
      rw [Function.update_self]
      refine ⟨hpid, u32_lt _, hdad, hc.state, ?_, ?_, ?_⟩
      · rw [hbuf]
        exact Mailbox.init buf hc.ne_idle
      · simp [hc.accepted]
      · simp [hc.delivered]
    · have hq : q ∈ v.processes := (List.mem_cons.1 hq).resolve_left hqp
      obtain ⟨pv, hpv⟩ := hc.proc q hq
      dsimp only [View.create]
      rw [Function.update_of_ne hqp]
      refine (h.proc q hq).congr (by rw [hpv]; rfl) ?_ ?_
      · rw [hc.accepted, Function.update_of_ne hqp]
      · rw [hc.delivered, Function.update_of_ne hqp]
  · dsimp only [View.create]
    by_cases htp : t.process = p
    · obtain ⟨q, i⟩ := t
      dsimp only at htp
      subst htp
      rw [if_pos rfl, hc.thread_new i]
      rfl
    · have ht : t.process ∈ v.processes := (List.mem_cons.1 ht).resolve_left htp
      rw [if_neg htp, hc.thread t ht, h.thread t ht]
  · rw [hc.created, h.created]
    rfl
  · rw [hc.currentPid, h.currentPid]
    simp [View.create, u32]

lemma Abs.destroy (h : Abs s v D) {p : ℕ}
    (hinv : Inv s' (v.processes.erase p) (dropProcess v.queue p) D')
    (hp : p ∈ v.processes) (hd : Destroyed v.processes s s' p) : Abs s' (v.destroy p) D' := by
  have hmem : ∀ q, q ∈ v.processes.erase p → q ≠ p ∧ q ∈ v.processes := fun q hq =>
    h.wf.processes_nodup.mem_erase_iff.1 hq
  refine ⟨hinv, fun q hq => ?_, fun t ht => ?_, hd.globals.currentThread.trans h.current,
    hd.globals.created.trans h.created, hd.globals.currentPid.trans h.currentPid,
    hd.globals.halted.trans h.halted⟩
  · obtain ⟨hqp, hq⟩ := hmem q hq
    obtain ⟨next, prev, hproc⟩ := hd.proc q hq hqp
    have hq' := h.proc q hq
    refine ⟨?_, hq'.pid_lt, ?_, ?_, ?_, ?_, ?_⟩
    · rw [hproc]
      exact hq'.pid
    · rw [hproc]
      dsimp only [View.destroy]
      rw [hq'.dad, (h.proc p hp).dad]
    · rw [hproc]
      exact hq'.state
    · rw [hproc]
      exact hq'.mailbox
    · rw [hd.accepted]
      exact hq'.accepted
    · rw [hd.delivered]
      exact hq'.delivered
  · obtain ⟨htp, ht⟩ := hmem _ ht
    rw [hd.thread t htp]
    exact h.thread t ht

/-- `sched_destroy_process` may refuse. -/
theorem Abs.schedDestroyProcess (h : Abs s v D) {p : ℕ} (hp : p ∈ v.processes)
    (hi : p ≠ idleProcess) (g : Garbage) (takes : View → Prop) :
    ∃ v', Acts takes v v' ∧ Abs (schedDestroyProcess p g s) v' D := by
  obtain ⟨-, heq⟩ | ⟨hcur, hinv, hd⟩ := h.inv.schedDestroyProcess hp hi g
  · exact ⟨v, .refl, by rwa [heq]⟩
  · rw [h.current] at hcur
    exact ⟨v.destroy p, .single ⟨h.wf, .destroy hp hi hcur⟩, h.destroy hinv hp hd⟩

/-- `sched_destroy_current_process`, up to its call of `sys_yield`. -/
theorem Abs.killCurrentProcess (h : Abs s v D) {p : ℕ} (hp : p ∈ v.processes) :
    Abs (killCurrentProcess p s) (v.kill p) D := by
  refine ⟨h.inv.killCurrentProcess hp, fun q hq => ?_, h.thread, h.current, h.created,
    h.currentPid, h.halted⟩
  have hq' := h.proc q hq
  by_cases hqp : q = p
  · subst hqp
    have hproc : (Gummy.killCurrentProcess q s).proc q = { s.proc q with state := .dying } :=
      Function.update_self ..
    rw [View.kill, View.setProc]
    dsimp only
    rw [Function.update_self]
    exact ⟨by rw [hproc]; exact hq'.pid, hq'.pid_lt, by rw [hproc]; exact hq'.dad, by rw [hproc],
      by rw [hproc]; exact hq'.mailbox, hq'.accepted, hq'.delivered⟩
  · have hproc : (Gummy.killCurrentProcess p s).proc q = s.proc q :=
      Function.update_of_ne hqp _ _
    rw [View.kill, View.setProc]
    dsimp only
    rw [Function.update_of_ne hqp]
    exact hq'.congr (by rw [hproc]) rfl rfl

/-! ### Messages -/

/-- A buffer that is not full takes a message. -/
lemma Mailbox.push {r : RingBuffer} {n : ℕ} {l : List Message} (h : Mailbox r n l)
    (stack data : ByteMem) {sender type size : ℕ} (hsender : sender < 2 ^ 32)
    (htype : type < 2 ^ 32) (hsize : size ≤ ipcMsgMax) :
    (∃ err, ringBufferPush r (encodeMessage stack sender type size data) = (err, r) ∧ err ≠ 0) ∨
      ∃ r', ringBufferPush r (encodeMessage stack sender type size data) = (0, r') ∧
        Mailbox r' n (l ++ [⟨sender, type, data.bytes 0 size⟩]) := by
  obtain ⟨raw, hraw, rfl⟩ := h.elems
  obtain hfull | hroom := hraw.le.eq_or_lt
  · exact Or.inl ⟨1, hraw.push_full hfull _, one_ne_zero⟩
  · obtain ⟨r', hpush, hr', helem, hcap⟩ := hraw.push hroom
      (encodeMessage stack sender type size data)
    have hn : n ≠ 0 := by
      rw [← h.capacity]
      omega
    rw [h.elemSize hn] at hr'
    refine Or.inr ⟨r', hpush, ⟨_, hr', ?_⟩, hcap.trans h.capacity, fun hn => helem.trans
      (h.elemSize hn)⟩
    rw [List.map_append, List.map_singleton, decode_encode stack data hsender htype hsize]

lemma Mailbox.pop_nil {r : RingBuffer} {n : ℕ} (h : Mailbox r n []) :
    ringBufferPop r = (none, r) := by
  obtain ⟨raw, hraw, hnil⟩ := h.elems
  rw [List.map_eq_nil_iff] at hnil
  exact (hnil ▸ hraw).pop_nil

lemma Mailbox.empty_iff {r : RingBuffer} {n : ℕ} {l : List Message} (h : Mailbox r n l) :
    ringBufferEmpty r = true ↔ l = [] := by
  obtain ⟨raw, hraw, rfl⟩ := h.elems
  rw [hraw.empty_iff, List.map_eq_nil_iff]

lemma Mailbox.pop_cons {r : RingBuffer} {n : ℕ} {m : Message} {l : List Message}
    (h : Mailbox r n (m :: l)) :
    ∃ out r', ringBufferPop r = (some out, r') ∧ decodeMessage (ofBytes out) = m ∧
      Mailbox r' n l := by
  obtain ⟨raw, hraw, hcons⟩ := h.elems
  cases raw with
  | nil => simp at hcons
  | cons x raw =>
    obtain ⟨rfl, rfl⟩ := List.cons.inj hcons
    obtain ⟨r', hpop, hr', helem, hcap⟩ := hraw.pop_cons
    exact ⟨x, r', hpop, rfl, ⟨raw, hr', rfl⟩, hcap.trans h.capacity,
      fun hn => helem.trans (h.elemSize hn)⟩

/-- The contents of one mailbox change. -/
lemma Abs.setMailbox (h : Abs s v D) {p : ℕ} {r : RingBuffer} {x : ProcessView}
    (acc : ℕ → List Message) (del : ℕ → List Delivery)
    (hr : Mailbox r (mailboxCapacity p) x.mailbox)
    (hx : x = { v.proc p with
      mailbox := x.mailbox, accepted := x.accepted, delivered := x.delivered })
    (hacc : acc = Function.update s.accepted p x.accepted)
    (hdel : del = Function.update s.delivered p x.delivered) :
    Abs { s.setProc p (fun x => { x with ringBuffer := r }) with
        accepted := acc, delivered := del }
      (v.setProc p fun _ => x) D := by
  have hlinks : SameLinks v.processes s { s.setProc p (fun x => { x with ringBuffer := r }) with
      accepted := acc, delivered := del } := by
    have hset := SameLinks.setProc v.processes s p (f := ({ · with ringBuffer := r })) fun _ => rfl
    exact { hset with }
  refine ⟨h.inv.congr hlinks, fun q hq => ?_, h.thread, h.current, h.created, h.currentPid,
    h.halted⟩
  have hq' := h.proc q hq
  dsimp only [View.setProc]
  by_cases hqp : q = p
  · subst hqp
    have hproc : (s.setProc q ({ · with ringBuffer := r })).proc q =
        { s.proc q with ringBuffer := r } := Function.update_self ..
    rw [Function.update_self]
    refine ⟨?_, ?_, ?_, ?_, ?_, ?_, ?_⟩
    · rw [hx]
      exact (congrArg Process.pid hproc).trans hq'.pid
    · rw [hx]
      exact hq'.pid_lt
    · rw [hx]
      exact (congrArg Process.dad hproc).trans hq'.dad
    · rw [hx]
      exact (congrArg Process.state hproc).trans hq'.state
    · exact (congrArg Process.ringBuffer hproc).symm ▸ hr
    · simp [hacc]
    · simp [hdel]
  · rw [Function.update_of_ne hqp]
    refine hq'.congr ?_ ?_ ?_
    · exact congrArg Process.info (Function.update_of_ne hqp _ _)
    · simp [hacc, hqp]
    · simp [hdel, hqp]

/-- The first waiting thread leaves the queue and becomes ready. -/
lemma Abs.wakeFirst (h : Abs s v D) {q : QueueRef} {t : ThreadRef} {l : List ThreadRef}
    (hl : v.queue q = t :: l) :
    ∃ Q, queuePop s.queues q = (some t, Q) ∧
      Abs (Gummy.schedReady t { s with queues := Q }) (v.move .ready .ready t) D := by
  obtain ⟨Q, hpop, hinv⟩ := h.inv.pop hl
  have ht : t ∈ v.queue q := by simp [hl]
  obtain ⟨x, hx, hfree⟩ := h.wf.used q t ht
  have hpopped : Abs { s with queues := Q } { v with queue := Function.update v.queue q l } D :=
    ⟨hinv, fun p hp => (h.proc p hp).congr rfl rfl rfl, h.thread, h.current, h.created,
      h.currentPid, h.halted⟩
  have hmove := hpopped.moveTo .ready .ready (h.wf.live q t ht) hx hfree
    (by simp) (by simp)
  rw [View.move, h.inv.queues.pushList_update_tail hl] at hmove
  exact ⟨Q, hpop, hmove⟩

/-- `ipc_send` fails and changes nothing, or a message of the current process is put into
the mailbox of a process that is not dying. -/
theorem Abs.ipcSend (h : Abs s v D) (pid : ℕ) {type : ℕ} (htype : type < 2 ^ 32)
    (data : Option ByteMem) (size : ℕ) (stack : ByteMem) :
    (∃ err, ipcSend pid type data size stack s = (err, s) ∧ err ≠ 0) ∨
      ∃ s' p m, ipcSend pid type data size stack s = (0, s') ∧ p ∈ v.processes ∧
        (v.proc p).state ≠ .dying ∧ m.senderPid = (v.proc v.current.process).pid ∧
        Abs s' (v.send p m) D := by
  unfold Gummy.ipcSend
  cases data with
  | none => exact Or.inl ⟨1, rfl, one_ne_zero⟩
  | some data =>
    dsimp only
    by_cases hsize : size = 0 ∨ size > ipcMsgMax
    · exact Or.inl ⟨1, if_pos hsize, one_ne_zero⟩
    rw [if_neg hsize]
    cases hfind : schedGetProcess pid s with
    | none => exact Or.inl ⟨1, rfl, one_ne_zero⟩
    | some p =>
      dsimp only
      have hp : p ∈ v.processes := by
        rw [← h.inv.processes_eq]
        exact List.mem_of_find?_eq_some hfind
      have hproc := h.proc p hp
      by_cases hdying : (s.proc p).state = .dying
      · exact Or.inl ⟨1, if_pos hdying, one_ne_zero⟩
      rw [if_neg hdying]
      have hcur := h.proc _ h.wf.current_mem
      have hsender : schedGetCurrentPid s = (v.proc v.current.process).pid := by
        rw [schedGetCurrentPid, h.currentProcess]
        exact hcur.pid
      rw [hsender]
      obtain ⟨err, hpush, herr⟩ | ⟨r, hpush, hr⟩ := hproc.mailbox.push stack data hcur.pid_lt htype
        (not_lt.1 (not_or.1 hsize).2)
      · -- a full buffer stays as it is
        rw [hpush]
        dsimp only
        rw [if_pos herr]
        refine Or.inl ⟨1, ?_, one_ne_zero⟩
        have hsame : s.setProc p ({ · with ringBuffer := (s.proc p).ringBuffer }) = s := by
          simp [Kernel.setProc]
        rw [hsame]
      · rw [hpush]
        dsimp only
        rw [if_neg (by simp)]
        let m : Message := ⟨(v.proc v.current.process).pid, type, data.bytes 0 size⟩
        have hpost : Abs _ (v.post p m) D := h.setMailbox (p := p) (r := r)
          (Function.update s.accepted p (s.accepted p ++ [m])) s.delivered
          hr rfl (by simp [hproc.accepted]) (by simp [← hproc.delivered])
        refine Or.inr ?_
        have hempty := hpost.inv.queues.queueEmpty_iff (k := .waiters p) hp
        cases hw : v.queue (.waiters p) with
        | nil =>
          refine ⟨_, p, m, if_pos (hempty.2 hw), hp, fun hd => hdying (hproc.state.trans hd), rfl,
            ?_⟩
          rwa [View.send, hw]
        | cons t l =>
          obtain ⟨Q, hpop, hwake⟩ := hpost.wakeFirst (q := .waiters p) hw
          have hne : ¬ queueEmpty s.queues (.waiters p) = true := by
            intro he
            exact List.cons_ne_nil t l (hw.symm.trans (hempty.1 he))
          refine ⟨_, p, m, (if_neg hne).trans (by rw [hpop]), hp,
            fun hd => hdying (hproc.state.trans hd), rfl, ?_⟩
          rwa [View.send, hw]

/-- `ipc_receive` from its `ring_buffer_pop` on, when there is no message. -/
lemma Abs.ipcTake_nil (h : Abs s v D) (hm : (v.proc v.current.process).mailbox = [])
    (senderPid buffer size : ℕ) : ipcTake senderPid buffer size s = (1, s) := by
  have hmail := (h.proc _ h.wf.current_mem).mailbox
  rw [hm] at hmail
  rw [ipcTake, h.currentProcess]
  dsimp only
  rw [hmail.pop_nil]

/-- `ipc_receive` from its `ring_buffer_pop` on, when there is a message. -/
theorem Abs.ipcTake_cons (h : Abs s v D) {m : Message} {l : List Message}
    (hm : (v.proc v.current.process).mailbox = m :: l) (senderPid buffer size : ℕ) :
    ∃ d s', ipcTake senderPid buffer size s = (0, s') ∧ d.message = m ∧ d.senderPid = senderPid ∧
      d.buffer = buffer ∧ d.size = size ∧ d.Exact ∧ Abs s' (v.take d) D := by
  have hproc := h.proc _ h.wf.current_mem
  have hmail := hproc.mailbox
  rw [hm] at hmail
  obtain ⟨out, r, hpop, rfl, hr⟩ := hmail.pop_cons
  rw [ipcTake, h.currentProcess]
  dsimp only
  rw [hpop]
  dsimp only
  let d : Delivery :=
    { message := decodeMessage (ofBytes out), senderPid, buffer, size
      stores := wordStores senderPid ((ofBytes out).read32 0) ++
        copyStores buffer ((ofBytes out).bytes 12 (min size ((ofBytes out).read32 8))) }
  refine ⟨d, _, rfl, rfl, rfl, rfl, rfl, ?_, ?_⟩
  · have htake : (ofBytes out).bytes 12 (min size ((ofBytes out).read32 8)) =
        (decodeMessage (ofBytes out)).data.take size := by
      rw [decodeMessage, ByteMem.bytes, ByteMem.bytes, ← List.map_take, List.take_range]
    simp only [Delivery.Exact, d, htake]
    rfl
  · exact h.setMailbox (p := v.current.process) (r := r) s.accepted
      (Function.update s.delivered v.current.process (s.delivered v.current.process ++ [d]))
      (by rw [hm]; exact hr) rfl
      (by simp [← hproc.accepted]) (by simp [hproc.delivered])

end Gummy
