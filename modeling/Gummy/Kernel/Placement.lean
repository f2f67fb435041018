import Gummy.Kernel.Simulation

/-!
Where the threads are.

A thread of a process that is not dying is the current thread, or it is linked in the queue
that its state names.  The difficulty is a current thread that the scheduler did not take
the processor from: it may have any state, and it may be linked in any queue.  It is not lost
because the thread of `kmain` stands before it in the ready queue.
-/

namespace Gummy

open CWord

open View (Act Acts GiveUp Calls Resumes Schedule After)

open Transition (Reachable)

variable {takes waits : View → Prop} {v v' : View}

/-- The states that a thread linked in the queue can have.  A thread in the ready queue is
running when the scheduler has queued it and it has not been dispatched since. -/
def QueueRef.Fits : QueueRef → ThreadState → Prop
  | .ready, state => state = .ready ∨ state = .running
  | .blocked, _ => False
  | .zombie, state => state = .zombie
  | .sleep, state => state = .sleeping
  | .waiters _, state => state = .blocked

namespace View

/-! ### The invariant -/

structure Placed (v : View) : Prop where
  idle_normal : (v.proc idleProcess).state ≠ .dying
  idle_running : (v.thread idleThread).map ThreadView.state = some .running
  idle : v.current = idleThread ∨ idleThread ∈ v.queue .ready
  fits : ∀ q, ∀ t ∈ v.queue q, ∀ x, v.thread t = some x → q.Fits x.state
  linked : ∀ t, t.process ∈ v.processes → (v.proc t.process).state ≠ .dying →
    v.thread t ≠ none → t = v.current ∨ ∃ q, t ∈ v.queue q
  current : (v.proc v.current.process).state ≠ .dying →
    (v.thread v.current).map ThreadView.state ≠ some .running → ∃ q, v.current ∈ v.queue q
  behind : v.current ∈ v.queue .ready →
    (v.thread v.current).map ThreadView.state ≠ some .running →
    [idleThread, v.current].Sublist (v.queue .ready)

namespace Placed

lemma init : View.init.Placed where
  idle_normal := by simp [View.init]
  idle_running := rfl
  idle := Or.inl rfl
  fits q t ht := absurd ht (List.not_mem_nil)
  linked t ht _ hx := by
    refine Or.inl ?_
    obtain ⟨p, i⟩ := t
    obtain rfl := List.mem_singleton.1 ht
    have hi : (i : ℕ) = 0 := by
      by_contra hi
      exact hx (if_neg hi)
    rw [Fin.val_eq_zero_iff] at hi
    rw [hi]
    rfl
  current _ hne := absurd rfl hne
  behind hc := absurd hc (List.not_mem_nil)

lemma current_ne_idle (h : v.Placed)
    (hne : (v.thread v.current).map ThreadView.state ≠ some .running) : v.current ≠ idleThread := by
  intro hc
  rw [hc] at hne
  exact hne h.idle_running

/-- The thread of `kmain` is linked in the ready queue only. -/
lemma idle_not_mem (h : v.Placed) {q : QueueRef} (hq : q ≠ .ready) : idleThread ∉ v.queue q := by
  intro hmem
  obtain ⟨x, hx, hrun⟩ := Option.map_eq_some_iff.1 h.idle_running
  have hfits := h.fits q _ hmem x hx
  rw [hrun] at hfits
  cases q with
  | ready => exact hq rfl
  | blocked => exact hfits
  | zombie => cases hfits
  | sleep => cases hfits
  | waiters p => cases hfits

/-- Where nothing changes but what the invariant does not speak of. -/
lemma congr (h : v.Placed) (hP : ∀ p ∈ v'.processes, p ∈ v.processes)
    (hstate : ∀ p ∈ v.processes, (v'.proc p).state = (v.proc p).state) (hwf : v.WF)
    (hthread : v'.thread = v.thread) (hqueue : v'.queue = v.queue)
    (hcur : v'.current = v.current) : v'.Placed := by
  refine ⟨?_, ?_, ?_, ?_, fun t ht hd hx => ?_, fun hd => ?_, ?_⟩
  · rw [hstate _ hwf.idle_mem]
    exact h.idle_normal
  · rw [hthread]
    exact h.idle_running
  · rw [hqueue, hcur]
    exact h.idle
  · rw [hqueue, hthread]
    exact h.fits
  · rw [hstate _ (hP _ ht)] at hd
    rw [hthread] at hx
    rw [hcur, hqueue]
    exact h.linked t (hP _ ht) hd hx
  · rw [hcur, hstate _ hwf.current_mem] at hd
    rw [hcur, hthread, hqueue]
    exact h.current hd
  · rw [hcur, hqueue, hthread]
    exact h.behind

end Placed

/-! ### Moves -/

/-- A thread is linked at the end of a queue, with a new state. -/
def link (q : QueueRef) (x : ThreadView) (t : ThreadRef) (v : View) : View :=
  { v with
    queue := Denotes.pushList v.queue q t
    thread := Function.update v.thread t (some x) }

lemma move_eq_link {q : QueueRef} {state : ThreadState} {t : ThreadRef} {x : ThreadView}
    (hx : v.thread t = some x) : v.move q state t = v.link q { x with state } t := by
  simp [move, setThread, link, hx]

lemma start_eq_link (t : ThreadRef) (ctx : InterruptContext) :
    v.start t ctx = v.link .ready ⟨.ready, .fresh ctx⟩ t := rfl

namespace Placed

variable {q : QueueRef} {t : ThreadRef} {x : ThreadView}

lemma sublist_erase_of_ne {i c : ThreadRef} {l : List ThreadRef} (h : [i, c].Sublist l)
    (hi : t ≠ i) (hc : t ≠ c) : [i, c].Sublist (l.erase t) := by
  have herase := h.erase t
  rwa [List.erase_of_not_mem (by simp [hi, hc])] at herase

/-- A thread other than that of `kmain` goes to the end of a queue that fits its state. -/
lemma link (h : v.Placed) (hwf : v.WF) (ht : t ≠ idleThread) (hx : q.Fits x.state) :
    (v.link q x t).Placed := by
  have hmem : ∀ q' u, u ∈ (v.link q x t).queue q' ↔ (u ∈ v.queue q' ∧ u ≠ t) ∨ (q' = q ∧ u = t) :=
    fun q' u => Denotes.mem_pushList hwf.nodup
  have hself : (v.link q x t).thread t = some x := Function.update_self ..
  have hother : ∀ u, u ≠ t → (v.link q x t).thread u = v.thread u := fun u hu =>
    Function.update_of_ne hu ..
  refine ⟨h.idle_normal, ?_, ?_, fun q' u hu y hy => ?_, fun u hu hd hne => ?_,
    fun hd hne => ?_, fun hc hne => ?_⟩
  · rw [hother _ (Ne.symm ht)]
    exact h.idle_running
  · rcases h.idle with hcur | hready
    · exact Or.inl hcur
    · exact Or.inr ((hmem _ _).2 (Or.inl ⟨hready, Ne.symm ht⟩))
  · obtain ⟨hu, hut⟩ | ⟨rfl, rfl⟩ := (hmem q' u).1 hu
    · rw [hother u hut] at hy
      exact h.fits q' u hu y hy
    · obtain rfl := Option.some.inj (hself.symm.trans hy)
      exact hx
  · by_cases hut : u = t
    · exact Or.inr ⟨q, (hmem q u).2 (Or.inr ⟨rfl, hut⟩)⟩
    · rw [hother u hut] at hne
      rcases h.linked u hu hd hne with hcur | ⟨q', hq'⟩
      · exact Or.inl hcur
      · exact Or.inr ⟨q', (hmem q' u).2 (Or.inl ⟨hq', hut⟩)⟩
  · by_cases hct : v.current = t
    · exact ⟨q, (hmem q _).2 (Or.inr ⟨rfl, hct⟩)⟩
    · have hne : (v.thread v.current).map ThreadView.state ≠ some .running := by
        rw [← hother _ hct]
        exact hne
      obtain ⟨q', hq'⟩ := h.current hd hne
      exact ⟨q', (hmem q' _).2 (Or.inl ⟨hq', hct⟩)⟩
  · change [idleThread, v.current].Sublist (Denotes.pushList v.queue q t .ready)
    obtain ⟨hready, hct⟩ | ⟨hq, hct⟩ := (hmem .ready v.current).1 hc
    · -- the thread that moves stands neither before nor behind
      have hne : (v.thread v.current).map ThreadView.state ≠ some .running := by
        rw [← hother _ hct]
        exact hne
      have hsub := sublist_erase_of_ne (h.behind hready hne) ht (Ne.symm hct)
      by_cases hq : q = .ready
      · subst hq
        rw [Denotes.pushList_self]
        exact hsub.trans (List.sublist_append_left _ _)
      · rw [Denotes.pushList_of_ne _ _ (Ne.symm hq)]
        exact hsub
    · -- the current thread itself is queued, behind the thread of `kmain`
      subst hq
      have hidle : idleThread ∈ v.queue .ready := h.idle.resolve_left fun hcur => ht (by
        rw [← hct, hcur])
      have hmem : idleThread ∈ (v.queue .ready).erase t :=
        (List.mem_erase_of_ne (Ne.symm ht)).2 hidle
      rw [Denotes.pushList_self, hct]
      exact (List.singleton_sublist.2 hmem).append (.refl [t])

lemma move (h : v.Placed) (hwf : v.WF) {state : ThreadState} (hx : v.thread t = some x)
    (ht : t ≠ idleThread) (hq : q.Fits state) : (v.move q state t).Placed := by
  rw [move_eq_link hx]
  exact h.link hwf ht hq

/-- A sleeping or waiting thread is woken. -/
lemma wake (h : v.Placed) (hwf : v.WF) (hq : q ≠ .ready) (ht : t ∈ v.queue q) :
    (v.move .ready .ready t).Placed := by
  obtain ⟨x, hx, -⟩ := hwf.used q t ht
  refine h.move hwf hx ?_ (Or.inl rfl)
  rintro rfl
  exact h.idle_not_mem hq ht

/-- The threads of another process than that of `kmain` leave the queues. -/
lemma drop (h : v.Placed) {p : ℕ} (hp : p ≠ idleProcess) {f : ℕ → ProcessView}
    {P : List ℕ} (hP : ∀ r ∈ P, r ∈ v.processes)
    (hf : ∀ r, r ≠ p → (f r).state = (v.proc r).state)
    (hgone : p ∈ P → (f p).state = .dying) (hcur : v.current.process = p → (f p).state = .dying) :
    ({ v with queue := dropProcess v.queue p, proc := f, processes := P } : View).Placed := by
  have hidle : idleThread.process ≠ p := Ne.symm hp
  refine ⟨?_, h.idle_running, ?_, fun q t ht => h.fits q t (mem_dropProcess.1 ht).1,
    fun t ht hd hx => ?_, fun hd hne => ?_, fun hc hne => ?_⟩
  · change (f idleProcess).state ≠ .dying
    rw [hf _ (Ne.symm hp)]
    exact h.idle_normal
  · rcases h.idle with hc | hready
    · exact Or.inl hc
    · exact Or.inr (mem_dropProcess.2 ⟨hready, hidle⟩)
  · have hd : (f t.process).state ≠ .dying := hd
    have htp : t.process ≠ p := by
      rintro rfl
      exact hd (hgone ht)
    rw [hf _ htp] at hd
    rcases h.linked t (hP _ ht) hd hx with hc | ⟨q, hq⟩
    · exact Or.inl hc
    · exact Or.inr ⟨q, mem_dropProcess.2 ⟨hq, htp⟩⟩
  · have hd : (f v.current.process).state ≠ .dying := hd
    have hcp : v.current.process ≠ p := fun heq => hd (heq ▸ hcur heq)
    rw [hf _ hcp] at hd
    obtain ⟨q, hq⟩ := h.current hd hne
    exact ⟨q, mem_dropProcess.2 ⟨hq, hcp⟩⟩
  · obtain ⟨hc, hcp⟩ := mem_dropProcess.1 hc
    have hsub := (h.behind hc hne).filter (·.process ≠ p)
    rw [List.filter_eq_self.2] at hsub
    · exact hsub
    · intro t ht
      rcases List.mem_pair.1 ht with rfl | rfl
      · simpa using hidle
      · simpa using hcp

lemma send (h : v.Placed) (hwf : v.WF) (p : ℕ) (m : Message) : (v.send p m).Placed := by
  have hstate : ∀ r, ((v.post p m).proc r).state = (v.proc r).state := by
    intro r
    by_cases hr : r = p
    · subst hr
      simp [View.post, View.setProc]
    · simp [View.post, View.setProc, hr]
  have hpost : (v.post p m).Placed := h.congr (fun _ hp => hp) (fun r _ => hstate r) hwf rfl rfl rfl
  have hwf' : (v.post p m).WF := { hwf with }
  unfold View.send
  cases hw : v.queue (.waiters p) with
  | nil => exact hpost
  | cons t l =>
    have ht : t ∈ (v.post p m).queue (.waiters p) := by
      change t ∈ v.queue (.waiters p)
      simp [hw]
    exact hpost.wake hwf' (by simp) ht

lemma take (h : v.Placed) (hwf : v.WF) (d : Delivery) : (v.take d).Placed := by
  refine h.congr (fun _ hp => hp) (fun r _ => ?_) hwf rfl rfl rfl
  by_cases hr : r = v.current.process
  · subst hr
    rw [take_proc_self]
  · rw [take_proc_of_ne d v hr]

lemma create (h : v.Placed) (hwf : v.WF) {p : ℕ} (hp : p ∉ v.processes) : (v.create p).Placed := by
  have hlive : ∀ t : ThreadRef, t.process ∈ v.processes → t.process ≠ p := by
    rintro t ht rfl
    exact hp ht
  have hthread : ∀ t : ThreadRef, t.process ∈ v.processes → (v.create p).thread t = v.thread t :=
    fun t ht => if_neg (hlive t ht)
  have hproc : ∀ r ∈ v.processes, (v.create p).proc r = v.proc r := by
    intro r hr
    refine Function.update_of_ne ?_ ..
    rintro rfl
    exact hp hr
  have hcur : (v.create p).thread v.current = v.thread v.current := hthread _ hwf.current_mem
  refine ⟨?_, ?_, h.idle, fun q t ht y hy => ?_, fun t ht hd hx => ?_, fun hd hne => ?_,
    fun hc hne => ?_⟩
  · rw [hproc _ hwf.idle_mem]
    exact h.idle_normal
  · rw [hthread idleThread hwf.idle_mem]
    exact h.idle_running
  · rw [hthread t (hwf.live q t ht)] at hy
    exact h.fits q t ht y hy
  · by_cases htp : t.process = p
    · exact absurd (if_pos htp) hx
    · have ht : t.process ∈ v.processes := (List.mem_cons.1 ht).resolve_left htp
      rw [hproc _ ht] at hd
      rw [hthread t ht] at hx
      exact h.linked t ht hd hx
  · have hd : ((v.create p).proc v.current.process).state ≠ .dying := hd
    rw [hproc _ hwf.current_mem] at hd
    exact h.current hd fun hrun => hne (by rw [← hrun, ← hcur]; rfl)
  · exact h.behind hc fun hrun => hne (by rw [← hrun, ← hcur]; rfl)

lemma act (h : v.Placed) (hwf : v.WF) (hact : Act takes v v') : v'.Placed := by
  cases hact with
  | wake ht => exact h.wake hwf (by simp) ht
  | start ctx hp hnone =>
    rw [start_eq_link]
    refine h.link hwf ?_ (Or.inl rfl)
    rintro rfl
    have hidle := h.idle_running
    rw [hnone] at hidle
    cases hidle
  | create hp hi => exact h.create hwf hp
  | @destroy p hp hi hcur =>
    refine h.drop hi (fun _ hr => List.mem_of_mem_erase hr) (fun _ _ => rfl)
      (fun hmem => ?_) fun hc => absurd hc hcur
    exact absurd rfl (hwf.processes_nodup.mem_erase_iff.1 hmem).1
  | send m hp hs hm => exact h.send hwf _ m
  | take hm hd ht => exact h.take hwf _

/-- Giving up the processor keeps the thread linked, unless its process is killed. -/
lemma giveUp (h : v.Placed) (hwf : v.WF) {sp0 : Context}
    (hg : GiveUp (fun v => v.current ≠ idleThread) v sp0 v') : v'.Placed := by
  obtain ⟨x, hx, -⟩ := hwf.current_used
  cases hg with
  | sleep hc => exact h.move hwf hx hc rfl
  | exit hc =>
    refine h.move hwf hx (fun hidle => hc ?_) rfl
    rw [hidle]
  | wait hm hc => exact h.move hwf hx hc rfl
  | kill hi =>
    refine h.drop hi (fun _ hr => hr) (fun r hr => ?_) (fun _ => ?_) fun _ => ?_
    · rw [Function.update_of_ne hr]
    · rw [Function.update_self]
    · rw [Function.update_self]

/-! ### The scheduler -/

lemma requeue (h : v.Placed) (hwf : v.WF) (sp0 : Context) : (v.requeue sp0).Placed := by
  obtain ⟨c, hc, -⟩ := hwf.current_used
  have hstate : ∀ t, ((v.requeue sp0).thread t).map ThreadView.state =
      (v.thread t).map ThreadView.state := by
    intro t
    rw [requeue_thread]
    by_cases ht : t = v.current
    · subst ht
      simp [hc]
    · rw [Function.update_of_ne ht]
  have hfits : ∀ q t x, t ∈ v.queue q → (v.requeue sp0).thread t = some x → q.Fits x.state := by
    intro q t x ht hx
    have hmap := hstate t
    rw [hx, Option.map_some] at hmap
    obtain ⟨y, hy, hyx⟩ := Option.map_eq_some_iff.1 hmap.symm
    rw [← hyx]
    exact h.fits q t ht y hy
  have hnone : ∀ t, (v.requeue sp0).thread t ≠ none → v.thread t ≠ none := by
    intro t ht hnone
    have hmap := hstate t
    rw [hnone, Option.map_none, Option.map_eq_none_iff] at hmap
    exact ht hmap
  have hrunning : (v.thread v.current).map ThreadView.state = some c.state := by
    rw [hc, Option.map_some]
  by_cases hrun : c.state = .running
  · -- the current thread goes to the end of the ready queue
    have hqueue : (v.requeue sp0).queue = Denotes.pushList v.queue .ready v.current := by
      rw [requeue_queue, if_pos (by rw [hrunning, hrun])]
    have hmem : ∀ q u, u ∈ (v.requeue sp0).queue q ↔
        (u ∈ v.queue q ∧ u ≠ v.current) ∨ (q = .ready ∧ u = v.current) := by
      intro q u
      rw [hqueue]
      exact Denotes.mem_pushList hwf.nodup
    have hrun' : ((v.requeue sp0).thread (v.requeue sp0).current).map ThreadView.state =
        some .running := by
      rw [requeue_current, hstate, hrunning, hrun]
    refine ⟨?_, ?_, ?_, fun q u hu x hx => ?_, fun t ht hd hx => ?_,
      fun _ hne => absurd hrun' hne, fun _ hne => absurd hrun' hne⟩
    · rw [requeue_proc]
      exact h.idle_normal
    · rw [hstate]
      exact h.idle_running
    · rw [requeue_current]
      by_cases hidle : v.current = idleThread
      · exact Or.inl hidle
      · exact Or.inr ((hmem _ _).2 (Or.inl ⟨h.idle.resolve_left hidle, Ne.symm hidle⟩))
    · obtain ⟨hu, -⟩ | ⟨rfl, rfl⟩ := (hmem q u).1 hu
      · exact hfits q u x hu hx
      · have hmap := hstate v.current
        rw [hx, hrunning, hrun] at hmap
        exact Or.inr (Option.some.inj hmap)
    · rw [requeue_processes] at ht
      rw [requeue_proc] at hd
      rw [requeue_current]
      by_cases htc : t = v.current
      · exact Or.inl htc
      · rcases h.linked t ht hd (hnone t hx) with hcur | ⟨q, hq⟩
        · exact absurd hcur htc
        · exact Or.inr ⟨q, (hmem q t).2 (Or.inl ⟨hq, htc⟩)⟩
  · have hqueue : (v.requeue sp0).queue = v.queue := by
      rw [requeue_queue, if_neg (by rw [hrunning]; exact fun heq => hrun (Option.some.inj heq))]
    refine ⟨?_, ?_, ?_, fun q u hu x hx => ?_, fun t ht hd hx => ?_, fun hd hne => ?_,
      fun hready hne => ?_⟩
    · rw [requeue_proc]
      exact h.idle_normal
    · rw [hstate]
      exact h.idle_running
    · rw [requeue_current, hqueue]
      exact h.idle
    · rw [hqueue] at hu
      exact hfits q u x hu hx
    · rw [requeue_processes] at ht
      rw [requeue_proc] at hd
      rw [requeue_current, hqueue]
      exact h.linked t ht hd (hnone t hx)
    · rw [requeue_current, requeue_proc] at hd
      rw [requeue_current, hstate] at hne
      rw [requeue_current, hqueue]
      exact h.current hd hne
    · rw [requeue_current, hstate] at hne
      rw [requeue_current, hqueue] at hready ⊢
      exact h.behind hready hne

lemma mem_skip {l : List ThreadRef} {n u : ThreadRef} {q : QueueRef} (hl : v.queue .ready = n :: l)
    (hu : u ∈ v.queue q) (hun : u ≠ n) : u ∈ (v.skip l).queue q := by
  by_cases hq : q = .ready
  · subst hq
    rw [hl] at hu
    rw [skip_queue, Function.update_self]
    exact (List.mem_cons.1 hu).resolve_left hun
  · rw [skip_queue, Function.update_of_ne hq]
    exact hu

lemma of_mem_skip {l : List ThreadRef} {n u : ThreadRef} {q : QueueRef}
    (hl : v.queue .ready = n :: l) (hu : u ∈ (v.skip l).queue q) : u ∈ v.queue q := by
  by_cases hq : q = .ready
  · subst hq
    rw [skip_queue, Function.update_self] at hu
    rw [hl]
    exact List.mem_cons_of_mem n hu
  · rwa [skip_queue, Function.update_of_ne hq] at hu

/-- The first thread of the ready queue is not a current thread that would be lost. -/
lemma head_running (h : v.Placed) (hwf : v.WF) {l : List ThreadRef}
    (hl : v.queue .ready = v.current :: l) :
    (v.thread v.current).map ThreadView.state = some .running := by
  by_contra hne
  have hmem : v.current ∈ v.queue .ready := by simp [hl]
  have hsub := h.behind hmem hne
  have hnd := hwf.nodup .ready
  rw [hl] at hsub hnd
  have hout := (List.nodup_cons.1 hnd).1
  rcases List.sublist_cons_iff.1 hsub with hsub | ⟨r, hr, hsub⟩
  · exact hout (hsub.subset (by simp))
  · obtain ⟨-, rfl⟩ := List.cons.inj hr
    exact hout (hsub.subset (by simp))

/-- The scheduler takes the current thread or one of a dying process off the ready queue. -/
lemma skip (h : v.Placed) (hwf : v.WF) {n : ThreadRef} {l : List ThreadRef}
    (hl : v.queue .ready = n :: l) (hn : n = v.current ∨ (v.proc n.process).state = .dying) :
    (v.skip l).Placed := by
  have hidle : n = v.current ∨ idleThread ≠ n := by
    rcases hn with hn | hn
    · exact Or.inl hn
    · refine Or.inr ?_
      rintro rfl
      exact h.idle_normal hn
  refine ⟨h.idle_normal, h.idle_running, ?_, fun q t ht => h.fits q t (of_mem_skip hl ht),
    fun t ht hd hx => ?_, fun hd hne => ?_, fun hc hne => ?_⟩
  · rcases h.idle with hcur | hready
    · exact Or.inl hcur
    · by_cases hin : idleThread = n
      · rcases hidle with hnc | hni
        · exact Or.inl (hnc.symm.trans hin.symm)
        · exact absurd hin hni
      · exact Or.inr (mem_skip hl hready hin)
  · rcases h.linked t ht hd hx with hcur | ⟨q, hq⟩
    · exact Or.inl hcur
    · by_cases htn : t = n
      · subst htn
        exact Or.inl (hn.resolve_right hd)
      · exact Or.inr ⟨q, mem_skip hl hq htn⟩
  · obtain ⟨q, hq⟩ := h.current hd hne
    refine ⟨q, mem_skip hl hq ?_⟩
    rintro rfl
    exact hne (h.head_running hwf hl)
  · have hsub := h.behind (of_mem_skip hl hc) hne
    change [idleThread, v.current].Sublist ((v.skip l).queue .ready)
    rw [skip_queue, Function.update_self]
    rw [hl] at hsub
    rcases List.sublist_cons_iff.1 hsub with hsub | ⟨r, hr, -⟩
    · exact hsub
    · -- the thread of `kmain` is not passed over
      obtain ⟨hin, -⟩ := List.cons.inj hr
      rcases hidle with hnc | hni
      · exact absurd (hnc.symm.trans hin.symm) (h.current_ne_idle hne)
      · exact absurd hin hni

/-- The scheduler takes another thread off the ready queue, and dispatches it. -/
lemma dispatch (h : v.Placed) (hwf : v.WF) {n : ThreadRef} {l : List ThreadRef}
    (hl : v.queue .ready = n :: l)
    (hrun : (v.thread v.current).map ThreadView.state = some .running →
      v.current ∈ v.queue .ready)
    (hn : n ≠ v.current) : (v.dispatch n l).Placed := by
  obtain ⟨x, hx, -⟩ := hwf.used .ready n (by simp [hl])
  have hself : (v.dispatch n l).thread n = some { x with state := .running } := by
    simp [View.dispatch, View.setThread, View.skip, hx]
  have hother : ∀ u, u ≠ n → (v.dispatch n l).thread u = v.thread u := fun u hu =>
    Function.update_of_ne hu ..
  have hsame : ∀ q, (v.dispatch n l).queue q = (v.skip l).queue q := fun _ => rfl
  have hrun' : ((v.dispatch n l).thread (v.dispatch n l).current).map ThreadView.state =
      some .running := by
    change ((v.dispatch n l).thread n).map ThreadView.state = some .running
    rw [hself, Option.map_some]
  have hgone : ∀ q, n ∉ (v.skip l).queue q := by
    intro q hq
    have hmem : n ∈ v.queue .ready := by simp [hl]
    have hnd := hwf.nodup .ready
    obtain rfl := hwf.unique _ _ n (of_mem_skip hl hq) hmem
    rw [skip_queue, Function.update_self] at hq
    rw [hl] at hnd
    exact (List.nodup_cons.1 hnd).1 hq
  refine ⟨h.idle_normal, ?_, ?_, fun q t ht y hy => ?_, fun t ht hd hne => ?_,
    fun _ hne => absurd hrun' hne, fun _ hne => absurd hrun' hne⟩
  · by_cases hin : idleThread = n
    · rw [hin, hself, Option.map_some]
    · rw [hother _ hin]
      exact h.idle_running
  · by_cases hin : idleThread = n
    · exact Or.inl hin.symm
    · refine Or.inr ?_
      rw [hsame]
      refine mem_skip hl ?_ hin
      rcases h.idle with hcur | hready
      · rw [← hcur]
        exact hrun (by rw [hcur]; exact h.idle_running)
      · exact hready
  · rw [hsame] at ht
    have htn : t ≠ n := by
      rintro rfl
      exact hgone q ht
    rw [hother t htn] at hy
    exact h.fits q t (of_mem_skip hl ht) y hy
  · by_cases htn : t = n
    · exact Or.inl htn
    · refine Or.inr ?_
      rw [hother t htn] at hne
      have hlinked : ∃ q, t ∈ v.queue q := by
        rcases h.linked t ht hd hne with rfl | hq
        · by_cases hstate : (v.thread v.current).map ThreadView.state = some .running
          · exact ⟨.ready, hrun hstate⟩
          · exact h.current hd hstate
        · exact hq
      obtain ⟨q, hq⟩ := hlinked
      exact ⟨q, mem_skip hl hq htn⟩

lemma schedule (h : v.Placed) (hwf : v.WF) {sp0 : Context} {b : Bool} {v₁ v₂ : View}
    (hs : Schedule sp0 v b v₁) (hwf₁ : v₁.WF) (hafter : After b v₁ v₂) : v₂.Placed := by
  have h₁ : v₁.Placed := by
    have hq := h.requeue hwf sp0
    have hwfq := hwf.requeue sp0
    cases hs with
    | idle hnil => exact h
    | keep hl hn =>
      refine hq.skip hwfq hl ?_
      rw [requeue_current, requeue_proc]
      exact hn
    | switch hl hn hd =>
      refine hq.dispatch hwfq hl (fun hrun => ?_) (by rwa [requeue_current])
      rw [requeue_current, requeue_thread, Function.update_self, Option.map_map] at hrun
      rw [requeue_current, requeue_queue]
      split_ifs with hrun'
      · rw [Denotes.pushList_self]
        simp
      · exact absurd hrun hrun'
  cases hafter with
  | returned => exact h₁
  | stopped => exact h₁.congr (fun _ hp => hp) (fun _ _ => rfl) hwf₁ rfl rfl rfl
  | elsewhere => exact h₁
  | starved => exact h₁
  | received => exact h₁.take hwf₁ _

lemma step (h : v.Placed) (hs : View.Step takes (fun v => v.current ≠ idleThread) v v') :
    v'.Placed :=
  hs.invariant (J := View.Placed) (K := fun _ => View.Placed)
    (fun _ _ hwf hJ hact => hJ.act hwf hact)
    (fun _ _ hJ => hJ)
    (fun _ _ _ hwf _ hJ hg => hJ.giveUp hwf hg)
    (fun _ _ _ _ _ hwf hK hs hwf₁ hafter => hK.schedule hwf hs hwf₁ hafter) h

end Placed

end View

/-! ### Runs -/

variable {s : Kernel}

end Gummy
