import Gummy.Kernel.Messages
import Gummy.Kernel.Spawning

/-!
Messages that are meant for woken threads.

A thread that `ipc_send` has woken does not hold its message yet: any thread of the process
may take it first.  In runs in which nobody does, each woken thread has a message of its own
in the mailbox, and finds it when it goes on.
-/

namespace Gummy

open CWord

open View (Act Acts GiveUp Calls Resumes Schedule After)

open Transition (Reachable)

variable {waits : View → Prop} {v v' : View}

namespace View

/-! ### The invariant -/

/-- There is a message for each woken thread.  Nobody who sleeps will go on in `ipc_receive`. -/
structure Reserved (v : View) : Prop where
  enough : ∀ p ∈ v.processes, (v.woken p).length ≤ (v.proc p).mailbox.length
  sleepers : ∀ t ∈ v.queue .sleep, t ≠ v.current → v.receiving t = false

/-- The current process has more messages than woken threads. -/
def Surplus (v : View) : Prop :=
  (v.woken v.current.process).length < (v.proc v.current.process).mailbox.length

lemma Reserved.init : View.init.Reserved := by
  refine ⟨?_, ?_⟩ <;> simp [View.init, woken]

/-- A change after which no more threads are woken, and no fewer messages are there. -/
lemma Reserved.mono (h : v.Reserved) (hcur : v'.current = v.current)
    (henough : ∀ p ∈ v'.processes, p ∈ v.processes → (v'.woken p).length ≤ (v.woken p).length ∧
      (v.proc p).mailbox.length ≤ (v'.proc p).mailbox.length)
    (hnew : ∀ p ∈ v'.processes, p ∉ v.processes → v'.woken p = [])
    (hsleep : ∀ t ∈ v'.queue .sleep, t ≠ v.current →
      t ∈ v.queue .sleep ∧ v'.receiving t = v.receiving t) :
    v'.Reserved := by
  refine ⟨fun p hp => ?_, fun t ht htc => ?_⟩
  · by_cases hold : p ∈ v.processes
    · obtain ⟨hwoken, hmail⟩ := henough p hp hold
      exact hwoken.trans ((h.enough p hold).trans hmail)
    · rw [hnew p hp hold]
      exact Nat.zero_le _
  · rw [hcur] at htc
    obtain ⟨ht, hrec⟩ := hsleep t ht htc
    rw [hrec]
    exact h.sleepers t ht htc

/-- Nobody is woken in a process whose threads are queued nowhere. -/
lemma woken_eq_nil {p : ℕ} (h : ∀ t ∈ v.queue .ready, t.process ≠ p) : v.woken p = [] := by
  refine List.filter_eq_nil_iff.2 fun t ht hw => ?_
  simp only [decide_eq_true_eq] at hw
  exact h t ht hw.1

lemma move_sleep {q : QueueRef} (hq : q ≠ .sleep) (state : ThreadState) (t : ThreadRef) :
    (v.move q state t).queue .sleep = (v.queue .sleep).erase t :=
  Denotes.pushList_of_ne v.queue t (Ne.symm hq)

/-- A thread moves to the ready queue; if it counts as woken then, there is a message more. -/
lemma Reserved.move_ready (h : v.Reserved) {t : ThreadRef} (ht : t ∉ v.queue .ready)
    (hmail : t ≠ v.current → v.receiving t = true →
      (v.woken t.process).length < (v.proc t.process).mailbox.length) :
    (v.move .ready .ready t).Reserved := by
  refine ⟨fun p hp => ?_, fun u hu huc => ?_⟩
  · rw [woken_move_ready ht]
    change _ ≤ (v.proc p).mailbox.length
    split_ifs with hw
    · obtain ⟨rfl, htc, hrec⟩ := hw
      rw [List.length_append, List.length_singleton]
      exact hmail htc hrec
    · rw [List.append_nil]
      exact h.enough p hp
  · rw [move_sleep (by simp)] at hu
    rw [receiving_move]
    exact h.sleepers u (List.mem_of_mem_erase hu) huc

lemma Reserved.start (h : v.Reserved) (hwf : v.WF) {t : ThreadRef} (ctx : InterruptContext)
    (hnone : v.thread t = none) : (v.start t ctx).Reserved := by
  have hout : ∀ q, t ∉ v.queue q := by
    intro q ht
    obtain ⟨x, hx, -⟩ := hwf.used q t ht
    exact Option.some_ne_none x (hx.symm.trans hnone)
  rw [start_eq_move]
  obtain ⟨w, hw⟩ : ∃ w : View, w =
      { v with thread := Function.update v.thread t (some ⟨.running, .fresh ctx⟩) } := ⟨_, rfl⟩
  rw [← hw]
  have hthread : w.thread = Function.update v.thread t (some ⟨.running, .fresh ctx⟩) := by rw [hw]
  have hrec : ∀ q, ∀ u ∈ v.queue q, w.receiving u = v.receiving u := by
    intro q u hu
    have hut : u ≠ t := by
      rintro rfl
      exact hout q hu
    rw [View.receiving, hthread, Function.update_of_ne hut, View.receiving]
  have hcur : w.current = v.current := by rw [hw]
  have hqueue : w.queue = v.queue := by rw [hw]
  have hproc : w.proc = v.proc := by rw [hw]
  have hP : w.processes = v.processes := by rw [hw]
  have hset : w.Reserved := by
    refine h.mono hcur (fun p _ _ => ⟨?_, by rw [hproc]⟩) (fun p hp hn => absurd (hP ▸ hp) hn)
      fun u hu _ => ⟨hqueue ▸ hu, hrec _ u (hqueue ▸ hu)⟩
    rw [woken_congr hcur (by rw [hqueue]) fun u hu _ => hrec .ready u (hqueue ▸ hu)]
  refine hset.move_ready (by rw [hqueue]; exact hout .ready) fun _ ht => ?_
  rw [View.receiving, hthread, Function.update_self] at ht
  exact absurd ht Bool.false_ne_true

lemma Reserved.create (h : v.Reserved) (hwf : v.WF) {p : ℕ} (hp : p ∉ v.processes) :
    (v.create p).Reserved := by
  have hlive : ∀ q, ∀ t ∈ v.queue q, t.process ≠ p := by
    rintro q t ht rfl
    exact hp (hwf.live q t ht)
  have hrec : ∀ q, ∀ t ∈ v.queue q, (v.create p).receiving t = v.receiving t := by
    intro q t ht
    simp [View.receiving, View.create, hlive q t ht]
  refine h.mono rfl (fun q _ hq => ⟨?_, ?_⟩) (fun q hq hnew => ?_) fun t ht _ => ⟨ht, hrec _ t ht⟩
  · have hwoken : (v.create p).woken q = v.woken q :=
      @woken_congr v (v.create p) rfl rfl (fun t ht _ => hrec _ t ht) q
    rw [hwoken]
  · have hqp : q ≠ p := by
      rintro rfl
      exact hp hq
    exact (congrArg (fun x => x.mailbox.length) (Function.update_of_ne hqp _ v.proc)).ge
  · obtain rfl := (List.mem_cons.1 hq).resolve_right hnew
    exact woken_eq_nil (hlive .ready)

/-- The threads of a process leave the queues. -/
lemma Reserved.drop (h : v.Reserved) (p : ℕ) {f : ℕ → ProcessView} {P : List ℕ}
    (hP : ∀ q ∈ P, q ∈ v.processes) (hf : ∀ q, (f q).mailbox = (v.proc q).mailbox) :
    ({ v with queue := dropProcess v.queue p, proc := f, processes := P } : View).Reserved := by
  refine h.mono rfl (fun q _ _ => ⟨?_, ?_⟩) (fun q hq hn => absurd (hP q hq) hn) fun t ht _ =>
    ⟨(mem_dropProcess.1 ht).1, rfl⟩
  · by_cases hq : q = p
    · subst hq
      rw [woken_eq_nil fun t ht => (mem_dropProcess.1 ht).2]
      exact Nat.zero_le _
    · rw [woken_dropProcess hq]
  · exact (congrArg List.length (hf q)).ge

lemma Reserved.post (h : v.Reserved) (p : ℕ) (m : Message) : (v.post p m).Reserved := by
  refine h.mono rfl (fun q _ _ => ⟨le_rfl, ?_⟩) (fun q hq hn => absurd hq hn)
    fun t ht _ => ⟨ht, rfl⟩
  by_cases hq : q = p
  · subst hq
    simp [View.post, View.setProc]
  · exact (congrArg (fun x => x.mailbox.length) (Function.update_of_ne hq _ v.proc)).ge

/-- The message comes with the thread that is woken for it. -/
lemma Reserved.send (h : v.Reserved) (hwf : v.WF) {p : ℕ} (hp : p ∈ v.processes) (m : Message) :
    (v.send p m).Reserved := by
  unfold View.send
  cases hw : v.queue (.waiters p) with
  | nil => exact h.post p m
  | cons t l =>
    have ht : t ∈ v.queue (.waiters p) := by simp [hw]
    have htp : t.process = p := hwf.waiters p t ht
    refine (h.post p m).move_ready (fun htr => ?_) fun _ _ => ?_
    · exact absurd (hwf.unique _ _ t htr ht) (by simp)
    · have hself : (v.post p m).proc p = { v.proc p with
          mailbox := (v.proc p).mailbox ++ [m], accepted := (v.proc p).accepted ++ [m] } :=
        Function.update_self ..
      rw [htp, hself, List.length_append]
      exact Nat.lt_succ_of_le (h.enough p hp)

/-- A message is taken that nobody has been woken for. -/
lemma Reserved.take (h : v.Reserved) (hs : v.Surplus) (d : Delivery) : (v.take d).Reserved := by
  refine ⟨fun p hp => ?_, h.sleepers⟩
  change (v.woken p).length ≤ _
  by_cases hpc : p = v.current.process
  · subst hpc
    rw [take_proc_self]
    dsimp only
    rw [List.length_tail]
    exact Nat.le_sub_one_of_lt hs
  · rw [take_proc_of_ne d v hpc]
    exact h.enough p hp

lemma Reserved.act (h : v.Reserved) (hwf : v.WF) (hact : Act Surplus v v') : v'.Reserved := by
  cases hact with
  | wake ht =>
    refine h.move_ready (fun htr => ?_) fun htc hrec => ?_
    · exact absurd (hwf.unique _ _ _ ht htr) (by simp)
    · rw [h.sleepers _ ht htc] at hrec
      exact absurd hrec Bool.false_ne_true
  | start ctx hp hnone => exact h.start hwf ctx hnone
  | create hp hi => exact h.create hwf hp
  | destroy hp hi hcur => exact h.drop _ (fun q hq => List.mem_of_mem_erase hq) fun _ => rfl
  | send m hp hs hm => exact h.send hwf hp m
  | take hm hd ht => exact h.take ht _

/-! ### The scheduler -/

/-- What holds when the scheduler is called with the context `sp0`: a thread that will go on in
`ipc_receive` is in none of the queues that count. -/
structure Leaving (sp0 : Context) (v : View) : Prop where
  reserved : v.Reserved
  waits : sp0.isReceive = true → v.current ∉ v.queue .ready ∧ v.current ∉ v.queue .sleep ∧
    (v.thread v.current).map ThreadView.state ≠ some .running

lemma Reserved.move_current (h : v.Reserved) (hwf : v.WF) {q : QueueRef} (hq : q ≠ .ready)
    (state : ThreadState) : (v.move q state v.current).Reserved := by
  refine ⟨fun p hp => ?_, fun t ht htc => ?_⟩
  · rw [woken_move_current hwf hq]
    exact h.enough p hp
  · rw [receiving_move]
    obtain ⟨ht, -⟩ | ⟨-, rfl⟩ := (Denotes.mem_pushList hwf.nodup).1 ht
    · exact h.sleepers t ht htc
    · exact absurd rfl htc

lemma Leaving.giveUp (h : v.Reserved) (hwf : v.WF) {sp0 : Context}
    (hg : GiveUp waits v sp0 v') : v'.Leaving sp0 := by
  cases hg with
  | sleep hc => exact ⟨h.move_current hwf (by simp) _, fun hrec => absurd hrec Bool.false_ne_true⟩
  | exit hc => exact ⟨h.move_current hwf (by simp) _, fun hrec => absurd hrec Bool.false_ne_true⟩
  | wait hm hw =>
    have hout : ∀ q, q ≠ .waiters v.current.process →
        v.current ∉ (v.move (.waiters v.current.process) .blocked v.current).queue q := by
      intro q hq ht
      obtain ⟨-, hne⟩ | ⟨heq, -⟩ := (Denotes.mem_pushList hwf.nodup).1 ht
      · exact hne rfl
      · exact hq heq
    refine ⟨h.move_current hwf (by simp) _, fun _ =>
      ⟨hout .ready (by simp), hout .sleep (by simp), ?_⟩⟩
    obtain ⟨x, hx, -⟩ := hwf.current_used
    simp [View.move, View.setThread, hx]
  | kill hi =>
    refine ⟨h.drop _ (fun _ hp => hp) fun q => ?_, fun hrec => absurd hrec Bool.false_ne_true⟩
    by_cases hq : q = v.current.process
    · rw [hq, Function.update_self]
    · rw [Function.update_of_ne hq]

/-- A thread has been dispatched: if it goes on in `ipc_receive`, there is a message for it
besides those for the woken threads. -/
structure Served (v : View) : Prop where
  enough : ∀ p ∈ v.processes, (v.woken p).length +
    (if v.current.process = p ∧ v.receiving v.current = true then 1 else 0) ≤
      (v.proc p).mailbox.length
  sleepers : ∀ t ∈ v.queue .sleep, t ≠ v.current → v.receiving t = false

lemma Served.reserved (h : v.Served) : v.Reserved :=
  ⟨fun p hp => (Nat.le_add_right _ _).trans (h.enough p hp), h.sleepers⟩

/-- The thread that goes on finds a message. -/
lemma Served.mailbox_pos (h : v.Served) (hwf : v.WF) (hrec : v.receiving v.current = true) :
    0 < (v.proc v.current.process).mailbox.length := by
  have henough := h.enough _ hwf.current_mem
  rw [if_pos ⟨rfl, hrec⟩] at henough
  omega

lemma Served.take (h : v.Served) (hrec : v.receiving v.current = true) (d : Delivery) :
    (v.take d).Reserved := by
  refine ⟨fun p hp => ?_, h.sleepers⟩
  change (v.woken p).length ≤ _
  have henough := h.enough p hp
  by_cases hpc : p = v.current.process
  · subst hpc
    rw [if_pos ⟨rfl, hrec⟩] at henough
    rw [take_proc_self]
    dsimp only
    rw [List.length_tail]
    omega
  · rw [take_proc_of_ne d v hpc]
    exact (Nat.le_add_right _ _).trans henough

/-- `requeue` puts nobody to sleep. -/
lemma requeue_sleep (sp0 : Context) {t : ThreadRef} (ht : t ∈ (v.requeue sp0).queue .sleep) :
    t ∈ v.queue .sleep := by
  rw [requeue_queue] at ht
  split_ifs at ht
  · rw [Denotes.pushList_of_ne _ _ (by simp)] at ht
    exact List.mem_of_mem_erase ht
  · exact ht

/-- Who is dispatched leaves the woken threads. -/
lemma Leaving.dispatch {sp0 : Context} {n : ThreadRef} {l : List ThreadRef}
    (h : v.Leaving sp0) (hwf : v.WF) (hl : (v.requeue sp0).queue .ready = n :: l)
    (hn : n ≠ v.current) : ((v.requeue sp0).dispatch n l).Served := by
  have hwf' := hwf.requeue sp0
  have hnd : (n :: l).Nodup := hl ▸ hwf'.nodup .ready
  have hrec : ∀ t, ((v.requeue sp0).dispatch n l).receiving t = (v.requeue sp0).receiving t :=
    fun t => receiving_setThread (v := { (v.requeue sp0).skip l with current := n }) n
      (f := ({ · with state := .running })) (fun _ => rfl) t
  -- the thread that has called the scheduler is queued only if it does not receive
  have hold : ∀ q, q = .ready ∨ q = .sleep → v.current ∈ (v.requeue sp0).queue q →
      (v.requeue sp0).receiving v.current = false := by
    intro q hq ht
    rw [receiving_requeue_current hwf]
    cases hsp0 : sp0.isReceive with
    | false => rfl
    | true =>
      obtain ⟨hready, hsleep, hstate⟩ := h.waits hsp0
      rw [requeue_queue, if_neg hstate] at ht
      rcases hq with rfl | rfl
      · exact absurd ht hready
      · exact absurd ht hsleep
  refine ⟨fun p hp => ?_, fun t ht htn => ?_⟩
  · have hproc : ((v.requeue sp0).dispatch n l).proc = v.proc := requeue_proc sp0 v
    have hP : ((v.requeue sp0).dispatch n l).processes = v.processes := requeue_processes sp0 v
    rw [hP] at hp
    rw [hproc]
    refine le_trans (le_of_eq ?_) (h.reserved.enough p hp)
    have hwoken : (v.requeue sp0).woken p = (n :: l).filter fun t => t.process = p ∧
        t ≠ (v.requeue sp0).current ∧ (v.requeue sp0).receiving t := by
      rw [woken, hl]
    rw [← woken_requeue hwf sp0 p, hwoken, List.filter_cons]
    have hnew : ((v.requeue sp0).dispatch n l).woken p = l.filter fun t => t.process = p ∧
        t ≠ (v.requeue sp0).current ∧ (v.requeue sp0).receiving t := by
      have hqueue : ((v.requeue sp0).dispatch n l).queue .ready = l := by simp
      rw [woken, hqueue]
      refine List.filter_congr fun t ht => ?_
      rw [hrec, decide_eq_decide, requeue_current]
      refine and_congr_right fun _ => and_congr_left fun htrec => ?_
      refine iff_of_true ?_ ?_
      · rintro rfl
        exact (List.nodup_cons.1 hnd).1 ht
      · rintro rfl
        rw [hold .ready (Or.inl rfl) (hl ▸ List.mem_cons_of_mem n ht)] at htrec
        exact absurd htrec Bool.false_ne_true
    have hcur : ((v.requeue sp0).dispatch n l).current = n := rfl
    rw [hnew, hcur, hrec]
    simp only [requeue_current, decide_eq_true_eq]
    by_cases hcount : n.process = p ∧ (v.requeue sp0).receiving n = true
    · rw [if_pos hcount, if_pos ⟨hcount.1, hn, hcount.2⟩, List.length_cons]
    · rw [if_neg hcount, if_neg fun hc => hcount ⟨hc.1, hc.2.2⟩, Nat.add_zero]
  · have hqueue : ((v.requeue sp0).dispatch n l).queue .sleep = (v.requeue sp0).queue .sleep := by
      simp
    rw [hqueue] at ht
    rw [hrec]
    by_cases htc : t = v.current
    · subst htc
      exact hold .sleep (Or.inr rfl) ht
    · rw [receiving_requeue sp0 htc]
      exact h.reserved.sleepers t (requeue_sleep sp0 ht) htc

/-- The first thread of the ready queue is taken off, and the current one goes on. -/
lemma Leaving.keep {sp0 : Context} {n : ThreadRef} {l : List ThreadRef} (h : v.Leaving sp0)
    (hwf : v.WF) (hl : (v.requeue sp0).queue .ready = n :: l) :
    ((v.requeue sp0).skip l).Reserved := by
  refine h.reserved.mono (requeue_current sp0 v) (fun p hp _ => ⟨?_, ?_⟩) (fun p hp hn => ?_)
    fun t ht htc => ⟨requeue_sleep sp0 ht, receiving_requeue sp0 htc⟩
  · rw [← woken_requeue hwf sp0 p, woken, woken, hl]
    have hqueue : ((v.requeue sp0).skip l).queue .ready = l := by simp
    rw [hqueue]
    exact ((List.sublist_cons_self n l).filter _).length_le
  · exact (congrArg (fun f => (f p).mailbox.length) (requeue_proc sp0 v)).ge
  · exact absurd (requeue_processes sp0 v ▸ hp) hn

lemma Leaving.schedule {sp0 : Context} {b : Bool} {v₁ : View} (h : v.Leaving sp0) (hwf : v.WF)
    (hs : Schedule sp0 v b v₁) : (b = false → v₁.Reserved) ∧ (b = true → v₁.Served) := by
  cases hs with
  | idle hnil => exact ⟨fun _ => h.reserved, fun hb => absurd hb Bool.false_ne_true⟩
  | keep hl hn => exact ⟨fun _ => h.keep hwf hl, fun hb => absurd hb Bool.false_ne_true⟩
  | switch hl hn hd =>
    exact ⟨fun hb => absurd hb.symm Bool.false_ne_true, fun _ => h.dispatch hwf hl hn⟩

lemma Leaving.after {sp0 : Context} {b : Bool} {v₁ v₂ : View} (h : v.Leaving sp0) (hwf : v.WF)
    (hs : Schedule sp0 v b v₁) (hafter : After b v₁ v₂) : v₂.Reserved := by
  obtain ⟨hkeep, hswitch⟩ := h.schedule hwf hs
  cases hafter with
  | returned => exact hkeep rfl
  | stopped => exact { hkeep rfl with }
  | elsewhere he => exact (hswitch rfl).reserved
  | starved hr hm => exact (hswitch rfl).reserved
  | received hr hm hd => exact (hswitch rfl).take (resumes_iff.1 hr) _

lemma Reserved.step (h : v.Reserved) (hs : View.Step Surplus waits v v') : v'.Reserved :=
  hs.invariant (J := Reserved) (K := Leaving) (fun _ _ hwf hJ hact => hJ.act hwf hact)
    (fun _ _ hJ => ⟨hJ, fun hrec => absurd hrec Bool.false_ne_true⟩)
    (fun _ _ _ hwf _ hJ hg => .giveUp hJ hwf hg)
    (fun _ _ _ _ _ hwf hK hs _ hafter => hK.after hwf hs hafter) h

end View

/-! ### Runs -/

variable {s s₁ s₂ : Kernel}

/-- A call of `ipc_receive` takes a message right away only if there are more of them than
threads of the process that were woken and have not taken theirs yet. -/
def LeavesReserved (s : Kernel) : Event → Prop
  | .receive senderPid buffer size =>
    let p := s.currentThread.process
    ReceiveArgs (u32 senderPid) (u32 buffer) (u32 size) → (s.proc p).ringBuffer.count ≠ 0 →
      (wokenReceivers s p).length < (s.proc p).ringBuffer.count
  | _ => True

lemma LeavesReserved.surplus (h : Abs s v []) {e : Event} (hl : LeavesReserved s e)
    (he : e.Receives) (hm : (v.proc v.current.process).mailbox ≠ []) : v.Surplus := by
  cases e with
  | receive senderPid buffer size =>
    rw [LeavesReserved, h.current, h.wokenReceivers, h.count_eq h.wf.current_mem] at hl
    exact hl he (mt List.length_eq_zero_iff.1 hm)
  | _ => exact he.elim

/-- What a thread asks for that waits in `ipc_receive`. -/
def Context.request : Context → Option (ℕ × ℕ × ℕ)
  | .receive senderPid buffer size => some (senderPid, buffer, size)
  | _ => none

lemma Context.eq_of_request {c : Context} {senderPid buffer size : ℕ}
    (h : c.request = some (senderPid, buffer, size)) : c = .receive senderPid buffer size := by
  cases c with
  | receive senderPid' buffer' size' =>
    obtain ⟨rfl, rfl, rfl⟩ : senderPid' = senderPid ∧ buffer' = buffer ∧ size' = size := by
      simpa [Context.request] using h
    rfl
  | _ => cases h

/-- Whoever goes on in `ipc_receive` gets a message, if no receive in the run has taken a
message that was meant for a woken thread. -/
theorem resumed_receive_gets_message
    (h : Reachable Init (Transition.restrict Step LeavesReserved) s) {e : Event}
    (hadm : Admissible s e) (hl : LeavesReserved s e) {sp0 : Context} {rest : Kernel → Kernel}
    (hcall : handle e s = .call sp0 rest s₁) (hswitch : schedule sp0 s₁ = (true, s₂))
    {senderPid buffer size : ℕ}
    (hgo : (s₂.thread s₂.currentThread).sp0 = .receive senderPid buffer size) :
    ∃ d s₃, ipcTake senderPid buffer size s₂ = (0, s₃) ∧
      s₃.delivered s₂.currentThread.process = s₂.delivered s₂.currentThread.process ++ [d] ∧
      (s.halted = false → step s e = s₃.setEax s₂.currentThread 0) := by
  obtain ⟨v, habs, hJ⟩ := reachable_view View.Surplus (fun _ => True) (J := View.Reserved)
    .init (fun v v' _ hJ hstep => hJ.step hstep)
    (fun s v e habs _ _ hl => ⟨fun he hm => hl.surplus habs he hm, fun _ _ => trivial⟩) h
  have hhandle : (handle e s).Refines View.Surplus (fun _ => True) v :=
    habs.handle hadm (fun he hm => hl.surplus habs he hm) (fun _ _ => trivial)
  rw [hcall] at hhandle
  obtain ⟨v₁, v₂, hacts, hcalls, habs₁, -⟩ := hhandle
  have hleave : v₂.Leaving sp0 := by
    have hv₁ := hacts.invariant (J := View.Reserved) (fun _ _ hwf hJ hact => hJ.act hwf hact) hJ
    rcases hcalls with ⟨rfl, rfl⟩ | ⟨hwf₁, hg⟩
    · exact ⟨hv₁, fun hrec => absurd hrec Bool.false_ne_true⟩
    · exact .giveUp hv₁ hwf₁ hg
  obtain ⟨b, s', v₃, heq, hs, habs₂⟩ := habs₁.schedule sp0
  obtain ⟨rfl, rfl⟩ := Prod.mk.inj (hswitch.symm.trans heq)
  have hserved := (hleave.schedule habs₁.wf hs).2 rfl
  have hrec : v₃.receiving v₃.current = true := by
    rw [View.receiving, habs₂.current_view, hgo]
    rfl
  have hpos := hserved.mailbox_pos habs₂.wf hrec
  obtain ⟨m, l, hm⟩ := List.exists_cons_of_length_pos hpos
  obtain ⟨d, s₃, htake, -, -, -, -, -, habs₃⟩ := habs₂.ipcTake_cons hm senderPid buffer size
  refine ⟨d, s₃, htake, ?_, fun hrun => ?_⟩
  · have hp := habs₂.wf.current_mem
    rw [habs₂.current, (habs₃.proc _ hp).delivered, (habs₂.proc _ hp).delivered,
      View.take_proc_self]
  · have hrun₂ : s₂.halted = false := by
      have hsame : v₂.halted = v₁.halted := by
        rcases hcalls with ⟨rfl, -⟩ | ⟨-, hg⟩
        · rfl
        · exact hg.halted_eq
      rw [habs₂.halted, hs.halted_eq, hsame, hacts.halted_eq, ← habs.halted, hrun]
    have hcur : s₃.currentThread = s₂.currentThread := habs₃.current.trans habs₂.current.symm
    rw [step, hrun, if_neg Bool.false_ne_true, hcall, Outcome.finish, hswitch]
    dsimp only
    rw [resume, hrun₂, if_neg Bool.false_ne_true, hgo]
    dsimp only
    rw [receiveRest, htake, ← hcur]

/-- The first thread waits, the second one sends it a message and yields. -/
def serving : List Event :=
  [.receive 4 8 16, .tick, .send 1 7 (some fun _ => 1) 4 (fun _ => 0), .yield]

/-- `kmain` runs again, and the first thread is about to go on. -/
def servedKernel : Kernel := serving.foldl step threadsKernel

lemma servedKernel_reachable :
    Reachable Init (Transition.restrict Step LeavesReserved) servedKernel := by
  have hempty : (threadsKernel.proc threadsKernel.currentThread.process).ringBuffer.count = 0 := by
    rw [threadsKernel_eq, programKernel_eq.1]
    decide +kernel
  exact Follows.reachable ⟨trivial, fun _ hcount => absurd hempty hcount, trivial, trivial,
    trivial, trivial, trivial, trivial, trivial⟩
    (threadsKernel_reachable trivial (fun _ => trivial) fun _ _ _ => trivial)

/-- The first thread goes on in `ipc_receive` with the message of the second one. -/
theorem resumed_receive_gets_message_served : ∃ s₁ s₂, handle .tick servedKernel =
    .call .interrupted id s₁ ∧ schedule .interrupted s₁ = (true, s₂) ∧
    (s₂.thread s₂.currentThread).sp0 = .receive 4 8 16 ∧
    ∃ d s₃, ipcTake 4 8 16 s₂ = (0, s₃) ∧ s₃.delivered s₂.currentThread.process =
      s₂.delivered s₂.currentThread.process ++ [d] := by
  have hpair : ∀ r : Bool × Kernel, r.1 = true → r = (true, r.2) := by
    rintro ⟨b, s⟩ rfl
    rfl
  have hcall : handle .tick servedKernel = .call .interrupted id (timerTick servedKernel) := rfl
  have hswitch : (schedule .interrupted (timerTick servedKernel)).1 = true := by
    rw [servedKernel, threadsKernel_eq, programKernel_eq.1]
    decide +kernel
  have hgo : Context.request (((schedule .interrupted (timerTick servedKernel)).2.thread
      (schedule .interrupted (timerTick servedKernel)).2.currentThread).sp0) =
      some (4, 8, 16) := by
    rw [servedKernel, threadsKernel_eq, programKernel_eq.1]
    decide +kernel
  obtain ⟨d, s₃, htake, hdelivered, -⟩ := resumed_receive_gets_message servedKernel_reachable
    (e := .tick) trivial trivial hcall (hpair _ hswitch) (Context.eq_of_request hgo)
  exact ⟨_, _, hcall, hpair _ hswitch, Context.eq_of_request hgo, d, s₃, htake, hdelivered⟩

/-! ### A message is stolen -/

/-- The handler does not give up the processor in vain. -/
def Outcome.switches : Outcome → Bool
  | .done _ => true
  | .call sp0 _ s => (schedule sp0 s).1

lemma YieldWaits.of_switches {e : Event} (h : (handle e s).switches = true) : YieldWaits s e := by
  cases e with
  | receive senderPid buffer size =>
    rw [handle] at h
    rw [YieldWaits]
    cases hcall : ipcReceive (u32 senderPid) (u32 buffer) (u32 size) s with
    | done s' => trivial
    | call sp0 rest s' =>
      rw [hcall] at h
      exact h
  | _ => trivial

/-- The first thread waits, the second one sends a message to their process and takes it. -/
def stealing : List Event :=
  [.receive 4 8 16, .tick, .send 1 7 (some fun _ => 1) 4 (fun _ => 0), .receive 4 8 16, .yield]

/-- Both receives switch or take a message. -/
lemma Follows.stealing (hfirst : (handle (.receive 4 8 16) s).switches = true)
    (hsecond : (handle (.receive 4 8 16) ((stealing.take 3).foldl step s)).switches = true) :
    Follows YieldWaits stealing s :=
  ⟨trivial, .of_switches hfirst, trivial, trivial, trivial, trivial, trivial,
    .of_switches hsecond, trivial, trivial, trivial⟩

/-- `kmain` runs again, and the first thread is about to go on. -/
def stolenKernel : Kernel := stealing.foldl step threadsKernel

lemma stolenKernel_reachable :
    Reachable Init (Transition.restrict Step YieldWaits) stolenKernel := by
  refine Follows.reachable (Follows.stealing ?_ ?_)
    (threadsKernel_reachable trivial (fun _ => trivial) fun _ _ _ => trivial)
  · rw [threadsKernel_eq, programKernel_eq.1]
    decide +kernel
  · rw [threadsKernel_eq, programKernel_eq.1]
    decide +kernel

/-- The first thread goes on in `ipc_receive`, and finds nothing. -/
theorem resumed_receive_starves :
    Reachable Init (Transition.restrict Step YieldWaits) stolenKernel ∧
      Admissible stolenKernel .tick ∧ ∃ s₁ s₂,
        handle .tick stolenKernel = .call .interrupted id s₁ ∧
        schedule .interrupted s₁ = (true, s₂) ∧
        (s₂.thread s₂.currentThread).sp0 = .receive 4 8 16 ∧ (ipcTake 4 8 16 s₂).1 = 1 := by
  have hpair : ∀ r : Bool × Kernel, r.1 = true → r = (true, r.2) := by
    rintro ⟨b, s⟩ rfl
    rfl
  refine ⟨stolenKernel_reachable, trivial, timerTick stolenKernel,
    (schedule .interrupted (timerTick stolenKernel)).2, rfl, hpair _ ?_,
    Context.eq_of_request ?_, ?_⟩
  all_goals
    rw [stolenKernel, threadsKernel_eq, programKernel_eq.1]
    decide +kernel

end Gummy
