import Gummy.Kernel.Simulation

/-!
Who waits for messages, and who has been woken.

`View.woken v p` lists the threads of `p` that were taken off the mailbox by `ipc_send`
and have not yet gone on to their `ring_buffer_pop`.  In runs in which the `sys_yield`
of `ipc_receive` always switches, there are at least as many of them as messages while
somebody waits: no wakeup is lost.
-/

namespace Gummy

open CWord

open View (Act Acts GiveUp Calls Resumes Schedule After)

open Transition (Reachable)

variable {takes waits : View → Prop} {v v' : View}

/-- The thread goes on in `ipc_receive`, behind its call of `sys_yield`. -/
def Context.isReceive : Context → Bool
  | .receive .. => true
  | _ => false

namespace View

/-! ### Woken threads -/

def receiving (v : View) (t : ThreadRef) : Bool := (v.thread t).any (·.sp0.isReceive)

/-- The threads of `p` that are ready to go on in `ipc_receive`. -/
def woken (v : View) (p : ℕ) : List ThreadRef :=
  (v.queue .ready).filter fun t => t.process = p ∧ t ≠ v.current ∧ v.receiving t

lemma resumes_iff : v.Resumes ↔ v.receiving v.current = true := by
  unfold Resumes receiving
  cases v.thread v.current with
  | none => simp
  | some x =>
    obtain ⟨state, sp0⟩ := x
    cases sp0 <;> simp [Context.isReceive]

/-- Only the ready queue and the contexts in it count. -/
lemma woken_eq (v v' : View) (hcur : v'.current = v.current)
    (hrec : ∀ t ∈ v'.queue .ready, t ≠ v.current → v'.receiving t = v.receiving t) (p : ℕ) :
    v'.woken p =
      (v'.queue .ready).filter fun t => t.process = p ∧ t ≠ v.current ∧ v.receiving t := by
  refine List.filter_congr fun t ht => ?_
  rw [hcur, decide_eq_decide]
  refine and_congr_right fun _ => and_congr_right fun hne => ?_
  rw [hrec t ht hne]

lemma woken_congr (hcur : v'.current = v.current) (hq : v'.queue .ready = v.queue .ready)
    (hrec : ∀ t ∈ v'.queue .ready, t ≠ v.current → v'.receiving t = v.receiving t) (p : ℕ) :
    v'.woken p = v.woken p := by
  rw [woken_eq v v' hcur hrec, hq, woken]

lemma receiving_setThread (t : ThreadRef) {f : ThreadView → ThreadView}
    (hf : ∀ x, (f x).sp0 = x.sp0) (u : ThreadRef) :
    (v.setThread t f).receiving u = v.receiving u := by
  unfold receiving setThread
  dsimp only
  by_cases hu : u = t
  · subst hu
    cases v.thread u <;> simp [hf]
  · rw [Function.update_of_ne hu]

lemma receiving_move (q : QueueRef) (state : ThreadState) (t u : ThreadRef) :
    (v.move q state t).receiving u = v.receiving u :=
  receiving_setThread (v := { v with queue := Denotes.pushList v.queue q t }) t
    (f := ({ · with state })) (fun _ => rfl) u

/-- Filtering out the current thread makes its place in the queue irrelevant. -/
lemma filter_erase_current {l : List ThreadRef} (hl : l.Nodup) (t : ThreadRef) (p : ℕ)
    (b : ThreadRef → Bool) :
    (l.erase t).filter (fun u => u.process = p ∧ u ≠ t ∧ b u) =
      l.filter fun u => u.process = p ∧ u ≠ t ∧ b u := by
  rw [hl.erase_eq_filter, List.filter_filter]
  refine List.filter_congr fun u _ => ?_
  by_cases hu : u = t <;> simp [hu]

/-- The current thread leaves the ready queue, if it is there. -/
lemma woken_move_current (hwf : v.WF) {q : QueueRef} (hq : q ≠ .ready) (state : ThreadState)
    (p : ℕ) : (v.move q state v.current).woken p = v.woken p := by
  rw [woken_eq v (v.move q state v.current) rfl (fun t _ _ => receiving_move ..)]
  have hready : (v.move q state v.current).queue .ready = (v.queue .ready).erase v.current :=
    Denotes.pushList_of_ne v.queue v.current (Ne.symm hq)
  rw [hready, filter_erase_current (hwf.nodup _), woken]

/-- Another thread is appended to the ready queue. -/
lemma woken_move_ready {t : ThreadRef} (ht : t ∉ v.queue .ready) (state : ThreadState) (p : ℕ) :
    (v.move .ready state t).woken p =
      v.woken p ++ if t.process = p ∧ t ≠ v.current ∧ v.receiving t then [t] else [] := by
  rw [woken_eq v (v.move .ready state t) rfl (fun u _ _ => receiving_move ..)]
  have hready : (v.move .ready state t).queue .ready = v.queue .ready ++ [t] := by
    have hself := Denotes.pushList_self v.queue .ready t
    rwa [List.erase_of_not_mem ht] at hself
  rw [hready, List.filter_append, woken]
  congr 1
  by_cases ht : t.process = p ∧ t ≠ v.current ∧ v.receiving t
  · rw [if_pos ht, List.filter_cons_of_pos (by simpa using ht), List.filter_nil]
  · rw [if_neg ht, List.filter_cons_of_neg (by simpa using ht), List.filter_nil]

lemma woken_dropProcess {p q : ℕ} (hq : q ≠ p) (f : ℕ → ProcessView) (P : List ℕ) :
    ({ v with queue := dropProcess v.queue p, proc := f, processes := P } : View).woken q =
      v.woken q := by
  unfold woken
  dsimp only [dropProcess]
  rw [List.filter_filter]
  refine List.filter_congr fun t _ => ?_
  by_cases ht : t.process = q
  · simp only [ht, hq, ne_eq, not_false_eq_true, decide_true, Bool.and_true]
    rfl
  · simp [ht]

/-! ### The invariant -/

/-- While threads wait for messages, there are no more messages than woken threads. -/
structure Waiting (v : View) : Prop where
  receiving : ∀ p, ∀ t ∈ v.queue (.waiters p), t ≠ v.current → v.receiving t = true
  enough : ∀ p ∈ v.processes, (v.proc p).state ≠ .dying → v.queue (.waiters p) ≠ [] →
    (v.proc p).mailbox.length ≤ (v.woken p).length
  dying : ∀ p ∈ v.processes, (v.proc p).state = .dying → v.queue (.waiters p) ≠ [] →
    (v.proc p).mailbox = []

/-- The current thread waits for nothing. -/
def Going (v : View) : Prop := ∀ p, v.current ∉ v.queue (.waiters p)

lemma Waiting.init : View.init.Waiting := by
  refine ⟨?_, ?_, ?_⟩ <;> simp [View.init]

/-- A change after which the same threads wait, or fewer, and no woken thread is lost. -/
lemma Waiting.mono (h : v.Waiting) (hP : ∀ p ∈ v'.processes, p ∈ v.processes)
    (hcur : v'.current = v.current)
    (hw : ∀ p, (v'.queue (.waiters p)).Sublist (v.queue (.waiters p)))
    (hrec : ∀ p, ∀ t ∈ v'.queue (.waiters p), v'.receiving t = v.receiving t)
    (hmail : ∀ p ∈ v'.processes, v'.queue (.waiters p) ≠ [] →
      (v'.proc p).mailbox = (v.proc p).mailbox ∧ (v'.proc p).state = (v.proc p).state)
    (hwoken : ∀ p ∈ v'.processes, (v'.proc p).state ≠ .dying → v'.queue (.waiters p) ≠ [] →
      (v.woken p).length ≤ (v'.woken p).length) : v'.Waiting := by
  have hne : ∀ p, v'.queue (.waiters p) ≠ [] → v.queue (.waiters p) ≠ [] := by
    intro p hp hnil
    exact hp (List.sublist_nil.1 (hnil ▸ hw p))
  refine ⟨fun p t ht htc => ?_, fun p hp hd hwp => ?_, fun p hp hd hwp => ?_⟩
  · rw [hrec p t ht]
    exact h.receiving p t ((hw p).subset ht) (hcur ▸ htc)
  · have hd' := (hmail p hp hwp).2 ▸ hd
    rw [(hmail p hp hwp).1]
    exact (h.enough p (hP p hp) hd' (hne p hwp)).trans (hwoken p hp hd hwp)
  · rw [(hmail p hp hwp).1]
    exact h.dying p (hP p hp) ((hmail p hp hwp).2.symm.trans hd) (hne p hwp)

lemma move_waiters {q : QueueRef} (hq : ∀ p, q ≠ .waiters p) (state : ThreadState)
    (t : ThreadRef) (p : ℕ) :
    (v.move q state t).queue (.waiters p) = (v.queue (.waiters p)).erase t :=
  Denotes.pushList_of_ne v.queue t (Ne.symm (hq p))

/-- A thread moves somewhere else than to a mailbox. -/
lemma Waiting.move (h : v.Waiting) {q : QueueRef} {state : ThreadState} {t : ThreadRef}
    (hq : ∀ p, q ≠ .waiters p)
    (hwoken : ∀ p, (v.woken p).length ≤ ((v.move q state t).woken p).length) :
    (v.move q state t).Waiting := by
  refine h.mono (fun _ hp => hp) rfl (fun p => ?_) (fun _ u _ => receiving_move q state t u)
    (fun _ _ _ => ⟨rfl, rfl⟩) fun p _ _ _ => hwoken p
  rw [move_waiters hq]
  exact List.erase_sublist

lemma Going.move (h : v.Going) {q : QueueRef} (hq : ∀ p, q ≠ .waiters p) (state : ThreadState)
    (t : ThreadRef) : (v.move q state t).Going := by
  intro p hp
  rw [move_waiters hq] at hp
  exact h p (List.mem_of_mem_erase hp)

lemma Waiting.move_ready (h : v.Waiting) {t : ThreadRef} (ht : t ∉ v.queue .ready) :
    (v.move .ready .ready t).Waiting := by
  refine h.move (by simp) fun p => ?_
  rw [woken_move_ready ht]
  simp

/-- A slot that is linked nowhere is filled. -/
lemma Waiting.setUnlinked (h : v.Waiting) {t : ThreadRef} (ht : ∀ q, t ∉ v.queue q)
    (x : Option ThreadView) :
    ({ v with thread := Function.update v.thread t x } : View).Waiting := by
  have hrec : ∀ q, ∀ u ∈ v.queue q,
      ({ v with thread := Function.update v.thread t x } : View).receiving u = v.receiving u := by
    intro q u hu
    have hut : u ≠ t := by
      rintro rfl
      exact ht q hu
    unfold View.receiving
    dsimp only
    rw [Function.update_of_ne hut]
  refine h.mono (fun _ hp => hp) rfl (fun _ => .refl _) (fun p t ht => hrec _ t ht)
    (fun _ _ _ => ⟨rfl, rfl⟩) fun p _ _ _ => ?_
  have hwoken : ({ v with thread := Function.update v.thread t x } : View).woken p = v.woken p :=
    @woken_congr v { v with thread := Function.update v.thread t x } rfl rfl
      (fun u hu _ => hrec _ u hu) p
  rw [hwoken]

lemma start_eq_move (t : ThreadRef) (ctx : InterruptContext) : v.start t ctx =
    View.move .ready .ready t
      { v with thread := Function.update v.thread t (some ⟨.running, .fresh ctx⟩) } := by
  simp [View.move, View.setThread, View.start]

lemma Waiting.send (h : v.Waiting) (hwf : v.WF) (hgo : v.Going) {p : ℕ} (m : Message)
    (hs : (v.proc p).state ≠ .dying) : (v.send p m).Waiting := by
  have hself : (v.post p m).proc p = { v.proc p with
      mailbox := (v.proc p).mailbox ++ [m], accepted := (v.proc p).accepted ++ [m] } :=
    Function.update_self ..
  have hother : ∀ q, q ≠ p → (v.post p m).proc q = v.proc q := fun q hq =>
    Function.update_of_ne hq ..
  unfold View.send
  cases hw : v.queue (.waiters p) with
  | nil =>
    change (v.post p m).Waiting
    refine h.mono (fun _ hp => hp) rfl (fun _ => .refl _) (fun _ _ _ => rfl)
      (fun q _ hq => ?_) fun _ _ _ _ => le_rfl
    rw [hother q ?_]
    · exact ⟨rfl, rfl⟩
    · rintro rfl
      exact hq hw
  | cons t l =>
    -- the thread that is woken makes up for the message
    dsimp only
    have ht : t ∈ v.queue (.waiters p) := by simp [hw]
    have hready : t ∉ v.queue .ready := fun htr => by
      simpa using hwf.unique _ _ t htr ht
    have htc : t ≠ v.current := by
      rintro rfl
      exact hgo p ht
    have htp : t.process = p := hwf.waiters p t ht
    have hwoken : ∀ q, ((v.post p m).move .ready .ready t).woken q =
        v.woken q ++ if t.process = q ∧ t ≠ v.current ∧ v.receiving t then [t] else [] :=
      fun q => woken_move_ready (v := v.post p m) hready .ready q
    have hqueue : ∀ q, ((v.post p m).move .ready .ready t).queue (.waiters q) =
        (v.queue (.waiters q)).erase t := fun q => move_waiters (by simp) _ t q
    have hne : ∀ q, ((v.post p m).move .ready .ready t).queue (.waiters q) ≠ [] →
        v.queue (.waiters q) ≠ [] := by
      intro q hq hnil
      rw [hqueue, hnil] at hq
      exact hq rfl
    refine ⟨fun q u hu huc => ?_, fun q hq hd hwq => ?_, fun q hq hd hwq => ?_⟩
    · rw [receiving_move]
      rw [hqueue] at hu
      exact h.receiving q u (List.mem_of_mem_erase hu) huc
    · rw [hwoken]
      have hd : ((v.post p m).proc q).state ≠ .dying := hd
      change ((v.post p m).proc q).mailbox.length ≤ _
      by_cases hqp : q = p
      · subst hqp
        rw [hself, if_pos ⟨htp, htc, h.receiving q t ht htc⟩]
        simpa using h.enough q hq hs (hne q hwq)
      · rw [hother q hqp] at hd ⊢
        exact (h.enough q hq hd (hne q hwq)).trans (by simp)
    · change ((v.post p m).proc q).mailbox = []
      have hd : ((v.post p m).proc q).state = .dying := hd
      by_cases hqp : q = p
      · subst hqp
        rw [hself] at hd
        exact absurd hd hs
      · rw [hother q hqp] at hd ⊢
        exact h.dying q hq hd (hne q hwq)

lemma Waiting.take (h : v.Waiting) (d : Delivery) : (v.take d).Waiting := by
  refine ⟨h.receiving, fun p hp hd hw => ?_, fun p hp hd hw => ?_⟩
  · by_cases hpc : p = v.current.process
    · subst hpc
      rw [take_proc_self] at hd ⊢
      refine le_trans ?_ (h.enough _ hp hd hw)
      simp
    · rw [take_proc_of_ne d v hpc] at hd ⊢
      exact h.enough p hp hd hw
  · by_cases hpc : p = v.current.process
    · subst hpc
      rw [take_proc_self] at hd ⊢
      simp [h.dying _ hp hd hw]
    · rw [take_proc_of_ne d v hpc] at hd ⊢
      exact h.dying p hp hd hw

lemma Waiting.create (h : v.Waiting) (hwf : v.WF) {p : ℕ} (hp : p ∉ v.processes) :
    (v.create p).Waiting := by
  have hlive : ∀ q, ∀ t ∈ v.queue q, t.process ≠ p := by
    rintro q t ht rfl
    exact hp (hwf.live q t ht)
  have hrec : ∀ q, ∀ t ∈ v.queue q, (v.create p).receiving t = v.receiving t := by
    intro q t ht
    simp [View.receiving, View.create, hlive q t ht]
  have hempty : v.queue (.waiters p) = [] := List.eq_nil_iff_forall_not_mem.2 fun t ht =>
    hlive _ t ht (hwf.waiters p t ht)
  have hother : ∀ q, v.queue (.waiters q) ≠ [] → q ≠ p := by
    rintro q hq rfl
    exact hq hempty
  have hmem : ∀ q ∈ (v.create p).processes, v.queue (.waiters q) ≠ [] → q ∈ v.processes :=
    fun q hq hw => (List.mem_cons.1 hq).resolve_left (hother q hw)
  have hproc : ∀ q, v.queue (.waiters q) ≠ [] → (v.create p).proc q = v.proc q := fun q hw =>
    Function.update_of_ne (hother q hw) ..
  refine ⟨fun q t ht htc => ?_, fun q hq hd hw => ?_, fun q hq hd hw => ?_⟩
  · rw [hrec _ t ht]
    exact h.receiving q t ht htc
  · have hwoken : (v.create p).woken q = v.woken q :=
      @woken_congr v (v.create p) rfl rfl (fun t ht _ => hrec _ t ht) q
    rw [hproc q hw] at hd ⊢
    rw [hwoken]
    exact h.enough q (hmem q hq hw) hd hw
  · rw [hproc q hw] at hd ⊢
    exact h.dying q (hmem q hq hw) hd hw

/-- The threads of a process leave the queues. -/
lemma Waiting.drop (h : v.Waiting) (hwf : v.WF) (p : ℕ) {f : ℕ → ProcessView} {P : List ℕ}
    (hP : ∀ q ∈ P, q ∈ v.processes)
    (hf : ∀ q, q ≠ p → (f q).mailbox = (v.proc q).mailbox ∧ (f q).state = (v.proc q).state) :
    ({ v with queue := dropProcess v.queue p, proc := f, processes := P } : View).Waiting := by
  have hother : ∀ q, dropProcess v.queue p (.waiters q) ≠ [] → q ≠ p := by
    rintro q hq rfl
    refine hq (List.eq_nil_iff_forall_not_mem.2 fun t ht => ?_)
    obtain ⟨ht, htp⟩ := mem_dropProcess.1 ht
    exact htp (hwf.waiters q t ht)
  refine h.mono hP rfl (fun q => List.filter_sublist) (fun _ _ _ => rfl)
    (fun q _ hq => hf q (hother q hq)) fun q _ _ hq => ?_
  rw [woken_dropProcess (hother q hq)]

lemma Waiting.act (h : v.Waiting) (hwf : v.WF) (hgo : v.Going) (hact : Act takes v v') :
    v'.Waiting := by
  cases hact with
  | wake ht =>
    refine h.move_ready fun htr => ?_
    simpa using hwf.unique _ _ _ ht htr
  | start ctx hp hnone =>
    have hout : ∀ q, _ ∉ v.queue q := fun q ht => by
      obtain ⟨x, hx, -⟩ := hwf.used q _ ht
      exact Option.some_ne_none x (hx.symm.trans hnone)
    rw [start_eq_move]
    exact (h.setUnlinked hout _).move_ready (hout .ready)
  | create hp hi => exact h.create hwf hp
  | destroy hp hi hcur =>
    exact h.drop hwf _ (fun q hq => List.mem_of_mem_erase hq) fun q _ => ⟨rfl, rfl⟩
  | send m hp hs hm => exact h.send hwf hgo m hs
  | take hm hd ht => exact h.take _

lemma Going.act (h : v.Going) (hact : Act takes v v') : v'.Going := by
  cases hact with
  | wake ht => exact h.move (by simp) _ _
  | start ctx hp hnone =>
    rw [start_eq_move]
    exact Going.move (v := { v with thread := _ }) h (by simp) .ready _
  | destroy hp hi hcur => exact fun p ht => h p (mem_dropProcess.1 ht).1
  | @send p m hp hs hm =>
    unfold View.send
    split
    · exact h
    · exact Going.move (v := v.post p m) h (by simp) _ _
  | _ => exact h

/-- What holds when the scheduler is called with the context `sp0`: if the current thread is
waiting, it will go on in `ipc_receive`, and it loses the processor now. -/
structure Calling (sp0 : Context) (v : View) : Prop where
  waiting : v.Waiting
  yields : ∀ p, v.current ∈ v.queue (.waiters p) → sp0.isReceive = true ∧ v.Switches

lemma Calling.giveUp (h : v.Waiting) (hgo : v.Going) (hwf : v.WF)
    {sp0 : Context}
    (hg : GiveUp (fun v => (v.move (.waiters v.current.process) .blocked v.current).Switches)
      v sp0 v') : v'.Calling sp0 := by
  cases hg with
  | sleep hc =>
    refine ⟨h.move (by simp) fun p => ?_, fun p hp => ?_⟩
    · rw [woken_move_current hwf (by simp)]
    · exact absurd hp (hgo.move (by simp) _ _ p)
  | exit hc =>
    refine ⟨h.move (by simp) fun p => ?_, fun p hp => ?_⟩
    · rw [woken_move_current hwf (by simp)]
    · exact absurd hp (hgo.move (by simp) _ _ p)
  | wait hm hw =>
    refine ⟨⟨fun p t ht htc => ?_, fun p hp hd hne => ?_, fun p hp hd hne => ?_⟩, fun p _ =>
      ⟨rfl, hw⟩⟩
    · rw [receiving_move]
      have ht : t ∈ Denotes.pushList v.queue _ v.current (.waiters p) := ht
      by_cases hpc : p = v.current.process
      · subst hpc
        rw [Denotes.pushList_self, List.mem_append, List.mem_singleton] at ht
        exact h.receiving _ t (List.mem_of_mem_erase (ht.resolve_right htc)) htc
      · rw [Denotes.pushList_of_ne _ _ (by simpa using hpc)] at ht
        exact h.receiving p t (List.mem_of_mem_erase ht) htc
    · rw [woken_move_current hwf (by simp)]
      by_cases hpc : p = v.current.process
      · subst hpc
        exact (congrArg List.length hm).trans_le (Nat.zero_le _)
      · refine h.enough p hp hd fun hnil => hne ?_
        have hq := Denotes.pushList_of_ne v.queue v.current
          (show QueueRef.waiters p ≠ .waiters v.current.process by simpa using hpc)
        exact hq.trans (by rw [hnil, List.erase_nil])
    · by_cases hpc : p = v.current.process
      · subst hpc
        exact hm
      · refine h.dying p hp hd fun hnil => hne ?_
        have hq := Denotes.pushList_of_ne v.queue v.current
          (show QueueRef.waiters p ≠ .waiters v.current.process by simpa using hpc)
        exact hq.trans (by rw [hnil, List.erase_nil])
  | kill hi =>
    refine ⟨h.drop hwf _ (fun _ hp => hp) fun q hq => ?_, fun p hp => ?_⟩
    · rw [Function.update_of_ne hq]
      exact ⟨rfl, rfl⟩
    · exact absurd (mem_dropProcess.1 hp).1 (hgo p)

/-! ### The scheduler -/

/-- Nobody but the current thread is affected by `requeue`. -/
lemma receiving_requeue (sp0 : Context) {t : ThreadRef} (ht : t ≠ v.current) :
    (v.requeue sp0).receiving t = v.receiving t := by
  rw [receiving, requeue_thread, Function.update_of_ne ht, receiving]

lemma receiving_requeue_current (hwf : v.WF) (sp0 : Context) :
    (v.requeue sp0).receiving v.current = sp0.isReceive := by
  obtain ⟨x, hx, -⟩ := hwf.current_used
  simp [receiving, hx]

lemma requeue_waiters (sp0 : Context) (p : ℕ) :
    ((v.requeue sp0).queue (.waiters p)).Sublist (v.queue (.waiters p)) := by
  rw [requeue_queue]
  split_ifs
  · rw [Denotes.pushList_of_ne _ _ (by simp)]
    exact List.erase_sublist
  · exact .refl _

/-- The current thread does not count as woken, wherever it is queued. -/
lemma woken_requeue (hwf : v.WF) (sp0 : Context) (p : ℕ) :
    (v.requeue sp0).woken p = v.woken p := by
  rw [woken_eq v (v.requeue sp0) (requeue_current sp0 v)
    (fun t _ ht => receiving_requeue sp0 ht), requeue_queue, woken]
  split_ifs
  · rw [Denotes.pushList_self, List.filter_append, filter_erase_current (hwf.nodup _)]
    simp
  · rfl

/-- Dispatching a thread takes away one woken thread at most, and only if that thread goes on
in `ipc_receive`. -/
lemma woken_dispatch {n : ThreadRef} {l : List ThreadRef} (h : v.queue .ready = n :: l)
    (hnd : (n :: l).Nodup) (p : ℕ) :
    (v.woken p).length ≤ ((v.dispatch n l).woken p).length +
      if n.process = p ∧ v.receiving n then 1 else 0 := by
  have hrec : ∀ t, (v.dispatch n l).receiving t = v.receiving t := fun t =>
    receiving_setThread (v := { v.skip l with current := n }) n
      (f := ({ · with state := .running })) (fun _ => rfl) t
  have hnl : ∀ t ∈ l, t ≠ n := by
    rintro t ht rfl
    exact (List.nodup_cons.1 hnd).1 ht
  have hnew : (v.dispatch n l).woken p =
      l.filter fun t => t.process = p ∧ v.receiving t := by
    have hqueue : (v.dispatch n l).queue .ready = l := by simp
    rw [woken, hqueue]
    refine List.filter_congr fun t ht => ?_
    rw [hrec, decide_eq_decide]
    exact and_congr_right fun _ => and_iff_right (hnl t ht)
  have hold : ((l.filter fun t => t.process = p ∧ t ≠ v.current ∧ v.receiving t).length) ≤
      (l.filter fun t => t.process = p ∧ v.receiving t).length := by
    refine (List.monotone_filter_right l fun t ht => ?_).length_le
    simp only [decide_eq_true_eq] at ht ⊢
    exact ⟨ht.1, ht.2.2⟩
  rw [hnew, woken, h, List.filter_cons]
  by_cases hn : n.process = p ∧ v.receiving n
  · rw [if_pos hn]
    split_ifs
    · exact Nat.succ_le_succ hold
    · exact hold.trans (Nat.le_succ _)
  · rw [if_neg hn, if_neg (by simp only [decide_eq_true_eq]; exact fun hc => hn ⟨hc.1, hc.2.2⟩)]
    exact hold

/-- What holds once a thread has been dispatched: if it goes on in `ipc_receive`, one message
may still be meant for it. -/
structure Resuming (v : View) : Prop where
  receiving : ∀ p, ∀ t ∈ v.queue (.waiters p), t ≠ v.current → v.receiving t = true
  enough : ∀ p ∈ v.processes, (v.proc p).state ≠ .dying → v.queue (.waiters p) ≠ [] →
    (v.proc p).mailbox.length ≤ (v.woken p).length +
      if v.current.process = p ∧ v.receiving v.current then 1 else 0
  dying : ∀ p ∈ v.processes, (v.proc p).state = .dying → v.queue (.waiters p) ≠ [] →
    (v.proc p).mailbox = []

lemma Calling.dispatch {sp0 : Context} {n : ThreadRef} {l : List ThreadRef}
    (h : v.Calling sp0) (hwf : v.WF) (hl : (v.requeue sp0).queue .ready = n :: l) :
    ((v.requeue sp0).dispatch n l).Resuming ∧ ((v.requeue sp0).dispatch n l).Going := by
  have hwf' := hwf.requeue sp0
  have hn : n ∈ (v.requeue sp0).queue .ready := by simp [hl]
  have hnd : (n :: l).Nodup := hl ▸ hwf'.nodup .ready
  have hqueue : ∀ p, ((v.requeue sp0).dispatch n l).queue (.waiters p) =
      (v.requeue sp0).queue (.waiters p) := fun p => by simp
  have hproc : ((v.requeue sp0).dispatch n l).proc = v.proc := requeue_proc sp0 v
  have hP : ((v.requeue sp0).dispatch n l).processes = v.processes := requeue_processes sp0 v
  have hrec : ∀ t, ((v.requeue sp0).dispatch n l).receiving t = (v.requeue sp0).receiving t :=
    fun t => receiving_setThread (v := { (v.requeue sp0).skip l with current := n }) n
      (f := ({ · with state := .running })) (fun _ => rfl) t
  have hne : ∀ p, (v.requeue sp0).queue (.waiters p) ≠ [] → v.queue (.waiters p) ≠ [] := by
    intro p hp hnil
    exact hp (List.sublist_nil.1 (hnil ▸ requeue_waiters sp0 p))
  refine ⟨⟨fun p t ht _ => ?_, fun p hp hd hw => ?_, fun p hp hd hw => ?_⟩, fun p hp => ?_⟩
  · rw [hqueue] at ht
    have ht := (requeue_waiters sp0 p).subset ht
    rw [hrec]
    by_cases htc : t = v.current
    · subst htc
      rw [receiving_requeue_current hwf, (h.yields p ht).1]
    · rw [receiving_requeue sp0 htc]
      exact h.waiting.receiving p t ht htc
  · rw [hP] at hp
    rw [hproc] at hd ⊢
    rw [hqueue] at hw
    refine (h.waiting.enough p hp hd (hne p hw)).trans ?_
    rw [← woken_requeue hwf sp0 p, hrec]
    exact woken_dispatch hl hnd p
  · rw [hP] at hp
    rw [hproc] at hd ⊢
    rw [hqueue] at hw
    exact h.waiting.dying p hp hd (hne p hw)
  · rw [hqueue] at hp
    simpa using hwf'.unique _ _ n hn hp

lemma Resuming.waiting (h : v.Resuming)
    (hmail : v.receiving v.current = true → (v.proc v.current.process).mailbox = []) :
    v.Waiting := by
  refine ⟨h.receiving, fun p hp hd hw => ?_, h.dying⟩
  have henough := h.enough p hp hd hw
  by_cases hc : v.current.process = p ∧ v.receiving v.current = true
  · obtain ⟨rfl, hrec⟩ := hc
    exact (congrArg List.length (hmail hrec)).trans_le (Nat.zero_le _)
  · rwa [if_neg hc] at henough

/-- The thread that goes on takes the message that was meant for it. -/
lemma Resuming.take (h : v.Resuming) {d : Delivery} {m : List Message}
    (hm : (v.proc v.current.process).mailbox = d.message :: m) : (v.take d).Waiting := by
  refine ⟨h.receiving, fun p hp hd hw => ?_, fun p hp hd hw => ?_⟩
  · by_cases hpc : p = v.current.process
    · subst hpc
      rw [take_proc_self] at hd ⊢
      have henough := h.enough _ hp hd hw
      rw [hm, List.length_cons] at henough
      rw [hm, List.tail_cons]
      change m.length ≤ (v.woken _).length
      split_ifs at henough <;> omega
    · rw [take_proc_of_ne d v hpc] at hd ⊢
      have henough := h.enough p hp hd hw
      rwa [if_neg fun hc => hpc hc.1.symm] at henough
  · by_cases hpc : p = v.current.process
    · subst hpc
      rw [take_proc_self] at hd ⊢
      simp [h.dying _ hp hd hw]
    · rw [take_proc_of_ne d v hpc] at hd ⊢
      exact h.dying p hp hd hw

lemma Calling.schedule {sp0 : Context} {b : Bool} {v₁ v₂ : View} (h : v.Calling sp0)
    (hwf : v.WF) (hs : Schedule sp0 v b v₁) (hafter : After b v₁ v₂) :
    v₂.Waiting ∧ v₂.Going := by
  have hiff := hs.eq_true_iff
  cases hs with
  | idle hnil =>
    have hgo : v.Going := fun p hp => by simpa using hiff.2 (h.yields p hp).2
    cases hafter with
    | returned => exact ⟨h.waiting, hgo⟩
    | stopped => exact ⟨{ h.waiting with }, hgo⟩
  | @keep n l hl hn =>
    have hgo : v.Going := fun p hp => by simpa using hiff.2 (h.yields p hp).2
    have hsub : ∀ p, (((v.requeue sp0).skip l).queue (.waiters p)).Sublist
        (v.queue (.waiters p)) := requeue_waiters sp0
    have hgo' : ((v.requeue sp0).skip l).Going := fun p hp => by
      have hcur : ((v.requeue sp0).skip l).current = v.current := requeue_current sp0 v
      rw [hcur] at hp
      exact hgo p ((hsub p).subset hp)
    have hproc : ((v.requeue sp0).skip l).proc = v.proc := requeue_proc sp0 v
    have hwait : ((v.requeue sp0).skip l).Waiting := by
      refine h.waiting.mono (fun p hp => ?_) (requeue_current sp0 v) hsub (fun p t ht => ?_)
        (fun p _ _ => ?_) fun p _ hd _ => ?_
      · exact requeue_processes sp0 v ▸ hp
      · refine receiving_requeue sp0 ?_
        rintro rfl
        exact hgo p ((hsub p).subset ht)
      · rw [hproc]
        exact ⟨rfl, rfl⟩
      · -- the thread that is skipped is not woken, or its process is dying
        rw [hproc] at hd
        rw [← woken_requeue hwf sp0 p, woken, hl, List.filter_cons]
        have hskip : ((v.requeue sp0).skip l).woken p = l.filter fun t => t.process = p ∧
            t ≠ (v.requeue sp0).current ∧ (v.requeue sp0).receiving t := by
          have hqueue : ((v.requeue sp0).skip l).queue .ready = l := by simp
          rw [woken, hqueue]
          rfl
        rw [hskip, if_neg]
        simp only [decide_eq_true_eq, requeue_current]
        rintro ⟨rfl, hnc, -⟩
        exact hn.elim hnc hd
    cases hafter with
    | returned => exact ⟨hwait, hgo'⟩
    | stopped => exact ⟨{ hwait with }, hgo'⟩
  | @switch n l hl hn hdy =>
    obtain ⟨hres, hgo⟩ := h.dispatch hwf hl
    cases hafter with
    | elsewhere he => exact ⟨hres.waiting fun hrec => absurd (resumes_iff.2 hrec) he, hgo⟩
    | starved _ hm => exact ⟨hres.waiting fun _ => hm, hgo⟩
    | received _ hm hd => exact ⟨hres.take hm, hgo⟩

lemma Waiting.step (h : v.Waiting ∧ v.Going)
    (hs : View.Step takes
      (fun v => (v.move (.waiters v.current.process) .blocked v.current).Switches) v v') :
    v'.Waiting ∧ v'.Going :=
  hs.invariant (J := fun v => v.Waiting ∧ v.Going) (K := View.Calling)
    (fun _ _ hwf hJ hact => ⟨hJ.1.act hwf hJ.2 hact, hJ.2.act hact⟩)
    (fun _ _ hJ => ⟨hJ.1, fun p hp => absurd hp (hJ.2 p)⟩)
    (fun _ _ _ hwf _ hJ hg => .giveUp hJ.1 hJ.2 hwf hg)
    (fun _ _ _ _ _ hwf hK hs _ hafter => hK.schedule hwf hs hafter) h

end View

/-! ### Runs -/

variable {s : Kernel}

/-- A call of `ipc_receive` that has to wait loses the processor: its `sys_yield` returns only
when another thread has made it ready and it has been dispatched. -/
def YieldWaits (s : Kernel) : Event → Prop
  | .receive senderPid buffer size =>
    match ipcReceive (u32 senderPid) (u32 buffer) (u32 size) s with
    | .call sp0 _ s' => (schedule sp0 s').1 = true
    | .done _ => True
  | _ => True

/-- The threads of `p` that have been woken by `ipc_send` and have not yet executed their
`ring_buffer_pop`: they are in the ready queue, and go on behind the `sys_yield` of
`ipc_receive`. -/
def wokenReceivers (s : Kernel) (p : ℕ) : List ThreadRef :=
  (s.queues.toList .ready).filter fun t =>
    t.process = p ∧ t ≠ s.currentThread ∧ (s.thread t).sp0.isReceive

lemma Abs.receiving (h : Abs s v []) {t : ThreadRef} (ht : t.process ∈ v.processes)
    (hx : v.thread t ≠ none) : v.receiving t = (s.thread t).sp0.isReceive := by
  obtain ⟨x, hx⟩ := Option.ne_none_iff_exists'.1 hx
  rw [View.receiving, hx, (h.thread_used ht hx).2.2]
  rfl

lemma Abs.wokenReceivers (h : Abs s v []) (p : ℕ) : wokenReceivers s p = v.woken p := by
  rw [Gummy.wokenReceivers, View.woken, h.inv.queues.toList_eq (k := .ready) trivial]
  refine List.filter_congr fun t ht => ?_
  obtain ⟨x, hx, -⟩ := h.wf.used _ t ht
  rw [h.current, h.receiving (h.wf.live _ t ht) (by simp [hx])]

lemma Abs.count_eq (h : Abs s v []) {p : ℕ} (hp : p ∈ v.processes) :
    (s.proc p).ringBuffer.count = (v.proc p).mailbox.length := by
  obtain ⟨raw, hraw, hmap⟩ := (h.proc p hp).mailbox.elems
  rw [hraw.count, ← hmap, List.length_map]

/-- A call that has to wait makes the scheduler switch. -/
lemma YieldWaits.switches (h : Abs s v []) {e : Event} (hy : YieldWaits s e) (he : e.Receives)
    (hm : (v.proc v.current.process).mailbox = []) :
    (v.move (.waiters v.current.process) .blocked v.current).Switches := by
  cases e with
  | receive senderPid buffer size =>
    obtain ⟨s', heq, hmove⟩ := h.receive_wait he hm
    obtain ⟨b, s'', v'', hsched, hs, -⟩ := hmove.schedule _
    rw [YieldWaits, heq] at hy
    dsimp only at hy
    rw [hsched] at hy
    exact hs.eq_true_iff.1 hy
  | _ => exact he.elim

/-- If a thread waits in the mailbox of a process while there are messages, at least as many
threads of the process have been woken and are on their way to take them. -/
theorem no_wakeup_lost (h : Reachable Init (Transition.restrict Step YieldWaits) s) {p : ℕ}
    (hp : p ∈ s.processes) (hw : s.queues.toList (.waiters p) ≠ []) :
    (wokenReceivers s p).Nodup ∧
      (s.proc p).ringBuffer.count ≤ (wokenReceivers s p).length := by
  obtain ⟨v, habs, hJ, -⟩ := reachable_view (fun _ => True)
    (fun v => (v.move (.waiters v.current.process) .blocked v.current).Switches)
    (J := fun v => v.Waiting ∧ v.Going) ⟨.init, by simp [View.Going, View.init]⟩
    (fun v v' _ hJ hstep => View.Waiting.step hJ hstep)
    (fun s v e habs _ _ hy => ⟨fun _ _ => trivial, hy.switches habs⟩) h
  rw [habs.inv.processes_eq] at hp
  rw [habs.inv.queues.toList_eq (k := .waiters p) hp] at hw
  rw [habs.wokenReceivers, habs.count_eq hp]
  refine ⟨(habs.wf.nodup _).filter _, ?_⟩
  by_cases hd : (v.proc p).state = .dying
  · rw [hJ.dying p hp hd hw]
    exact Nat.zero_le _
  · exact hJ.enough p hp hd hw

/-- A second thread of the idle process waits; nobody can send to it. -/
theorem no_wakeup_lost_bootThread :
    let s := step (bootThread ⟨fun _ => 0, ⟨fun _ => 0, 0, 0, 0, 0⟩, 0⟩) (.receive 4 8 16)
    s.queues.toList (.waiters idleProcess) = [⟨idleProcess, 1⟩] ∧
      (s.proc idleProcess).ringBuffer.count ≤ (wokenReceivers s idleProcess).length := by
  intro s
  have hreach : Reachable Init (Transition.restrict Step YieldWaits) s :=
    .next (.receive 4 8 16)
      (.next .tick (.next (.nthread 0xC0010000 ⟨0, heapBase⟩)
        (.start ⟨_, boot_bootKernel _, rfl⟩) ⟨⟨trivial, rfl⟩, trivial⟩) ⟨⟨trivial, rfl⟩, trivial⟩)
      ⟨⟨trivial, rfl⟩, by rfl⟩
  have hwait : s.queues.toList (.waiters idleProcess) = [⟨idleProcess, 1⟩] := by decide +kernel
  have hmem : idleProcess ∈ s.processes := by decide +kernel
  exact ⟨hwait, (no_wakeup_lost hreach hmem (by rw [hwait]; simp)).2⟩

end Gummy
