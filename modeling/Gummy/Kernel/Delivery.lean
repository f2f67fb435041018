import Gummy.Kernel.Simulation

/-!
What becomes of messages.

The messages taken out of a mailbox are those that were put into it, in this order, up
to the ones that are still there; each receive writes what its message says and nothing
else; and a send that fails does nothing.
-/

namespace Gummy

open CWord

open View (Act Acts GiveUp Calls Resumes Schedule After)

open Transition (Reachable)

variable {takes waits : View → Prop} {v v' : View} {s : Kernel}

namespace View

/-! ### The invariant -/

/-- What was put into the mailbox was taken out since, or is still there. -/
structure Mail (x : ProcessView) : Prop where
  pid_lt : x.pid < 2 ^ 32
  sender_lt : ∀ m ∈ x.accepted, m.senderPid < 2 ^ 32
  accepted : x.accepted = x.delivered.map Delivery.message ++ x.mailbox
  exact_of_mem : ∀ d ∈ x.delivered, d.Exact

def Delivered (v : View) : Prop := ∀ p ∈ v.processes, Mail (v.proc p)

/-- The fields that it speaks of. -/
def ProcessView.messages (x : ProcessView) :
    ℕ × List Message × List Message × List Delivery :=
  (x.pid, x.mailbox, x.accepted, x.delivered)

lemma Delivered.congr (h : v.Delivered) (hP : ∀ p ∈ v'.processes, p ∈ v.processes)
    (hproc : ∀ p, ProcessView.messages (v'.proc p) = ProcessView.messages (v.proc p)) :
    v'.Delivered := by
  intro p hp
  obtain ⟨h1, h2, h3, h4⟩ : (v'.proc p).pid = (v.proc p).pid ∧
      (v'.proc p).mailbox = (v.proc p).mailbox ∧ (v'.proc p).accepted = (v.proc p).accepted ∧
      (v'.proc p).delivered = (v.proc p).delivered := by
    simpa [ProcessView.messages] using hproc p
  obtain ⟨hpid, hsender, hacc, hexact⟩ := h p (hP p hp)
  constructor
  · rwa [h1]
  · rwa [h3]
  · rwa [h2, h3, h4]
  · rwa [h4]

lemma Delivered.create (h : v.Delivered) (p : ℕ) : (v.create p).Delivered := by
  intro q hq
  by_cases hqp : q = p
  · subst hqp
    have hself : (v.create q).proc q =
        ⟨u32 (v.created + 1), some v.current.process, .normal, [], [], []⟩ :=
      Function.update_self ..
    rw [hself]
    exact ⟨u32_lt _, by simp, rfl, by simp⟩
  · have hother : (v.create p).proc q = v.proc q := Function.update_of_ne hqp ..
    rw [hother]
    exact h q ((List.mem_cons.1 hq).resolve_left hqp)

lemma Delivered.post (h : v.Delivered) (p : ℕ) {m : Message} (hm : m.senderPid < 2 ^ 32) :
    (v.post p m).Delivered := by
  intro q hq
  have hold := h q hq
  by_cases hqp : q = p
  · subst hqp
    have hself : (v.post q m).proc q = { v.proc q with
        mailbox := (v.proc q).mailbox ++ [m], accepted := (v.proc q).accepted ++ [m] } :=
      Function.update_self ..
    rw [hself]
    refine ⟨hold.pid_lt, fun m' hm' => ?_, ?_, hold.exact_of_mem⟩
    · obtain hm' | hm' := List.mem_append.1 hm'
      · exact hold.sender_lt m' hm'
      · rwa [List.mem_singleton.1 hm']
    · dsimp only
      rw [hold.accepted, List.append_assoc]
  · have hother : (v.post p m).proc q = v.proc q := Function.update_of_ne hqp ..
    rw [hother]
    exact hold

lemma Delivered.take (h : v.Delivered) {d : Delivery} {l : List Message}
    (hm : (v.proc v.current.process).mailbox = d.message :: l) (hd : d.Exact) :
    (v.take d).Delivered := by
  intro q hq
  have hold := h q hq
  by_cases hqc : q = v.current.process
  · subst hqc
    rw [take_proc_self]
    refine ⟨hold.pid_lt, hold.sender_lt, ?_, fun d' hd' => ?_⟩
    · dsimp only
      rw [hold.accepted, hm, List.tail_cons, List.map_append, List.append_assoc]
      rfl
    · obtain hd' | hd' := List.mem_append.1 hd'
      · exact hold.exact_of_mem d' hd'
      · rw [List.mem_singleton.1 hd']
        exact hd
  · rw [take_proc_of_ne d v hqc]
    exact hold

lemma Delivered.act (h : v.Delivered) (hwf : v.WF) (hact : Act takes v v') : v'.Delivered := by
  cases hact with
  | wake ht => exact h.congr (fun _ hp => hp) fun _ => rfl
  | start ctx hp hnone => exact h.congr (fun _ hp => hp) fun _ => rfl
  | create hp hi => exact h.create _
  | destroy hp hi hcur => exact h.congr (fun _ hp => List.mem_of_mem_erase hp) fun _ => rfl
  | @send p m hp hs hm =>
    have hpost : (v.post p m).Delivered := h.post p (hm.trans_lt (h _ hwf.current_mem).pid_lt)
    unfold View.send
    split
    · exact hpost
    · exact hpost.congr (fun _ hp => hp) fun _ => rfl
  | take hm hd ht => exact h.take hm hd

lemma Delivered.giveUp (h : v.Delivered) {sp0 : Context} (hg : GiveUp waits v sp0 v') :
    v'.Delivered := by
  cases hg with
  | kill hi =>
    refine h.congr (fun _ hp => hp) fun p => ?_
    by_cases hp : p = v.current.process
    · subst hp
      simp [View.kill, View.setProc, ProcessView.messages]
    · simp [View.kill, View.setProc, hp]
  | _ => exact h.congr (fun _ hp => hp) fun _ => rfl

lemma Delivered.call (h : v.Delivered) {sp0 : Context} {b : Bool} {v₁ v₂ : View}
    (hs : Schedule sp0 v b v₁) (hafter : After b v₁ v₂) : v₂.Delivered := by
  have hv₁ : v₁.Delivered := by
    cases hs with
    | idle hnil => exact h
    | keep hl hn =>
      exact h.congr (fun p hp => requeue_processes sp0 v ▸ hp) fun p =>
        congrArg (fun f => ProcessView.messages (f p)) (requeue_proc sp0 v)
    | switch hl hn hd =>
      exact h.congr (fun p hp => requeue_processes sp0 v ▸ hp) fun p =>
        congrArg (fun f => ProcessView.messages (f p)) (requeue_proc sp0 v)
  cases hafter with
  | received hres hm hd => exact hv₁.take hm hd
  | _ => exact hv₁

lemma Delivered.step (h : v.Delivered) (hs : View.Step takes waits v v') : v'.Delivered :=
  hs.invariant (J := Delivered) (K := fun _ => Delivered) (fun _ _ hwf hJ hact => hJ.act hwf hact)
    (fun _ _ hJ => hJ) (fun _ _ _ _ _ hJ hg => hJ.giveUp hg)
    (fun _ _ _ _ _ _ hK hs _ hafter => hK.call hs hafter) h

end View

/-! ### Calls -/

/-- The memory after a receive, when the two places it writes to are disjoint: the pid of the
sender, as many bytes of the message as were asked for, and nothing else. -/
lemma Delivery.Exact.apply {d : Delivery} (h : d.Exact) (hsender : d.message.senderPid < 2 ^ 32)
    (hdisj : d.senderPid + 4 ≤ d.buffer ∨
      d.buffer + min d.size d.message.data.length ≤ d.senderPid) (mem : ByteMem) :
    (applyStores mem d.stores).read32 d.senderPid = d.message.senderPid ∧
    (applyStores mem d.stores).bytes d.buffer (min d.size d.message.data.length) =
      d.message.data.take d.size ∧
    ∀ x, (x < d.senderPid ∨ d.senderPid + 4 ≤ x) →
      (x < d.buffer ∨ d.buffer + min d.size d.message.data.length ≤ x) →
      applyStores mem d.stores x = mem x := by
  have hlen : (d.message.data.take d.size).length = min d.size d.message.data.length :=
    List.length_take
  rw [h, applyStores_append, applyStores_wordStores, applyStores_copyStores]
  refine ⟨?_, ?_, fun x h1 h2 => ?_⟩
  · rw [ByteMem.read32_congr fun x hx hx' => ByteMem.store_of_disjoint _ (by omega)]
    exact ByteMem.read32_write32_same mem hsender
  · rw [← hlen]
    exact ByteMem.bytes_store_same _ _ _
  · rw [ByteMem.store_of_disjoint _ (by omega), ByteMem.write32_of_disjoint _ _ h1]

end Gummy
