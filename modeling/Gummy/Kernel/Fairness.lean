import Gummy.Kernel.Handover
import Gummy.Kernel.ProcessTable

/-!
Who is given the processor, and who is not.

A process that has been killed never runs again once it has lost the processor.  Each other
thread of the ready queue is given it after at most as many calls of the scheduler as there
are threads before it: other threads go in behind it, and the first one is taken off at each
call.
-/

namespace Gummy

open CWord

open View (Act Acts GiveUp Calls Schedule After)

open Transition (Reachable Run)

variable {takes waits : View → Prop} {v v' : View} {t u : ThreadRef} {π r : ℕ}

/-! ### Places in a list -/

/-- At most `r` elements stand before `t`. -/
def Within {α : Type*} (l : List α) (t : α) (r : ℕ) : Prop :=
  ∃ pre suf, l = pre ++ t :: suf ∧ pre.length ≤ r

section Within

variable {α : Type*} {l : List α} {x y : α}

lemma Within.mem (h : Within l x r) : x ∈ l := by
  obtain ⟨pre, suf, rfl, -⟩ := h
  simp

lemma Within.append (h : Within l x r) (l' : List α) : Within (l ++ l') x r := by
  obtain ⟨pre, suf, rfl, hle⟩ := h
  exact ⟨pre, suf ++ l', by simp, hle⟩

lemma Within.filter (h : Within l x r) {f : α → Bool} (hx : f x = true) :
    Within (l.filter f) x r := by
  obtain ⟨pre, suf, rfl, hle⟩ := h
  refine ⟨pre.filter f, suf.filter f, ?_, (List.length_filter_le _ _).trans hle⟩
  rw [List.filter_append, List.filter_cons_of_pos hx]

lemma Within.erase [DecidableEq α] (h : Within l x r) (hne : x ≠ y) :
    Within (l.erase y) x r := by
  obtain ⟨pre, suf, rfl, hle⟩ := h
  by_cases hy : y ∈ pre
  · refine ⟨pre.erase y, suf, List.erase_append_left _ hy, ?_⟩
    exact List.length_erase_le.trans hle
  · refine ⟨pre, suf.erase y, ?_, hle⟩
    rw [List.erase_append_right _ hy, List.erase_cons_tail]
    simpa using hne

/-- The first element is taken off. -/
lemma Within.tail (h : Within (y :: l) x r) (hne : x ≠ y) : ∃ r', r = r' + 1 ∧ Within l x r' := by
  obtain ⟨pre, suf, heq, hle⟩ := h
  cases pre with
  | nil => exact absurd (List.cons.inj heq).1.symm hne
  | cons z pre =>
    obtain ⟨-, rfl⟩ := List.cons.inj heq
    obtain ⟨r', rfl⟩ := Nat.exists_eq_add_of_le' (Nat.one_le_of_lt hle)
    exact ⟨r', rfl, pre, suf, rfl, Nat.le_of_succ_le_succ hle⟩

end Within

namespace View

/-! ### Acts -/

/-- No process with the pid `π` lives. -/
def Gone (π : ℕ) (v : View) : Prop :=
  ∀ p ∈ v.processes, (v.proc p).pid = π → (v.proc p).state = .dying

/-- The thread `t` of the process with the pid `π` is ready, with at most `r` threads before
it. -/
structure Queued (t : ThreadRef) (π r : ℕ) (v : View) : Prop where
  ready : Within (v.queue .ready) t r
  current : t ≠ v.current
  pid : (v.proc t.process).pid = π

/-- Pids and states of the processes are the same. -/
lemma Gone.congr (h : v.Gone π) (hP : v'.processes = v.processes)
    (hproc : ∀ p, (v'.proc p).pid = (v.proc p).pid ∧ (v'.proc p).state = (v.proc p).state) :
    v'.Gone π := by
  intro p hp hpid
  rw [hP] at hp
  rw [(hproc p).1] at hpid
  rw [(hproc p).2]
  exact h p hp hpid

/-- What a change of one process does to the pids and states. -/
lemma setProc_pid (p : ℕ) {f : ProcessView → ProcessView}
    (hf : ∀ x, (f x).pid = x.pid ∧ (f x).state = x.state) (q : ℕ) :
    ((v.setProc p f).proc q).pid = (v.proc q).pid ∧
      ((v.setProc p f).proc q).state = (v.proc q).state := by
  by_cases hq : q = p
  · subst hq
    have hself : (v.setProc q f).proc q = f (v.proc q) := Function.update_self ..
    rw [hself]
    exact hf _
  · have hother : (v.setProc p f).proc q = v.proc q := Function.update_of_ne hq ..
    rw [hother]
    exact ⟨rfl, rfl⟩

lemma post_pid (p : ℕ) (m : Message) (q : ℕ) : ((v.post p m).proc q).pid = (v.proc q).pid ∧
    ((v.post p m).proc q).state = (v.proc q).state :=
  setProc_pid p (f := fun x => { x with
    mailbox := x.mailbox ++ [m], accepted := x.accepted ++ [m] }) (fun _ => ⟨rfl, rfl⟩) q

lemma take_pid (d : Delivery) (q : ℕ) : ((v.take d).proc q).pid = (v.proc q).pid ∧
    ((v.take d).proc q).state = (v.proc q).state :=
  setProc_pid v.current.process (f := fun x => { x with
    mailbox := x.mailbox.tail, delivered := x.delivered ++ [d] }) (fun _ => ⟨rfl, rfl⟩) q

lemma send_pid (p : ℕ) (m : Message) (q : ℕ) : ((v.send p m).proc q).pid = (v.proc q).pid ∧
    ((v.send p m).proc q).state = (v.proc q).state := by
  unfold View.send
  split
  · exact post_pid p m q
  · exact post_pid p m q

lemma send_processes (p : ℕ) (m : Message) : (v.send p m).processes = v.processes := by
  unfold View.send
  split <;> rfl

/-- A killed process does not come back, as pids are not used twice. -/
lemma Gone.act (h : v.Gone π) (hπ : π ≤ v.created) (hact : Act takes v v')
    (hlt : v'.created < 2 ^ 32) : v'.Gone π := by
  cases hact with
  | wake hu => exact h.congr rfl fun _ => ⟨rfl, rfl⟩
  | start ctx hp hnone => exact h.congr rfl fun _ => ⟨rfl, rfl⟩
  | @create p hp hi =>
    intro q hq hpid
    change ((Function.update v.proc p _) q).pid = π at hpid
    change ((Function.update v.proc p _) q).state = .dying
    by_cases hqp : q = p
    · -- the new pid is larger than `π`
      subst hqp
      rw [Function.update_self] at hpid
      have hnew : u32 (v.created + 1) = v.created + 1 := u32_of_lt hlt
      have hpid' : v.created + 1 = π := hnew.symm.trans hpid
      omega
    · rw [Function.update_of_ne hqp] at hpid ⊢
      exact h q ((List.mem_cons.1 hq).resolve_left hqp) hpid
  | destroy hp hi hcur => exact fun q hq hpid => h q (List.mem_of_mem_erase hq) hpid
  | @send p m hp hs hm => exact h.congr (send_processes p m) (send_pid p m)
  | take hm hd ht => exact h.congr rfl (take_pid _)

/-- Another thread goes to a queue. -/
lemma Queued.move (h : v.Queued t π r) {q : QueueRef} (hne : t ≠ u) (state : ThreadState) :
    (v.move q state u).Queued t π r := by
  refine ⟨?_, h.current, h.pid⟩
  change Within (Denotes.pushList v.queue q u .ready) t r
  by_cases hq : q = .ready
  · subst hq
    rw [Denotes.pushList_self]
    exact (h.ready.erase hne).append _
  · rw [Denotes.pushList_of_ne _ _ (Ne.symm hq)]
    exact h.ready.erase hne

/-- The threads of another process leave the queues. -/
lemma Queued.drop (h : v.Queued t π r) {p : ℕ} (hne : t.process ≠ p) {f : ℕ → ProcessView}
    (hf : (f t.process).pid = (v.proc t.process).pid) {P : List ℕ} :
    ({ v with queue := dropProcess v.queue p, proc := f, processes := P } : View).Queued t π r :=
  ⟨h.ready.filter (by simpa using hne), h.current, hf.trans h.pid⟩

/-- The process is destroyed, or the thread keeps its place. -/
lemma Queued.act (h : v.Queued t π r) (hwf : v.WF) (htree : v.Tree) (hact : Act takes v v') :
    v'.Gone π ∨ v'.Queued t π r := by
  have ht := h.ready.mem
  cases hact with
  | @wake u hu =>
    refine Or.inr (h.move ?_ _)
    rintro rfl
    exact absurd (hwf.unique _ _ _ ht hu) (by simp)
  | @start u ctx hp hnone =>
    have hne : t ≠ u := by
      rintro rfl
      obtain ⟨x, hx, -⟩ := hwf.used .ready t ht
      exact Option.some_ne_none x (hx.symm.trans hnone)
    exact Or.inr ⟨(h.move (q := .ready) hne .ready).ready, h.current, h.pid⟩
  | @create p hp hi =>
    have hne : t.process ≠ p := by
      rintro rfl
      exact hp (hwf.live .ready t ht)
    refine Or.inr ⟨h.ready, h.current, ?_⟩
    exact (congrArg ProcessView.pid (Function.update_of_ne hne _ _)).trans h.pid
  | @destroy p hp hi hcur =>
    by_cases hne : t.process = p
    · -- no other process has this pid
      left
      intro q hq hpid
      obtain ⟨hqp, hq⟩ := hwf.processes_nodup.mem_erase_iff.1 hq
      have hpid' : (v.proc q).pid = (v.proc p).pid := by
        rw [← hne]
        exact hpid.trans h.pid.symm
      exact absurd (htree.pid_inj q hq p hp hpid') hqp
    · exact Or.inr ⟨h.ready.filter (by simpa using hne), h.current, h.pid⟩
  | @send p m hp hs hm =>
    have hpost : (v.post p m).Queued t π r :=
      ⟨h.ready, h.current, (post_pid p m _).1.trans h.pid⟩
    refine Or.inr ?_
    unfold View.send
    cases hw : v.queue (.waiters p) with
    | nil => exact hpost
    | cons u l =>
      refine hpost.move ?_ _
      rintro rfl
      have hwait : t ∈ v.queue (.waiters p) := hw ▸ List.mem_cons_self
      exact absurd (hwf.unique _ _ _ ht hwait) (by simp)
  | take hm hd ht' =>
    exact Or.inr ⟨h.ready, h.current, (take_pid _ _).1.trans h.pid⟩

/-! ### The scheduler -/

/-- The process is killed, or the thread keeps its place. -/
lemma Queued.giveUp (h : v.Queued t π r) (hwf : v.WF) (htree : v.Tree) {sp0 : Context}
    (hg : GiveUp waits v sp0 v') : v'.Gone π ∨ v'.Queued t π r := by
  cases hg with
  | sleep hc => exact Or.inr (h.move h.current _)
  | exit hc => exact Or.inr (h.move h.current _)
  | wait hm hw => exact Or.inr (h.move h.current _)
  | kill hi =>
    have hself : (v.kill v.current.process).proc v.current.process =
        { v.proc v.current.process with state := .dying } := Function.update_self ..
    have hother : ∀ q, q ≠ v.current.process →
        (v.kill v.current.process).proc q = v.proc q := fun q hq => Function.update_of_ne hq ..
    by_cases hne : t.process = v.current.process
    · left
      intro q hq hpid
      by_cases hqc : q = v.current.process
      · rw [hqc, hself]
      · rw [hother q hqc] at hpid
        have hpid' : (v.proc q).pid = (v.proc v.current.process).pid := by
          rw [← hne]
          exact hpid.trans h.pid.symm
        exact absurd (htree.pid_inj q hq _ hwf.current_mem hpid') hqc
    · exact Or.inr (h.drop hne (congrArg ProcessView.pid (hother _ hne)))

lemma Gone.giveUp (h : v.Gone π) {sp0 : Context} (hg : GiveUp waits v sp0 v') : v'.Gone π := by
  cases hg with
  | kill hi =>
    intro q hq hpid
    by_cases hqc : q = v.current.process
    · have hself : (v.kill v.current.process).proc v.current.process =
          { v.proc v.current.process with state := .dying } := Function.update_self ..
      rw [hqc, hself]
    · have hother : (v.kill v.current.process).proc q = v.proc q := Function.update_of_ne hqc ..
      rw [hother] at hpid ⊢
      exact h q hq hpid
  | _ => exact h

/-- A call of the scheduler brings the thread forward by one place, if not to the processor. -/
lemma Queued.schedule (h : v.Queued t π r) (hwf : v.WF) (htree : v.Tree) {sp0 : Context} {b : Bool}
    (hs : Schedule sp0 v b v') :
    v'.current = t ∨ v'.Gone π ∨ ∃ r', r = r' + 1 ∧ v'.Queued t π r' := by
  have hrequeue : Within ((v.requeue sp0).queue .ready) t r := by
    rw [requeue_queue]
    split_ifs
    · rw [Denotes.pushList_self]
      exact (h.ready.erase h.current).append _
    · exact h.ready
  have hP : (v.requeue sp0).processes = v.processes := requeue_processes sp0 v
  have hproc : (v.requeue sp0).proc = v.proc := requeue_proc sp0 v
  cases hs with
  | idle hnil =>
    have ht := h.ready.mem
    rw [hnil] at ht
    exact absurd ht List.not_mem_nil
  | @keep n l hl hn =>
    rw [hl] at hrequeue
    by_cases htn : t = n
    · -- the thread is dropped, since its process is dying
      refine Or.inr (Or.inl fun q hq hpid => ?_)
      have hdying : (v.proc t.process).state = .dying := by
        rw [htn]
        refine hn.resolve_left ?_
        rintro rfl
        exact h.current htn
      change q ∈ (v.requeue sp0).processes at hq
      change ((v.requeue sp0).proc q).pid = π at hpid
      change ((v.requeue sp0).proc q).state = .dying
      rw [hP] at hq
      rw [hproc] at hpid ⊢
      have ht := hwf.live .ready t h.ready.mem
      rw [htree.pid_inj q hq _ ht (hpid.trans h.pid.symm)]
      exact hdying
    · obtain ⟨r', rfl, hw⟩ := hrequeue.tail htn
      refine Or.inr (Or.inr ⟨r', rfl, ?_, ?_, ?_⟩)
      · rw [skip_queue, Function.update_self]
        exact hw
      · change t ≠ (v.requeue sp0).current
        rw [requeue_current]
        exact h.current
      · change ((v.requeue sp0).proc t.process).pid = π
        rw [hproc]
        exact h.pid
  | @switch n l hl hn hd =>
    rw [hl] at hrequeue
    by_cases htn : t = n
    · exact Or.inl htn.symm
    · obtain ⟨r', rfl, hw⟩ := hrequeue.tail htn
      refine Or.inr (Or.inr ⟨r', rfl, ?_, htn, ?_⟩)
      · rw [dispatch_queue, Function.update_self]
        exact hw
      · change ((v.requeue sp0).proc t.process).pid = π
        rw [hproc]
        exact h.pid

lemma Gone.schedule (h : v.Gone π) {sp0 : Context} {b : Bool} (hs : Schedule sp0 v b v') :
    v'.Gone π := by
  obtain ⟨hP, hproc, -⟩ := hs.processes_eq
  exact h.congr hP fun p => by rw [hproc]; exact ⟨rfl, rfl⟩

lemma Gone.after (h : v.Gone π) {b : Bool} (hafter : After b v v') : v'.Gone π := by
  cases hafter with
  | received hr hm hd => exact h.congr rfl (take_pid _)
  | _ => exact h

lemma Queued.after (h : v.Queued t π r) {b : Bool} (hafter : After b v v') :
    v'.Queued t π r := by
  cases hafter with
  | received hr hm hd => exact ⟨h.ready, h.current, (take_pid _ _).1.trans h.pid⟩
  | returned => exact h
  | stopped => exact ⟨h.ready, h.current, h.pid⟩
  | elsewhere he => exact h
  | starved hr hm => exact h

lemma After.current_eq {b : Bool} (hafter : After b v v') : v'.current = v.current := by
  cases hafter <;> rfl

lemma After.created_eq {b : Bool} (hafter : After b v v') : v'.created = v.created := by
  cases hafter <;> rfl

lemma GiveUp.created_eq {sp0 : Context} (hg : GiveUp waits v sp0 v') :
    v'.created = v.created := by
  cases hg <;> rfl

/-- The scheduler and what follows it change no pid and no father. -/
lemma Tree.scheduled (h : v.Tree) {sp0 : Context} {b : Bool} {v₁ v₂ : View}
    (hs : Schedule sp0 v b v₁) (hafter : After b v₁ v₂) : v₂.Tree := by
  obtain ⟨hP, hproc, hc⟩ := hs.processes_eq
  have hv₁ : v₁.Tree := h.congr hP hc (fun p => by rw [hproc]) fun p => by rw [hproc]
  cases hafter with
  | received hr hm hd => exact hv₁.setProc _ rfl rfl
  | _ => exact hv₁.congr rfl rfl (fun _ => rfl) fun _ => rfl

/-- What is known of the pid `π` before each act, as long as pids do not wrap. -/
def Counted (t : ThreadRef) (π r : ℕ) (v : View) : Prop :=
  v.created < 2 ^ 32 → v.Tree ∧ π ≤ v.created ∧ (v.Gone π ∨ v.Queued t π r)

lemma Counted.act (h : v.Counted t π r) (hwf : v.WF) (hact : Act takes v v') :
    v'.Counted t π r := by
  intro hlt
  obtain ⟨htree, hπ, hcases⟩ := h (hact.created_le.trans_lt hlt)
  refine ⟨Tree.act hwf (fun _ => htree) hact hlt, hπ.trans hact.created_le, ?_⟩
  rcases hcases with hgone | hqueued
  · exact Or.inl (hgone.act hπ hact hlt)
  · exact hqueued.act hwf htree hact

/-- No thread of the process with the pid `π` runs, and none will. -/
structure Off (π : ℕ) (v : View) : Prop where
  gone : v.Gone π
  current : (v.proc v.current.process).pid ≠ π

lemma Off.act (h : v.Off π) (hwf : v.WF) (hπ : π ≤ v.created) (hact : Act takes v v')
    (hlt : v'.created < 2 ^ 32) : v'.Off π := by
  refine ⟨h.gone.act hπ hact hlt, ?_⟩
  cases hact with
  | @create p hp hi =>
    have hne : v.current.process ≠ p := by
      rintro rfl
      exact hp hwf.current_mem
    have hproc : (v.create p).proc v.current.process = v.proc v.current.process :=
      Function.update_of_ne hne ..
    change ((v.create p).proc v.current.process).pid ≠ π
    rw [hproc]
    exact h.current
  | @send p m hp hs hm =>
    have hcur : (v.send p m).current = v.current := by
      unfold View.send
      split <;> rfl
    rw [hcur, (send_pid p m _).1]
    exact h.current
  | take hm hd ht =>
    rw [(take_pid _ _).1]
    exact h.current
  | _ => exact h.current

lemma Off.giveUp (h : v.Off π) {sp0 : Context} (hg : GiveUp waits v sp0 v') : v'.Off π := by
  refine ⟨h.gone.giveUp hg, ?_⟩
  cases hg with
  | kill hi =>
    have hself : (v.kill v.current.process).proc v.current.process =
        { v.proc v.current.process with state := .dying } := Function.update_self ..
    change ((v.kill v.current.process).proc v.current.process).pid ≠ π
    rw [hself]
    exact h.current
  | _ => exact h.current

/-- Only threads of live processes are dispatched. -/
lemma Off.schedule (h : v.Off π) (hwf : v.WF) {sp0 : Context} {b : Bool}
    (hs : Schedule sp0 v b v') : v'.Off π := by
  refine ⟨h.gone.schedule hs, ?_⟩
  have hproc := hs.processes_eq.2.1
  rw [hproc]
  cases hs with
  | idle hnil => exact h.current
  | keep hl hn =>
    change (v.proc (v.requeue sp0).current.process).pid ≠ π
    rw [requeue_current]
    exact h.current
  | @switch n l hl hn hd =>
    intro hpid
    have hready : n ∈ (v.requeue sp0).queue .ready := hl ▸ List.mem_cons_self
    have hlive := (hwf.requeue sp0).live .ready n hready
    rw [requeue_processes] at hlive
    exact hd (h.gone n.process hlive hpid)

lemma Off.after (h : v.Off π) {b : Bool} (hafter : After b v v') : v'.Off π := by
  refine ⟨h.gone.after hafter, ?_⟩
  rw [After.current_eq hafter]
  cases hafter with
  | received hr hm hd =>
    rw [(take_pid _ _).1]
    exact h.current
  | _ => exact h.current

lemma Off.step (h : v.created < 2 ^ 32 → π ≤ v.created ∧ v.Off π)
    (hs : View.Step takes waits v v') : v'.created < 2 ^ 32 → π ≤ v'.created ∧ v'.Off π := by
  refine hs.invariant (J := fun v => v.created < 2 ^ 32 → π ≤ v.created ∧ v.Off π)
    (K := fun _ v => v.created < 2 ^ 32 → π ≤ v.created ∧ v.Off π) ?_ (fun _ _ h => h) ?_ ?_ h
  · intro v v' hwf hJ hact hlt
    obtain ⟨hπ, hoff⟩ := hJ (hact.created_le.trans_lt hlt)
    exact ⟨hπ.trans hact.created_le, hoff.act hwf hπ hact hlt⟩
  · intro v v' sp0 _ _ hJ hg hlt
    rw [GiveUp.created_eq hg] at hlt ⊢
    obtain ⟨hπ, hoff⟩ := hJ hlt
    exact ⟨hπ, hoff.giveUp hg⟩
  · intro v v₁ v₂ sp0 b hwf hJ hs _ hafter hlt
    rw [After.created_eq hafter, hs.processes_eq.2.2] at hlt ⊢
    obtain ⟨hπ, hoff⟩ := hJ hlt
    exact ⟨hπ, (hoff.schedule hwf hs).after hafter⟩

end View

/-! ### Killed processes -/

variable {s s' : Kernel}

/-- The timer and `int $0x81` always call the scheduler. -/
def Event.reschedules : Event → Bool
  | .tick => true
  | .yield => true
  | _ => false

lemma Event.calls_of_reschedules {e : Event} (h : e.reschedules = true) :
    ∃ s₁, handle e s = .call .interrupted id s₁ := by
  cases e with
  | tick => exact ⟨_, rfl⟩
  | yield => exact ⟨_, rfl⟩
  | _ => exact absurd h Bool.false_ne_true

/-- A step that calls the scheduler, in its parts. -/
lemma Abs.step_call (h : Abs s v []) {e : Event} (hadm : Admissible s e) (hrun : s.halted = false)
    {sp0 : Context} {rest : Kernel → Kernel} {s₁ : Kernel}
    (hcall : Gummy.handle e s = .call sp0 rest s₁) :
    ∃ v₁ v₂ b v₃ v₄, View.Acts (fun _ => True) v v₁ ∧ Calls (fun _ => True) v₁ sp0 v₂ ∧ v₂.WF ∧
      Schedule sp0 v₂ b v₃ ∧ After b v₃ v₄ ∧ Abs (Gummy.step s e) v₄ [] := by
  have hhandle : (Gummy.handle e s).Refines (fun _ => True) (fun _ => True) v :=
    h.handle hadm (fun _ _ => trivial) (fun _ _ => trivial)
  rw [hcall] at hhandle
  obtain ⟨v₁, v₂, hacts, hcalls, habs, hrest⟩ := hhandle
  obtain ⟨b, s', v₃, heq, hs, habs'⟩ := habs.schedule sp0
  have hstep : Gummy.step s e = (Outcome.call sp0 rest s₁).finish := by
    rw [Gummy.step, hrun, if_neg Bool.false_ne_true, hcall]
  rw [hstep, Outcome.finish, heq]
  cases b with
  | false =>
    obtain ⟨v₄, hafter, hend⟩ := hrest s' v₃ hs habs'
    exact ⟨v₁, v₂, false, v₃, v₄, hacts, hcalls, habs.wf, hs, hafter, hend⟩
  | true =>
    have hhalted : v₂.halted = false := by
      obtain ⟨rfl, -⟩ | ⟨-, hg⟩ := hcalls
      · rw [hacts.halted_eq, ← h.halted, hrun]
      · rw [hg.halted_eq, hacts.halted_eq, ← h.halted, hrun]
    obtain ⟨v₄, hafter, hend⟩ := habs'.resume (habs'.halted.trans (hs.halted_eq.trans hhalted))
    exact ⟨v₁, v₂, true, v₃, v₄, hacts, hcalls, habs.wf, hs, hafter, hend⟩

/-- The thread runs, or it need not: the processor has stopped, or no process with the pid `π`
lives. -/
def Kernel.Settled (t : ThreadRef) (π : ℕ) (s : Kernel) : Prop :=
  s.halted = true ∨ s.currentThread = t ∨
    ∀ p ∈ s.processes, (s.proc p).pid = π → (s.proc p).state = .dying

lemma Abs.settled (h : Abs s v []) (hv : v.current = t ∨ v.Gone π) : s.Settled t π := by
  rcases hv with hcur | hgone
  · exact Or.inr (Or.inl (h.current.trans hcur))
  · refine Or.inr (Or.inr fun p hp hpid => ?_)
    rw [h.inv.processes_eq] at hp
    have hproc := h.proc p hp
    rw [hproc.pid] at hpid
    rw [hproc.state]
    exact hgone p hp hpid

/-- The thread is ready, with at most `r` threads before it. -/
def Kernel.Waiting (t : ThreadRef) (π r : ℕ) (s : Kernel) : Prop :=
  ∃ v, Abs s v [] ∧ v.Counted t π r

/-- One step of a waiting thread. -/
lemma Kernel.Waiting.step (h : s.Waiting t π r) {e : Event} (hadm : Admissible s e)
    (hlt : (Gummy.step s e).created < 2 ^ 32) :
    (Gummy.step s e).Settled t π ∨ (e.reschedules = false ∧ (Gummy.step s e).Waiting t π r) ∨
      ∃ r', r = r' + 1 ∧ (Gummy.step s e).Waiting t π r' := by
  obtain ⟨v, habs, hv⟩ := h
  cases hrun : s.halted with
  | true =>
    left
    left
    rw [Gummy.step, hrun, if_pos rfl, hrun]
  | false =>
    cases hout : Gummy.handle e s with
    | done s₁ =>
      have htick : e.reschedules = false := by
        rw [← Bool.not_eq_true]
        intro htick
        obtain ⟨s₂, hcall⟩ := Event.calls_of_reschedules (s := s) htick
        cases hout.symm.trans hcall
      have hhandle : (Gummy.handle e s).Refines (fun _ => True) (fun _ => True) v :=
        habs.handle hadm (fun _ _ => trivial) (fun _ _ => trivial)
      rw [hout] at hhandle
      obtain ⟨v', hacts, habs'⟩ := hhandle
      have hstep : Gummy.step s e = s₁ := by
        rw [Gummy.step, hrun, if_neg Bool.false_ne_true, hout, Outcome.finish]
      rw [hstep]
      exact Or.inr (Or.inl ⟨htick, v', habs', hacts.invariant
        (fun _ _ hwf hJ hact => View.Counted.act hJ hwf hact) hv⟩)
    | call sp0 rest s₁ =>
      obtain ⟨v₁, v₂, b, v₃, v₄, hacts, hcalls, hwf₂, hs, hafter, habs'⟩ :=
        habs.step_call hadm hrun hout
      have hlt₄ : v₄.created < 2 ^ 32 := habs'.created ▸ hlt
      have hlt₂ : v₂.created < 2 ^ 32 := by
        rwa [← hs.processes_eq.2.2, ← View.After.created_eq hafter]
      have hv₁ := hacts.invariant (J := View.Counted t π r)
        (fun _ _ hwf hJ hact => View.Counted.act hJ hwf hact) hv
      have hv₂ : v₂.Tree ∧ π ≤ v₂.created ∧ (v₂.Gone π ∨ v₂.Queued t π r) := by
        rcases hcalls with ⟨rfl, -⟩ | ⟨hwf₁, hg⟩
        · exact hv₁ hlt₂
        · have hcreated := View.GiveUp.created_eq hg
          obtain ⟨htree, hπ, hcases⟩ := hv₁ (hcreated ▸ hlt₂)
          refine ⟨htree.giveUp hg, hcreated ▸ hπ, ?_⟩
          rcases hcases with hgone | hqueued
          · exact Or.inl (hgone.giveUp hg)
          · exact hqueued.giveUp hwf₁ htree hg
      obtain ⟨htree, hπ, hgone | hqueued⟩ := hv₂
      · exact Or.inl (habs'.settled (Or.inr ((hgone.schedule hs).after hafter)))
      · rcases hqueued.schedule hwf₂ htree hs with hcur | hgone | ⟨r', rfl, hnext⟩
        · exact Or.inl (habs'.settled (Or.inl ((View.After.current_eq hafter).trans hcur)))
        · exact Or.inl (habs'.settled (Or.inr (hgone.after hafter)))
        · refine Or.inr (Or.inr ⟨r', rfl, v₄, habs', fun _ => ?_⟩)
          refine ⟨htree.scheduled hs hafter, ?_, Or.inr (hnext.after hafter)⟩
          rwa [View.After.created_eq hafter, hs.processes_eq.2.2]

end Gummy
