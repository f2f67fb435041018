import Gummy.Kernel.Refinement
import Gummy.Lib.Transition

/-!
Each step of the kernel is a step of its view.

`Abs.handle` goes through the entries one by one; `Abs.step` puts the scheduler behind
them.  The invariants of views carry over to every reachable state of the kernel by
`reachable_view`.
-/

namespace Gummy

open CWord

open View (Act Acts GiveUp Calls Resumes Schedule After)

open Transition (Reachable)

variable {s s' : Kernel} {v : View} {D : List (ℕ × ℕ)} {takes waits : View → Prop}

/-! ### System calls -/

theorem Abs.sysNthread (h : Abs s v D) (entry : ℕ) (c : HeapChoice) :
    ∃ r s' v', sysNthread entry c s = (r, s') ∧ Acts takes v v' ∧ Abs s' v' D := by
  rw [Gummy.sysNthread, h.currentProcess]
  dsimp only
  have hp := h.wf.current_mem
  obtain ⟨s', heq, habs⟩ | ⟨t, s', ctx, heq, ht, hfree, habs⟩ := h.schedCreateThread hp entry c
  · rw [heq]
    exact ⟨_, s', v, rfl, .refl, habs⟩
  · rw [heq]
    have hp' : t.process ∈ v.processes := ht ▸ hp
    exact ⟨_, _, _, rfl, .single ⟨h.wf, .start ctx hp' hfree⟩, habs.startThread hp'⟩

/-- `sched_create_process` either fails or gives the current process a child. -/
theorem Abs.schedCreateProcess (h : Abs s v D) (c : HeapChoice) :
    (∃ s', schedCreateProcess c s = (none, s') ∧ Abs s' v D) ∨
      ∃ p s', schedCreateProcess c s = (some p, s') ∧ p ∉ v.processes ∧ p ≠ idleProcess ∧
        Abs s' (v.create p) D := by
  obtain ⟨res, s', heq, ⟨rfl, hinv, hframe⟩ | ⟨p, rfl, hinv, hnew⟩⟩ := h.inv.schedCreateProcess c
  · refine Or.inl ⟨s', heq, h.quiet hinv
      { proc := fun p hp => by rw [hframe.proc p hp]
        thread := fun t ht => by rw [hframe.thread t ht]
        current := hframe.globals.currentThread
        created := hframe.globals.created
        currentPid := hframe.globals.currentPid
        halted := hframe.globals.halted
        accepted := hframe.accepted
        delivered := hframe.delivered }⟩
  · exact Or.inr ⟨p, s', heq, hnew.not_mem, hnew.ne_idle, h.create hinv hnew⟩

@[simp] lemma copyImage_cr3 (virt : ℕ) (image : List UInt8) (m : Machine) :
    (copyImage virt image m).cr3 = m.cr3 := by
  refine foldl_cr3 m (fun m b => ?_) _
  obtain ⟨a, b⟩ := b
  dsimp only
  split <;> rfl

/-- `sys_nprocess_impl`. -/
theorem Abs.sysNprocess (h : Abs s v []) (entry : ℕ) (image : List UInt8)
    (cData cProc cStack : HeapChoice) (g : Garbage) :
    ∃ r s' v', sysNprocess entry image cData cProc cStack g s = (r, s') ∧ Acts takes v v' ∧
      Abs s' v' [] := by
  unfold Gummy.sysNprocess
  by_cases hentry : entry = 0 ∨ image.length = 0
  · exact ⟨0, s, v, if_pos hentry, .refl, h⟩
  rw [if_neg hentry]
  obtain ⟨s₁, heq, h₁⟩ | ⟨s₁, heq, h₁⟩ := h.heapGet image.length cData
  · rw [heq]
    exact ⟨0, s₁, v, rfl, .refl, h₁⟩
  rw [heq]
  dsimp only
  obtain ⟨s₂, heq, h₂⟩ | ⟨p, s₂, heq, hp, hi, h₂⟩ := h₁.schedCreateProcess cProc
  · rw [heq]
    exact ⟨0, _, v, rfl, .refl, h₂.heapPut rfl⟩
  rw [heq]
  dsimp only
  have hcreate : Acts takes v (v.create p) := .single ⟨h.wf, .create hp hi⟩
  have hmem : p ∈ (v.create p).processes := List.mem_cons_self
  have hcr3 := vmmAllocPagesRegionIn_cr3 s₂.mach (s₂.proc p).cr3
    (alignUp 32 image.length pageSize / pageSize)
    (vmmFlagsPresent ||| vmmFlagsRw ||| vmmFlagsUser) imageBase
    (u32 (imageBase + alignUp 32 image.length pageSize / pageSize * pageSize))
  rcases halloc : vmmAllocPagesRegionIn (s₂.proc p).cr3
    (alignUp 32 image.length pageSize / pageSize)
    (vmmFlagsPresent ||| vmmFlagsRw ||| vmmFlagsUser) imageBase
    (u32 (imageBase + alignUp 32 image.length pageSize / pageSize * pageSize)) s₂.mach with ⟨res, m⟩
  rw [halloc] at hcr3
  dsimp only
  have h₃ := h₂.withMach hcr3
  by_cases hres : res.isNone = true
  · rw [if_pos hres]
    obtain ⟨v', hacts, habs⟩ := (h₃.heapPut rfl).schedDestroyProcess hmem hi g takes
    exact ⟨0, _, v', rfl, hcreate.trans hacts, habs⟩
  rw [if_neg hres]
  obtain ⟨s₄, heq, h₄⟩ | ⟨t, s₄, ctx, heq, ht, hfree, h₄⟩ :=
    h₃.schedCreateThread hmem imageBase cStack
  · rw [heq]
    dsimp only
    have h₅ := h₄.withMach (vmmFreePagesIn_cr3 s₄.mach (s₄.proc p).cr3
      (alignUp 32 image.length pageSize / pageSize) imageBase)
    obtain ⟨v', hacts, habs⟩ := (h₅.heapPut rfl).schedDestroyProcess hmem hi g takes
    exact ⟨0, _, v', rfl, hcreate.trans hacts, habs⟩
  · rw [heq]
    dsimp only
    have hcopy := inSpace_cr3 s₄.mach (s₄.proc p).cr3
      (f := fun m => ((), copyImage imageBase image m)) (copyImage_cr3 imageBase image)
    have h₅ := (h₄.withMach hcopy).heapPut rfl
    have hmem' : t.process ∈ (v.create p).processes := ht ▸ hmem
    exact ⟨_, _, _, rfl, hcreate.tail ⟨h₂.wf, .start ctx hmem' hfree⟩, h₅.startThread hmem'⟩

/-! ### Entries -/

/-- What an outcome of a handler says about the view `v` before it. -/
def Outcome.Refines (takes waits : View → Prop) (v : View) : Outcome → Prop
  | .done s => ∃ v', Acts takes v v' ∧ Abs s v' []
  | .call sp0 rest s => ∃ v₁ v₂, Acts takes v v₁ ∧ Calls waits v₁ sp0 v₂ ∧ Abs s v₂ [] ∧
      ∀ s' v', Schedule sp0 v₂ false v' → Abs s' v' [] →
        ∃ v'', After false v' v'' ∧ Abs (rest s') v'' []

/-- A system call that only returns a value. -/
lemma Abs.returning {r : ℕ × Kernel} {v' : View} (h : Abs r.2 v' [])
    (hacts : Acts takes v v') : (Gummy.returning r).Refines takes waits v :=
  ⟨v', hacts, h.setEax _ _⟩

/-- `ipc_receive` from its `ring_buffer_pop` on, up to the return to user code. -/
lemma Abs.receiveRest (h : Abs s v D) (senderPid buffer size : ℕ) :
    ((v.proc v.current.process).mailbox = [] ∧ Abs (receiveRest senderPid buffer size s) v D) ∨
      ∃ d l, (v.proc v.current.process).mailbox = d.message :: l ∧ d.Exact ∧
        Abs (receiveRest senderPid buffer size s) (v.take d) D := by
  unfold Gummy.receiveRest
  cases hm : (v.proc v.current.process).mailbox with
  | nil =>
    rw [h.ipcTake_nil hm]
    exact Or.inl ⟨rfl, h.setEax _ _⟩
  | cons m l =>
    obtain ⟨d, s', heq, rfl, -, -, -, hd, habs⟩ := h.ipcTake_cons hm senderPid buffer size
    rw [heq]
    exact Or.inr ⟨d, l, rfl, hd, habs.setEax _ _⟩

lemma View.Schedule.false_proc {sp0 : Context} {v v' : View} (h : Schedule sp0 v false v') :
    v'.proc = v.proc ∧ v'.current = v.current := by
  cases h with
  | idle h => exact ⟨rfl, rfl⟩
  | keep h hn => exact ⟨View.requeue_proc sp0 v, View.requeue_current sp0 v⟩

/-- The arguments of `ipc_receive` get past its checks. -/
def ReceiveArgs (senderPid buffer size : ℕ) : Prop :=
  ¬ (senderPid = 0 ∨ buffer = 0 ∨ size = 0 ∨ size > ipcMsgMax)

/-- `ipc_receive` with an empty mailbox: the current thread waits. -/
lemma Abs.receive_wait (h : Abs s v []) {senderPid buffer size : ℕ}
    (hargs : ReceiveArgs senderPid buffer size)
    (hm : (v.proc v.current.process).mailbox = []) :
    ∃ s', ipcReceive senderPid buffer size s =
        .call (.receive senderPid buffer size) (Gummy.receiveRest senderPid buffer size) s' ∧
      Abs s' (v.move (.waiters v.current.process) .blocked v.current) [] := by
  have hempty := (h.proc _ h.wf.current_mem).mailbox.empty_iff
  obtain ⟨x, hx, hfree⟩ := h.wf.current_used
  have hmove := h.moveTo (.waiters v.current.process) .blocked h.wf.current_mem hx hfree
    (fun p hp => by injection hp) (by simp)
  unfold ipcReceive
  rw [if_neg hargs, h.currentProcess]
  dsimp only
  rw [if_pos (hempty.2 hm), h.current]
  exact ⟨_, rfl, hmove⟩

lemma Abs.receive (h : Abs s v []) (senderPid buffer size : ℕ)
    (htakes : ReceiveArgs senderPid buffer size → (v.proc v.current.process).mailbox ≠ [] →
      takes v)
    (hwaits : ReceiveArgs senderPid buffer size → (v.proc v.current.process).mailbox = [] →
      waits v) : (ipcReceive senderPid buffer size s).Refines takes waits v := by
  by_cases hargs : ReceiveArgs senderPid buffer size
  · by_cases hm : (v.proc v.current.process).mailbox = []
    · obtain ⟨s', heq, hmove⟩ := h.receive_wait hargs hm
      rw [heq]
      refine ⟨v, _, .refl, Or.inr ⟨h.wf, .wait hm (hwaits hargs hm)⟩, hmove, ?_⟩
      intro s' v' hs h'
      obtain ⟨hproc, hcur⟩ := hs.false_proc
      obtain ⟨-, hrest⟩ | ⟨d, l, hcons, -⟩ := h'.receiveRest senderPid buffer size
      · exact ⟨v', .returned v', hrest⟩
      · -- the mailbox is still empty
        rw [hproc, hcur] at hcons
        exact absurd (hm.symm.trans hcons) (by simp)
    · have hempty := (h.proc _ h.wf.current_mem).mailbox.empty_iff
      unfold ipcReceive
      rw [if_neg hargs, h.currentProcess]
      dsimp only
      rw [if_neg (mt hempty.1 hm)]
      obtain ⟨hnil, -⟩ | ⟨d, l, hcons, hd, hrest⟩ := h.receiveRest senderPid buffer size
      · exact absurd hnil hm
      · exact ⟨_, .single ⟨h.wf, .take hcons hd (htakes hargs hm)⟩, hrest⟩
  · unfold ipcReceive
    rw [if_pos (not_not.1 hargs)]
    exact ⟨v, .refl, h.setEax _ _⟩

/-- The current thread moves to another queue, with something changed that cannot be seen. -/
lemma Abs.moveCurrent (h : Abs s v D) {f : Thread → Thread}
    (howned : (f (s.thread s.currentThread)).owned = (s.thread s.currentThread).owned)
    (hview : (f (s.thread s.currentThread)).view = (s.thread s.currentThread).view)
    (q : QueueRef) (state : ThreadState) (hq : ∀ p, q = .waiters p → v.current.process = p)
    (hstate : state ≠ .free) :
    Abs (Gummy.moveTo q state s.currentThread (s.setThread s.currentThread f))
      (v.move q state v.current) D := by
  have hset := h.setThread s.currentThread howned hview
  obtain ⟨x, hx, hfree⟩ := hset.wf.current_used
  rw [h.current] at hset ⊢
  exact hset.moveTo q state h.wf.current_mem hx hfree hq hstate

lemma Abs.sleep (h : Abs s v []) (wakeTick : ℕ) :
    (schedThreadSleep wakeTick s).Refines takes waits v := by
  unfold schedThreadSleep
  dsimp only
  by_cases hwake : wakeTick ≤ s.ticks
  · rw [if_pos hwake]
    exact ⟨v, .refl, h.setEax _ _⟩
  rw [if_neg hwake]
  by_cases hidle : s.currentThread = idleThread
  · rw [if_pos hidle]
    exact ⟨v, .refl, h.setEax _ _⟩
  rw [if_neg hidle]
  exact ⟨v, _, .refl, Or.inr ⟨h.wf, .sleep (h.current ▸ hidle)⟩,
    h.moveCurrent (f := ({ · with wakeTick })) rfl rfl .sleep .sleeping (by simp) (by simp),
    fun s' v' _ h' => ⟨v', .returned v', h'.setEax _ _⟩⟩

lemma Abs.exit (h : Abs s v []) (status : ℕ) :
    (schedExitCurrentThread status s).Refines takes waits v := by
  unfold schedExitCurrentThread
  rw [h.currentProcess]
  by_cases hidle : some v.current.process = some idleProcess
  · rw [if_pos hidle]
    exact ⟨v, .refl, h.setEax _ _⟩
  rw [if_neg hidle]
  dsimp only
  refine ⟨v, _, .refl, Or.inr ⟨h.wf, .exit fun hp => hidle (congrArg some hp)⟩,
    h.moveCurrent (f := ({ · with exitCode := status })) rfl rfl .zombie .zombie (by simp)
      (by simp), ?_⟩
  · intro s' v' _ h'
    have hinv : Inv { s' with halted := true } v'.processes v'.queue [] :=
      { h'.inv with heap := { h'.inv.heap with } }
    exact ⟨_, .stopped v', { h' with
      inv := hinv
      proc := fun p hp => (h'.proc p hp).congr rfl rfl rfl
      halted := rfl }⟩

/-- The event is a call of `ipc_receive` that gets past its checks. -/
def Event.Receives : Event → Prop
  | .receive senderPid buffer size => ReceiveArgs (u32 senderPid) (u32 buffer) (u32 size)
  | _ => False

/-- The handler of an entry acts on the view. -/
theorem Abs.handle (h : Abs s v []) {e : Event} (hadm : Admissible s e)
    (htakes : e.Receives → (v.proc v.current.process).mailbox ≠ [] → takes v)
    (hwaits : e.Receives → (v.proc v.current.process).mailbox = [] → waits v) :
    (handle e s).Refines takes waits v := by
  cases e with
  | tick =>
    obtain ⟨v', hacts, habs, -⟩ := h.timerTick takes
    exact ⟨v', v', hacts, Or.inl ⟨rfl, rfl⟩, habs,
      fun _ v' _ h' => ⟨v', .returned v', h'⟩⟩
  | yield => exact ⟨v, v, .refl, Or.inl ⟨rfl, rfl⟩, h,
      fun _ v' _ h' => ⟨v', .returned v', h'⟩⟩
  | exit status => exact h.exit _
  | getpid => exact Abs.returning (r := (_, s)) h .refl
  | getppid => exact Abs.returning (r := (_, s)) h .refl
  | nprocess entry image cData cProc cStack g =>
    obtain ⟨r, s', v', heq, hacts, habs⟩ := h.sysNprocess (u32 entry) image cData cProc cStack g
    rw [Gummy.handle, heq]
    exact Abs.returning (r := (r, s')) habs hacts
  | nthread entry c =>
    obtain ⟨r, s', v', heq, hacts, habs⟩ := h.sysNthread (u32 entry) c
    rw [Gummy.handle, heq]
    exact Abs.returning (r := (r, s')) habs hacts
  | sleep ms => exact h.sleep _
  | send pid type data size stack =>
    rw [Gummy.handle]
    obtain ⟨err, heq, -⟩ | ⟨s', p, m, heq, hp, hs, hm, habs⟩ :=
      h.ipcSend (u32 pid) (u32_lt type) data (u32 size) stack
    · rw [heq]
      exact Abs.returning (r := (err, s)) h .refl
    · rw [heq]
      exact Abs.returning (r := (0, s')) habs (.single ⟨h.wf, .send m hp hs hm⟩)
  | receive senderPid buffer size =>
    exact h.receive _ _ _ htakes hwaits
  | fault =>
    rw [Gummy.handle, h.currentProcess]
    have hi : v.current.process ≠ idleProcess := h.current ▸ hadm
    refine ⟨v, v.kill v.current.process, .refl, Or.inr ⟨h.wf, .kill hi⟩,
      h.killCurrentProcess h.wf.current_mem,
      fun _ v' _ h' => ⟨v', .returned v', h'⟩⟩
  | destroy proc g =>
    obtain ⟨hp, hi⟩ := hadm
    rw [h.inv.processes_eq] at hp
    exact h.schedDestroyProcess hp hi g takes
  | alloc size c =>
    rw [Gummy.handle]
    obtain ⟨s', heq, habs⟩ | ⟨s', heq, habs⟩ := h.heapGet (u32 size) c
    · rw [heq]
      exact ⟨v, .refl, habs⟩
    · rw [heq]
      exact ⟨v, .refl, habs.quiet (habs.inv.forget rfl) {}⟩
  | mapKernel n regionStart regionEnd =>
    exact ⟨v, .refl, h.withMach (vmmAllocPagesRegion_cr3 s.mach n _ _ _)⟩

/-! ### Steps -/

/-- The thread that was switched to goes on. -/
lemma Abs.resume (h : Abs s v []) (hrun : s.halted = false) :
    ∃ v', After true v v' ∧ Abs (resume s) v' [] := by
  have hcur := h.current_view
  unfold Gummy.resume
  rw [hrun, if_neg (by simp)]
  cases hsp0 : (s.thread s.currentThread).sp0 with
  | receive senderPid buffer size =>
    have hres : v.Resumes := ⟨senderPid, buffer, size, by simp [hcur, hsp0]⟩
    obtain ⟨hnil, hrest⟩ | ⟨d, l, hcons, hd, hrest⟩ := h.receiveRest senderPid buffer size
    · exact ⟨v, .starved hres hnil, hrest⟩
    · exact ⟨v.take d, .received hres hcons hd, hrest⟩
  | null => exact ⟨v, .elsewhere (by simp [Resumes, hcur, hsp0]), h⟩
  | fresh ctx => exact ⟨v, .elsewhere (by simp [Resumes, hcur, hsp0]), h⟩
  | interrupted => exact ⟨v, .elsewhere (by simp [Resumes, hcur, hsp0]), h⟩
  | killed => exact ⟨v, .elsewhere (by simp [Resumes, hcur, hsp0]), h⟩

lemma View.Schedule.halted_eq {sp0 : Context} {b : Bool} {v v' : View} (h : Schedule sp0 v b v') :
    v'.halted = v.halted := by
  cases h with
  | idle h => rfl
  | keep h hn => exact View.requeue_halted sp0 v
  | switch h hn hs => exact View.requeue_halted sp0 v

lemma View.Acts.halted_eq {v v' : View} (h : Acts takes v v') : v'.halted = v.halted := by
  refine View.Acts.invariant (J := fun x => x.halted = v.halted) (fun w w' _ hw hact => ?_) h rfl
  cases hact with
  | send m hp hs hm =>
    rw [View.send]
    split <;> exact hw
  | _ => exact hw

lemma View.GiveUp.halted_eq {v v' : View} {sp0 : Context} (h : GiveUp waits v sp0 v') :
    v'.halted = v.halted := by
  cases h <;> rfl

/-- The end of a handler, with the scheduler behind it. -/
lemma Outcome.Refines.finish {o : Outcome} (h : o.Refines takes waits v)
    (hrun : v.halted = false) : ∃ v', View.Step takes waits v v' ∧ Abs o.finish v' [] := by
  cases o with
  | done s =>
    obtain ⟨v', hacts, habs⟩ := h
    exact ⟨v', .done hacts, habs⟩
  | call sp0 rest s =>
    obtain ⟨v₁, v₂, hacts, hcalls, habs, hrest⟩ := h
    obtain ⟨b, s', v₃, heq, hs, habs'⟩ := habs.schedule sp0
    rw [Outcome.finish, heq]
    cases b with
    | false =>
      obtain ⟨v₄, hafter, hend⟩ := hrest s' v₃ hs habs'
      exact ⟨v₄, .call hacts hcalls habs.wf hs habs'.wf hafter, hend⟩
    | true =>
      have hhalted : v₂.halted = false := by
        obtain ⟨rfl, -⟩ | ⟨-, hg⟩ := hcalls
        · rw [hacts.halted_eq, hrun]
        · rw [hg.halted_eq, hacts.halted_eq, hrun]
      obtain ⟨v₄, hafter, hend⟩ := habs'.resume (habs'.halted.trans (hs.halted_eq.trans hhalted))
      exact ⟨v₄, .call hacts hcalls habs.wf hs habs'.wf hafter, hend⟩

/-- A step of the kernel is a step of its view. -/
theorem Abs.step (h : Abs s v []) {e : Event} (hadm : Admissible s e)
    (htakes : e.Receives → (v.proc v.current.process).mailbox ≠ [] → takes v)
    (hwaits : e.Receives → (v.proc v.current.process).mailbox = [] → waits v) :
    ∃ v', View.Step takes waits v v' ∧ Abs (step s e) v' [] := by
  unfold Gummy.step
  cases hrun : s.halted with
  | true => exact ⟨v, .done .refl, h⟩
  | false => exact (h.handle hadm htakes hwaits).finish (h.halted.symm.trans hrun)

lemma Abs.step_abs (h : Abs s v []) {e : Event} (hadm : Admissible s e) :
    ∃ v', Abs (Gummy.step s e) v' [] := by
  obtain ⟨v', -, habs⟩ : ∃ v', View.Step (fun _ => True) (fun _ => True) v v' ∧
      Abs (Gummy.step s e) v' [] := h.step hadm (fun _ _ => trivial) (fun _ _ => trivial)
  exact ⟨v', habs⟩

/-! ### Runs -/

/-- The view of the kernel when `sched_init` has returned. -/
def View.init : View where
  processes := [idleProcess]
  proc _ := ⟨0, none, .normal, [], [], []⟩
  thread t := if (t.slot : ℕ) = 0 then some ⟨.running, .null⟩ else none
  queue _ := []
  current := idleThread
  created := 0
  halted := false

lemma schedInit_proc (frequency : ℕ) (s : Kernel) :
    (schedInit frequency s).proc = Function.update s.proc idleProcess
    { s.proc idleProcess with
      pid := s.currentPid, cr3 := s.mach.cr3, numThreads := 1, prev := none, next := none
      dad := none } := by
  funext q
  by_cases hq : q = idleProcess
  · subst hq
    simp [schedInit, Kernel.setProc, Kernel.setThread]
  · simp [schedInit, Kernel.setProc, Kernel.setThread, hq]

lemma schedInit_thread (frequency : ℕ) (s : Kernel) : (schedInit frequency s).thread =
    Function.update s.thread idleThread
      { s.thread idleThread with process := some idleProcess } := rfl

/-- What `sched_init` leaves looks like the initial view. -/
theorem Abs.init {s₀ : Kernel} (h : Boot s₀) (frequency : ℕ) :
    Abs (schedInit frequency s₀) View.init [] := by
  have hproc : (schedInit frequency s₀).proc idleProcess = { Process.zero with
      pid := 0, cr3 := s₀.mach.cr3, numThreads := 1 } := by
    rw [schedInit_proc, Function.update_self, h.proc, h.pid]
    rfl
  have hthread : ∀ t : ThreadRef, t.process = idleProcess → (schedInit frequency s₀).thread t =
      if t.slot = 0 then { Thread.zero with process := some idleProcess } else Thread.zero := by
    rintro ⟨p, i⟩ rfl
    rw [schedInit_thread]
    by_cases hi : i = 0
    · subst hi
      rw [Function.update_self, h.thread, if_pos rfl]
    · have hne : (⟨idleProcess, i⟩ : ThreadRef) ≠ idleThread := fun heq =>
        hi (congrArg ThreadRef.slot heq)
      rw [Function.update_of_ne hne, h.thread, if_neg hi]
  have hidle := hthread idleThread rfl
  rw [if_pos rfl] at hidle
  have howns : ∀ t, ¬ OwnsStack (schedInit frequency s₀) [idleProcess] t := by
    rintro t ⟨hp, -, -, h0⟩
    rw [hthread t (List.mem_singleton.1 hp)] at h0
    split_ifs at h0
    all_goals exact h0 rfl
  refine ⟨?_, ?_, ?_, rfl, h.created, ?_, h.halted⟩
  · constructor
    · exact Linked.singleton (by rw [hproc]; rfl) (by rw [hproc]; rfl)
    · rfl
    · exact List.mem_singleton_self _
    · -- all queues are empty
      have hq : ∀ k, LiveQueue [idleProcess] k → (schedInit frequency s₀).queues.headNext k = none ∧
          (schedInit frequency s₀).queues.headPrev k = none ∧
            (schedInit frequency s₀).queues.size k = 0 := by
        rintro (_ | _ | _ | _ | p) hk
        on_goal 5 =>
          obtain rfl := List.mem_singleton.1 hk
          exact ⟨h.waitersNext, h.waitersPrev, h.waitersSize⟩
        all_goals exact ⟨rfl, rfl, rfl⟩
      refine ⟨fun _ _ => .nil, fun k hk => (hq k hk).1, fun k hk => (hq k hk).2.1,
        fun k hk => (hq k hk).2.2, fun t ht k => ?_, by simp [View.init]⟩
      obtain ⟨p, i⟩ := t
      obtain rfl := List.mem_singleton.1 ht
      have hqi : (schedInit frequency s₀).queues.q ⟨idleProcess, i⟩ = none := h.q i
      simp [hqi, View.init]
    · simp [View.init]
    · simp [View.init]
    · intro t ht p hp
      have ht := List.mem_singleton.1 ht
      rw [hthread t ht] at hp
      split_ifs at hp
      · exact (Option.some.inj hp).symm.trans ht.symm
      · simp [Thread.zero] at hp
    · exact List.mem_singleton_self _
    · exact congrArg Thread.process hidle
    · exact (congrArg Thread.state hidle).trans_ne (by simp [Thread.zero])
    · rintro ⟨p, i⟩ ht hne hp
      obtain rfl := List.mem_singleton.1 ht
      rw [hthread _ rfl, if_neg fun hi => hne (congrArg (ThreadRef.mk _) hi)] at hp
      exact absurd rfl hp
    · exact fun hi => absurd rfl hi
    · rfl
    · exact (congrArg Process.cr3 hproc).symm
    · have hblocks : (schedInit frequency s₀).heap.blocks = [] := h.blocks
      have hstop : (schedInit frequency s₀).heap.stop = heapBase + 24 * pageSize := h.stop
      refine ⟨by simp [hblocks], by simp [hblocks], by simp [hstop, heapBase, pageSize], ?_,
        fun t ht => (howns t ht).elim, fun t _ ht => (howns t ht).elim, by simp, by simp, by simp,
        List.nodup_nil⟩
      intro p hp hi
      exact absurd (List.mem_singleton.1 hp) hi
  · intro p hp
    obtain rfl := List.mem_singleton.1 hp
    have hring : ((schedInit frequency s₀).proc idleProcess).ringBuffer =
        ringBufferInit (fun _ => 0) 0 0 := by
      rw [hproc]
      rfl
    refine ⟨by rw [hproc]; rfl, by simp [View.init], by rw [hproc]; rfl, by rw [hproc]; rfl, ?_,
      h.accepted, h.delivered⟩
    rw [hring]
    exact ⟨⟨[], RingBuffer.Holds.init .., rfl⟩, rfl, fun h0 => absurd rfl h0⟩
  · intro t ht
    rw [hthread t (List.mem_singleton.1 ht)]
    simp only [View.init, Fin.val_eq_zero_iff]
    split_ifs <;> rfl
  · have hpid : (schedInit frequency s₀).currentPid = u32 (s₀.currentPid + 1) := rfl
    rw [hpid, h.pid]
    rfl

variable (takes waits)

/-- An invariant of views holds of the view of every reachable state, in runs whose steps
meet a condition that lets `ipc_receive` do what `takes` and `waits` allow. -/
theorem reachable_view {C : Kernel → Event → Prop} {J : View → Prop} (hinit : J View.init)
    (hstep : ∀ v v', v.WF → J v → View.Step takes waits v v' → J v')
    (hcond : ∀ s v e, Abs s v [] → J v → Admissible s e → C s e →
      (e.Receives → (v.proc v.current.process).mailbox ≠ [] → takes v) ∧
      (e.Receives → (v.proc v.current.process).mailbox = [] → waits v))
    {s : Kernel} (h : Reachable Init (Transition.restrict Step C) s) : ∃ v, Abs s v [] ∧ J v := by
  refine h.invariant (P := fun s => ∃ v, Abs s v [] ∧ J v) ?_ ?_
  · rintro s ⟨s₀, hboot, rfl⟩
    exact ⟨View.init, Abs.init hboot 100, hinit⟩
  · rintro s e s' ⟨v, habs, hJ⟩ ⟨⟨hadm, rfl⟩, hc⟩
    obtain ⟨htakes, hwaits⟩ := hcond s v e habs hJ hadm hc
    obtain ⟨v', hv', habs'⟩ := habs.step hadm htakes hwaits
    exact ⟨v', habs', hstep v v' habs.wf hJ hv'⟩

/-- The same for invariants that hold whatever `ipc_receive` finds. -/
theorem reachable_view_of_step {J : View → Prop} (hinit : J View.init)
    (hstep : ∀ v v', v.WF → J v → View.Step (fun _ => True) (fun _ => True) v v' → J v')
    {s : Kernel} (h : Reachable Init Step s) : ∃ v, Abs s v [] ∧ J v :=
  reachable_view (fun _ => True) (fun _ => True) (C := fun _ _ => True) hinit hstep
    (fun _ _ _ _ _ _ _ => ⟨fun _ _ => trivial, fun _ _ => trivial⟩)
    (h.mono fun _ _ _ hs => ⟨hs, trivial⟩)

/-- One of the states in which `sched_init` may find the kernel. -/
def bootKernel (mach : Machine) : Kernel where
  mach := mach
  heap := { blocks := [], stop := heapBase + 24 * pageSize, frees := [], frames := ∅ }
  proc _ := Process.zero
  thread _ := Thread.zero
  queues :=
    { next := fun _ => none, prev := fun _ => none, q := fun _ => none
      headNext := fun _ => none, headPrev := fun _ => none, size := fun _ => 0 }
  firstProcess := none
  currentThread := idleThread
  currentProcess := idleProcess
  currentPid := 0
  ticks := 0
  msPerTick := 0
  esp0 := 0
  eax _ := 0
  accepted _ := []
  delivered _ := []
  created := 0
  halted := false

lemma boot_bootKernel (mach : Machine) : Boot (bootKernel mach) where
  proc := rfl
  thread _ := rfl
  q _ := rfl
  waitersNext := rfl
  waitersPrev := rfl
  waitersSize := rfl
  pid := rfl
  ticks := rfl
  blocks := rfl
  stop := rfl
  accepted := rfl
  delivered := rfl
  created := rfl
  halted := rfl

/-- After `kmain` has started a thread of its own and the timer has fired once. -/
def bootThread (mach : Machine) : Kernel :=
  step (step (schedInit 100 (bootKernel mach)) (.nthread 0xC0010000 ⟨0, heapBase⟩)) .tick

end Gummy
