import Gummy.Kernel.Fairness

/-!
The reaper.

`reaper_thread` walks along the list of processes and destroys the dying ones, while other threads
run between any two of its steps.  What it holds on to stays in the list, since nobody else destroys
a listed process and new processes come in at the head.
-/

namespace Gummy

open CWord

open Transition (Reachable Run)

variable {K : Set ℕ} {s s' : Kernel} {P : List ℕ} {v v' : View} {π : ℕ} {l : List ℕ}
  {L : QueueRef → List ThreadRef} {D : List (ℕ × ℕ)}

/-! ### The thread -/

/-- Where `reaper_thread` is, with its variables `p` and `next`. -/
inductive Reaper
  /-- in `sys_sleep`, or about to start -/
  | asleep
  /-- at the head of the loop -/
  | loop (p : Option ℕ)
  /-- `next` has been read -/
  | test (p : ℕ) (next : Option ℕ)

/-- The kernel and its reaper. -/
structure Reaping where
  kernel : Kernel
  reaper : Reaper

/-- The next step of `reaper_thread`. -/
def reap (g : Garbage) : Reaping → Reaping
  | ⟨s, .asleep⟩ => ⟨s, .loop s.firstProcess⟩
  | ⟨s, .loop none⟩ => ⟨step s (.sleep 5000), .asleep⟩
  | ⟨s, .loop (some p)⟩ => ⟨s, .test p (s.proc p).next⟩
  | ⟨s, .test p next⟩ =>
    ⟨if (s.proc p).state = .dying then schedDestroyProcess p g s else s, .loop next⟩

/-- Who takes a step. -/
inductive Move
  | entry (e : Event)
  | reaper (g : Garbage)

/-- The reaper is a thread of the idle process, and nobody but the reaper calls
`sched_destroy_process`, the failure of `sys_nprocess` apart. -/
inductive Reaping.Step : Reaping → Move → Reaping → Prop
  | entry {s : Kernel} {r : Reaper} {e : Event} (hadm : Admissible s e) (hmap : e.MapsForward)
      (he : ∀ p g, e ≠ .destroy p g) : Step ⟨s, r⟩ (.entry e) ⟨step s e, r⟩
  | reaper {x : Reaping} {g : Garbage} (hcur : x.kernel.currentThread.process = idleProcess)
      (hrun : x.kernel.halted = false) : Step x (.reaper g) (reap g x)

/-- The reaper has not run yet. -/
def Reaping.Init (K : Set ℕ) (x : Reaping) : Prop := InitMemory K x.kernel ∧ x.reaper = .asleep

/-! ### The list of processes -/

/-- `sys_nprocess_impl` puts at most one process before the others. -/
lemma Inv.processes_sysNprocess (h : Inv s P L []) (entry : ℕ) (image : List UInt8)
    (cData cProc cStack : HeapChoice) (g : Garbage) :
    ∃ pre, (sysNprocess entry image cData cProc cStack g s).2.processes = pre ++ P := by
  unfold Gummy.sysNprocess
  by_cases hentry : entry = 0 ∨ image.length = 0
  · rw [if_pos hentry, h.processes_eq]
    exact ⟨[], rfl⟩
  rw [if_neg hentry]
  obtain ⟨s₁, heq, h₁⟩ | ⟨s₁, heq, h₁⟩ := h.heapGet image.length cData
  all_goals rw [heq]; dsimp only
  · rw [h₁.processes_eq]
    exact ⟨[], rfl⟩
  -- the process
  obtain ⟨res, s₂, heq, ⟨rfl, h₂, -⟩ | ⟨p, rfl, h₂, hnew⟩⟩ := h₁.schedCreateProcess cProc
  all_goals rw [heq]; dsimp only
  · have hfreed : Inv (heapPut cData.addr s₂) P L [] := h₂.release rfl
    rw [hfreed.processes_eq]
    exact ⟨[], rfl⟩
  have hp : p ∈ p :: P := List.mem_cons_self
  -- what fails from here on destroys the process again
  have hdestroy : ∀ {s : Kernel} {L : QueueRef → List ThreadRef}, Inv s (p :: P) L [] →
      ∃ pre, (Gummy.schedDestroyProcess p g s).processes = pre ++ P := by
    intro s L hinv
    obtain ⟨-, heq⟩ | ⟨-, hinv', -⟩ := hinv.schedDestroyProcess hp hnew.ne_idle g
    · rw [heq, hinv.processes_eq]
      exact ⟨[p], rfl⟩
    · rw [hinv'.processes_eq, List.erase_cons_head]
      exact ⟨[], rfl⟩
  generalize alignUp 32 image.length pageSize / pageSize = pages
  have hcr3 := vmmAllocPagesRegionIn_cr3 s₂.mach (s₂.proc p).cr3 pages
    (vmmFlagsPresent ||| vmmFlagsRw ||| vmmFlagsUser) imageBase
    (u32 (imageBase + pages * pageSize))
  rcases halloc : vmmAllocPagesRegionIn (s₂.proc p).cr3 pages
    (vmmFlagsPresent ||| vmmFlagsRw ||| vmmFlagsUser) imageBase
    (u32 (imageBase + pages * pageSize)) s₂.mach with ⟨res, m⟩
  rw [halloc] at hcr3
  dsimp only at hcr3 ⊢
  have h₃ := h₂.congr (SameLinks.withMach _ s₂ hcr3)
  by_cases hres : res.isNone = true
  · rw [if_pos hres]
    exact hdestroy (h₃.release rfl)
  rw [if_neg hres]
  -- the thread
  obtain ⟨rt, s₄, heq, h₄, -⟩ := h₃.schedCreateThread hp imageBase cStack
  rw [heq]
  cases rt with
  | none =>
    dsimp only
    have h₅ := h₄.congr (SameLinks.withMach _ s₄ (vmmFreePagesIn_cr3 s₄.mach
      (s₄.proc p).cr3 pages imageBase))
    exact hdestroy (h₅.release rfl)
  | some t =>
    dsimp only
    have h₅ := h₄.congr (SameLinks.withMach _ s₄ (inSpace_cr3 s₄.mach
      (s₄.proc p).cr3 (f := fun m => ((), copyImage imageBase image m))
      (copyImage_cr3 imageBase image)))
    have h₆ : Inv (heapPut cData.addr { s₄ with mach := (inSpace (s₄.proc p).cr3
        (fun m => ((), copyImage imageBase image m)) s₄.mach).2 }) (p :: P) _ [] :=
      h₅.release rfl
    have hsame := (SameMemory.moveTo .ready .ready t (heapPut cData.addr { s₄ with mach :=
      (inSpace (s₄.proc p).cr3 (fun m => ((), copyImage imageBase image m)) s₄.mach).2
        })).processes
    refine ⟨[p], hsame.trans ?_⟩
    rw [h₆.processes_eq]
    rfl

/-- Entries that destroy nothing leave the list as it is, but for a new process at its head. -/
lemma Inv.processes_step (h : Inv s P L []) {e : Event} (he : ∀ p g, e ≠ .destroy p g) :
    ∃ pre, (step s e).processes = pre ++ P := by
  have hproc : s.processes = P := h.processes_eq
  by_cases hkeep : e.KeepsMemory
  · exact ⟨[], (step_sameMemory s hkeep).processes.trans hproc⟩
  by_cases hrun : s.halted = true
  · exact ⟨[], (congrArg Kernel.processes (if_pos hrun : step s e = s)).trans hproc⟩
  have hstep : step s e = (handle e s).finish := if_neg hrun
  rw [hstep]
  cases e with
  | nprocess entry image cData cProc cStack g =>
    exact h.processes_sysNprocess (u32 entry) image cData cProc cStack g
  | nthread entry c =>
    refine ⟨[], ?_⟩
    obtain ⟨res, s', heq, h', -⟩ := h.schedCreateThread h.current_mem (u32 entry) c
    change (Gummy.sysNthread (u32 entry) c s).2.processes = P
    unfold Gummy.sysNthread
    rw [schedGetCurrentProcess, h.current_owner]
    dsimp only
    rw [heq]
    cases res with
    | none => exact h'.processes_eq
    | some t => exact (SameMemory.moveTo .ready .ready t s').processes.trans h'.processes_eq
  | destroy p g => exact absurd rfl (he p g)
  | alloc size c =>
    refine ⟨[], ?_⟩
    change (Gummy.heapGet (u32 size) c s).2.processes = P
    obtain ⟨s', heq, h'⟩ | ⟨s', heq, h'⟩ := h.heapGet (u32 size) c
    all_goals
      rw [heq]
      exact h'.processes_eq
  | mapKernel n regionStart regionEnd => exact ⟨[], hproc⟩
  | _ => exact absurd trivial hkeep

/-! ### What the reaper has before it -/

/-- The processes that the pass has still to look at are `l`. -/
def Reaper.Ahead : Reaper → List ℕ → Prop
  | .asleep, _ => True
  | .loop p, l => p = l.head?
  | .test p next, l => ∃ l', l = p :: l' ∧ next = l'.head?

/-- What the reaper holds on to. -/
def Reaper.holds : Reaper → List ℕ
  | .asleep => []
  | .loop p => p.toList
  | .test p next => p :: next.toList

lemma Reaper.Ahead.holds {r : Reaper} (h : r.Ahead l) : ∀ p ∈ r.holds, p ∈ l := by
  intro p hp
  cases r with
  | asleep => cases hp
  | loop o =>
    obtain rfl := h
    exact List.mem_of_mem_head? (Option.mem_toList.1 hp)
  | test q next =>
    obtain ⟨l', rfl, rfl⟩ := h
    obtain rfl | hp := List.mem_cons.1 hp
    · exact List.mem_cons_self
    · exact List.mem_cons_of_mem _ (List.mem_of_mem_head? (Option.mem_toList.1 hp))

/-- What is kept of a view and of the processes ahead, by the steps of the kernel and by those of
the reaper. -/
structure KeptByReaper (M : View → List ℕ → Prop) : Prop where
  step : ∀ {v v' l}, M v l → View.Step (fun _ => True) (fun _ => True) v v' → M v' l
  restart : ∀ {v l}, M v l → M v v.processes
  spare : ∀ {v p l}, M v (p :: l) → p ∈ v.processes → (v.proc p).state ≠ .dying → M v l
  gone : ∀ {v p l}, M v (p :: l) → p ∉ v.processes → M v l

/-- The reaper is somewhere in the list. -/
def Reaping.Walks (K : Set ℕ) (M : View → List ℕ → Prop) (x : Reaping) : Prop :=
  ∃ v pre l, Abs x.kernel v [] ∧ Memory K x.kernel v.processes ∧
    (v.proc idleProcess).state ≠ .dying ∧ v.processes = pre ++ l ∧ x.reaper.Ahead l ∧ M v l

/-- A step of the kernel, as one of views. -/
lemma Memory.step_view (h : Memory K s v.processes) (habs : Abs s v []) {e : Event}
    (hadm : Admissible s e) (hmap : e.MapsForward) :
    ∃ v', View.Step (fun _ => True) (fun _ => True) v v' ∧ Abs (Gummy.step s e) v' [] ∧
      Memory K (Gummy.step s e) v'.processes := by
  obtain ⟨v', hs, habs'⟩ : ∃ v', View.Step (fun _ => True) (fun _ => True) v v' ∧
      Abs (Gummy.step s e) v' [] := habs.step hadm (fun _ _ => trivial) (fun _ _ => trivial)
  obtain ⟨v'', habs'', hmem⟩ := h.step habs hadm hmap
  rw [← habs''.inv.processes_eq, habs'.inv.processes_eq] at hmem
  exact ⟨v', hs, habs', hmem⟩

namespace View

variable {takes waits : View → Prop}

/-- The idle process is never killed. -/
lemma Step.idle_normal (hs : Step takes waits v v') (h : (v.proc idleProcess).state ≠ .dying) :
    (v'.proc idleProcess).state ≠ .dying := by
  refine hs.invariant (J := fun v => (v.proc idleProcess).state ≠ .dying)
    (K := fun _ v => (v.proc idleProcess).state ≠ .dying) ?_ (fun _ _ h => h) ?_ ?_ h
  · intro v v' _ h hact
    cases hact with
    | @create p hp hi =>
      have hproc : (v.create p).proc idleProcess = v.proc idleProcess :=
        Function.update_of_ne (Ne.symm hi) ..
      rwa [hproc]
    | @send p m hp hs hm => rwa [(send_pid p m idleProcess).2]
    | take hm hd ht => rwa [(take_pid _ idleProcess).2]
    | _ => exact h
  · intro v v' sp0 _ _ h hg
    cases hg with
    | kill hi =>
      have hproc : (v.kill v.current.process).proc idleProcess = v.proc idleProcess :=
        Function.update_of_ne (Ne.symm hi) ..
      rwa [hproc]
    | _ => exact h
  · intro v v₁ v₂ sp0 b _ h hs _ hafter
    rw [← hs.processes_eq.2.1] at h
    cases hafter with
    | received hr hm hd => rwa [(take_pid _ idleProcess).2]
    | _ => exact h

/-- The process with the pid `π` is dying, and the reaper has still to look at it, unless it is
gone. -/
def Sought (π : ℕ) (v : View) (l : List ℕ) : Prop :=
  v.created < 2 ^ 32 →
    π ≤ v.created ∧ v.Gone π ∧ ∀ p ∈ v.processes, (v.proc p).pid = π → p ∈ l

lemma Sought.congr (h : v.Sought π l) (hc : v'.created = v.created)
    (hP : v'.processes = v.processes)
    (hproc : ∀ p, (v'.proc p).pid = (v.proc p).pid ∧ (v'.proc p).state = (v.proc p).state) :
    v'.Sought π l := by
  intro hlt
  rw [hc] at hlt
  obtain ⟨hπ, hgone, hmem⟩ := h hlt
  refine ⟨hc ▸ hπ, hgone.congr hP hproc, fun p hp hpid => hmem p (hP ▸ hp) ?_⟩
  rw [← (hproc p).1, hpid]

lemma Sought.act (h : v.Sought π l) (hact : Act takes v v') : v'.Sought π l := by
  intro hlt
  obtain ⟨hπ, hgone, hmem⟩ := h (hact.created_le.trans_lt hlt)
  refine ⟨hπ.trans hact.created_le, hgone.act hπ hact hlt, ?_⟩
  intro q hq hpid
  cases hact with
  | @create p hp hi =>
    obtain rfl | hqv := List.mem_cons.1 hq
    · -- the new pid is larger
      have hself : (v.create q).proc q =
          ⟨u32 (v.created + 1), some v.current.process, .normal, [], [], []⟩ :=
        Function.update_self ..
      rw [hself] at hpid
      change v.created + 1 < 2 ^ 32 at hlt
      change u32 (v.created + 1) = π at hpid
      rw [u32_of_lt hlt] at hpid
      omega
    · have hother : (v.create p).proc q = v.proc q := by
        refine Function.update_of_ne ?_ _ _
        rintro rfl
        exact hp hqv
      rw [hother] at hpid
      exact hmem q hqv hpid
  | destroy hp hi hcur => exact hmem q (List.mem_of_mem_erase hq) hpid
  | @send p m hp hs hm =>
    rw [send_processes] at hq
    rw [(send_pid p m q).1] at hpid
    exact hmem q hq hpid
  | take hm hd ht =>
    rw [(take_pid _ q).1] at hpid
    exact hmem q hq hpid
  | _ => exact hmem q hq hpid

lemma Sought.giveUp (h : v.Sought π l) {sp0 : Context} (hg : GiveUp waits v sp0 v') :
    v'.Sought π l := by
  intro hlt
  rw [GiveUp.created_eq hg] at hlt ⊢
  obtain ⟨hπ, hgone, hmem⟩ := h hlt
  refine ⟨hπ, hgone.giveUp hg, ?_⟩
  intro q hq hpid
  cases hg with
  | kill hi =>
    by_cases hqc : q = v.current.process
    · have hself : (v.kill v.current.process).proc v.current.process =
          { v.proc v.current.process with state := .dying } := Function.update_self ..
      rw [hqc, hself] at hpid
      exact hqc ▸ hmem _ (hqc ▸ hq) hpid
    · have hother : (v.kill v.current.process).proc q = v.proc q := Function.update_of_ne hqc ..
      rw [hother] at hpid
      exact hmem q hq hpid
  | _ => exact hmem q hq hpid

lemma Sought.step (h : v.Sought π l) (hs : Step takes waits v v') : v'.Sought π l := by
  refine hs.invariant (J := fun v => v.Sought π l) (K := fun _ v => v.Sought π l)
    (fun _ _ _ h hact => h.act hact) (fun _ _ h => h) (fun _ _ _ _ _ h hg => h.giveUp hg) ?_ h
  intro v v₁ v₂ sp0 b _ h hs _ hafter
  obtain ⟨hP, hproc, hc⟩ := hs.processes_eq
  have h₁ : v₁.Sought π l := h.congr hc hP fun p => by rw [hproc]; exact ⟨rfl, rfl⟩
  cases hafter with
  | received hr hm hd => exact h₁.congr rfl rfl (take_pid _)
  | _ => exact h₁

end View

section Walks

variable {M : View → List ℕ → Prop} {x x' : Reaping}

/-- `sched_destroy_process` on a process that is not the running one. -/
lemma Memory.destroyed (h : Memory K s v.processes) (habs : Abs s v []) {p : ℕ}
    (hp : p ∈ v.processes) (hi : p ≠ idleProcess) (hcur : s.currentThread.process = idleProcess)
    (g : Garbage) : s.mach.cr3 ≠ (s.proc p).cr3 ∧
      (Gummy.schedDestroyProcess p g s).processes = v.processes.erase p := by
  have hcr3 : s.mach.cr3 ≠ (s.proc p).cr3 := by
    rw [habs.inv.cr3, hcur]
    intro heq
    exact hi (h.inj _ habs.inv.idle_mem p hp heq).symm
  obtain ⟨heq, -⟩ | ⟨-, hinv', -⟩ := habs.inv.schedDestroyProcess hp hi g
  · exact absurd heq hcr3
  · exact ⟨hcr3, hinv'.processes_eq⟩

namespace Reaping

/-- While other threads run, the list only grows at its head. -/
lemma Walks.entry {r : Reaper} (h : Walks K M ⟨s, r⟩) (hM : KeptByReaper M) {e : Event}
    (hadm : Admissible s e) (hmap : e.MapsForward) (he : ∀ p g, e ≠ .destroy p g) :
    Walks K M ⟨Gummy.step s e, r⟩ := by
  obtain ⟨v, pre, l, habs, hmem, hidle, hP, hahead, hm⟩ := h
  obtain ⟨v', hs, habs', hmem'⟩ := hmem.step_view habs hadm hmap
  obtain ⟨new, hnew⟩ := habs.inv.processes_step he
  refine ⟨v', new ++ pre, l, habs', hmem', hs.idle_normal hidle, ?_, hahead, hM.step hm hs⟩
  rw [← habs'.inv.processes_eq, hnew, hP, List.append_assoc]

/-- The reaper goes on by one step. -/
lemma Walks.reap (h : Walks K M x) (hM : KeptByReaper M)
    (hcur : x.kernel.currentThread.process = idleProcess) (hrun : x.kernel.halted = false)
    (g : Garbage) : Walks K M (reap g x) := by
  obtain ⟨s, r⟩ := x
  obtain ⟨v, pre, l, habs, hmem, hidle, hP, hahead, hm⟩ := h
  dsimp only at habs hmem hahead hcur hrun
  have hlinked := habs.inv.linked
  rw [hP] at hlinked
  cases r with
  | asleep =>
    exact ⟨v, [], v.processes, habs, hmem, hidle, rfl, habs.inv.first, hM.restart hm⟩
  | loop o =>
    obtain rfl := hahead
    cases l with
    | nil =>
      -- the pass is over
      obtain ⟨v', hs, habs', hmem'⟩ := hmem.step_view habs (e := .sleep 5000) trivial trivial
      exact ⟨v', v'.processes, [], habs', hmem', hs.idle_normal hidle,
        (List.append_nil _).symm, trivial, hM.step hm hs⟩
    | cons p l =>
      refine ⟨v, pre, p :: l, habs, hmem, hidle, hP, ⟨l, rfl, ?_⟩, hm⟩
      exact hlinked.next_of_eq_append
  | test p next =>
    obtain ⟨l, rfl, rfl⟩ := hahead
    have hp : p ∈ v.processes := by
      rw [hP]
      exact List.mem_append_right _ List.mem_cons_self
    have hstate := (habs.proc p hp).state
    by_cases hd : (s.proc p).state = .dying
    · -- the process is destroyed
      have hi : p ≠ idleProcess := by
        rintro rfl
        exact hidle (hstate ▸ hd)
      obtain ⟨-, hgone⟩ := hmem.destroyed habs hp hi hcur g
      have hadm : Admissible s (.destroy p g) := ⟨habs.inv.processes_eq ▸ hp, hi⟩
      obtain ⟨v', hs, habs', hmem'⟩ := hmem.step_view habs hadm trivial
      have hstep : Gummy.step s (.destroy p g) = schedDestroyProcess p g s :=
        step_of_running hrun _
      rw [hstep] at habs' hmem'
      have hP' : v'.processes = v.processes.erase p := by
        rw [← habs'.inv.processes_eq, hgone]
      have hnd := habs.wf.processes_nodup
      have hreap : Gummy.reap g ⟨s, .test p l.head?⟩ =
          ⟨schedDestroyProcess p g s, .loop l.head?⟩ := by
        rw [Gummy.reap, if_pos hd]
      rw [hreap]
      refine ⟨v', pre, l, habs', hmem', hs.idle_normal hidle, ?_, rfl,
        hM.gone (hM.step hm hs) ?_⟩
      · rw [hP', hP]
        rw [hP] at hnd
        have hpre : p ∉ pre := fun hpre =>
          (List.nodup_append.1 hnd).2.2 p hpre p List.mem_cons_self rfl
        rw [List.erase_append_right _ hpre, List.erase_cons_head]
      · rw [hP']
        exact hnd.not_mem_erase
    · have hreap : Gummy.reap g ⟨s, .test p l.head?⟩ = ⟨s, .loop l.head?⟩ := by
        rw [Gummy.reap, if_neg hd]
      rw [hreap]
      refine ⟨v, pre ++ [p], l, habs, hmem, hidle, ?_, rfl, hM.spare hm hp (hstate ▸ hd)⟩
      rw [hP, List.append_assoc]
      rfl

lemma Walks.step (h : Walks K M x) (hM : KeptByReaper M) {e : Move} (hs : Step x e x') :
    Walks K M x' := by
  cases hs with
  | entry hadm hmap he => exact h.entry hM hadm hmap he
  | reaper hcur hrun => exact h.reap hM hcur hrun _

end Reaping

end Walks

end Gummy
