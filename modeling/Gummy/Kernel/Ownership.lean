import Gummy.Kernel.Memory

/-!
Processes come and go, and keep their frames to themselves.

`sched_create_process` adds a directory to the spaces of `Memory` and
`sched_destroy_process` takes one out; in between, `sys_nprocess` fills the image in.
-/

namespace Gummy

open CWord Machine

variable {K : Set ℕ} {s s' : Kernel} {P : List ℕ} {S Q : Set ℕ} {d p : ℕ}
  {L : QueueRef → List ThreadRef} {D : List (ℕ × ℕ)}

namespace Memory

/-! ### A new process -/

/-- The space of the running process is active. -/
lemma slot_active (h : Memory K s P) (hinv : Inv s P L D) : ¬ isPresent (s.mach.pde 0) = true := by
  have hslot := h.slot _ hinv.current_mem
  rwa [← hinv.cr3] at hslot

lemma fillProcess_cr3 (p : ℕ) (s : Kernel) (q : ℕ) :
    ((fillProcess p s).proc q).cr3 = (s.proc q).cr3 := by
  rw [fillProcess_proc]
  by_cases hq : q = p
  · rw [hq, Function.update_self]
  · rw [Function.update_of_ne hq]

lemma setProcAt_cr3 (s : Kernel) (o : Option ℕ) {f : Process → Process}
    (hf : ∀ x, (f x).cr3 = x.cr3) (q : ℕ) : ((s.setProcAt o f).proc q).cr3 = (s.proc q).cr3 := by
  cases o with
  | none => rfl
  | some p =>
    by_cases hq : q = p
    · rw [hq, Kernel.setProcAt, Kernel.setProc_self, hf]
    · rw [Kernel.setProcAt, Kernel.setProc_of_ne _ _ hq]

lemma linkProcess_cr3 (p : ℕ) (s : Kernel) (q : ℕ) :
    ((linkProcess p s).proc q).cr3 = (s.proc q).cr3 := by
  refine (setProcAt_cr3 _ s.firstProcess (f := ({ · with prev := some p })) (fun _ => rfl) q).trans ?_
  exact setProcAt_cr3 s (some p) (f := ({ · with next := s.firstProcess })) (fun _ => rfl) q

lemma setProcAt_rest (s : Kernel) (o : Option ℕ) (f : Process → Process) :
    (s.setProcAt o f).mach = s.mach ∧ (s.setProcAt o f).thread = s.thread ∧
      (s.setProcAt o f).heap = s.heap := by
  cases o <;> exact ⟨rfl, rfl, rfl⟩

lemma linkProcess_rest (p : ℕ) (s : Kernel) : (linkProcess p s).mach = s.mach ∧
    (linkProcess p s).thread = s.thread ∧ (linkProcess p s).heap = s.heap := by
  obtain ⟨hmach, hthread, hheap⟩ := setProcAt_rest (s.setProc p ({ · with next := s.firstProcess }))
    s.firstProcess ({ · with prev := some p })
  exact ⟨hmach, hthread, hheap⟩

/-- What `sched_create_process` leaves when it succeeds: a space `d` for the new process, and
the machine of `vmm_clone`. -/
structure Spawned (K : Set ℕ) (P : List ℕ) (s s' : Kernel) (p : ℕ) : Prop where
  memory : Memory K s' (p :: P)
  keeps : KeepsUser {q | q ∈ P} s s'
  cloned : Cloned (s.owners P K) s.mach s'.mach (s'.proc p).cr3

/-- The new process gets the space that `vmm_clone` has made. -/
lemma insert (h : Memory K s P) (hne : ∀ q ∈ P, q ≠ p)
    (hcloned : Cloned (s.owners P K) s.mach s'.mach d) (hcr3 : s'.mach.cr3 = s.mach.cr3)
    (hproc : ∀ q ∈ P, (s'.proc q).cr3 = (s.proc q).cr3) (hd : (s'.proc p).cr3 = d)
    (hthread : ∀ t, t.process ∈ P → s'.thread t = s.thread t)
    (hnew : ∀ t, t.process = p → (s'.thread t).process = none)
    (hheap : s'.heap.stop = s.heap.stop) : Spawned K P s s' p := by
  have hfresh : ∀ q ∈ P, (s.proc q).cr3 ≠ d := by
    rintro q hq rfl
    exact h.spaces.used _ _ (.dir (mem_owners hq)) hcloned.fresh
  have howners : s'.owners (p :: P) K =
      { s.owners P K with dirs := Insert.insert d (s.owners P K).dirs } := by
    unfold Kernel.owners
    congr 1
    ext x
    constructor
    · rintro ⟨q, hq, rfl⟩
      obtain rfl | hq := List.mem_cons.1 hq
      · exact Or.inl hd
      · exact Or.inr ⟨q, hq, (hproc q hq).symm⟩
    · rintro (rfl | ⟨q, hq, rfl⟩)
      · exact ⟨p, List.mem_cons_self, hd⟩
      · exact ⟨q, List.mem_cons_of_mem _ hq, hproc q hq⟩
  have hslot : ∀ q ∈ P, ¬ isPresent (s'.mach.entry (s.proc q).cr3 0) = true := by
    intro q hq
    by_cases hactive : (s.proc q).cr3 = s.mach.cr3
    · rw [hactive, ← hcr3]
      exact hcloned.slot
    · rw [hcloned.elsewhere.pde _ (mem_owners hq) 0 (by norm_num) (Or.inl hactive)]
      exact h.slot q hq
  refine ⟨⟨?_, fun q hq q' hq' heq => ?_, fun q hq => ?_, fun t ht hproc => ?_, ?_, ?_⟩,
    fun q hq => ⟨hproc q hq, ?_⟩, hd.symm ▸ hcloned⟩
  · rw [howners]
    exact hcloned.spaces
  · obtain hqp | hqP := List.mem_cons.1 hq <;> obtain hqp' | hqP' := List.mem_cons.1 hq'
    · rw [hqp, hqp']
    · rw [hqp, hd, hproc q' hqP'] at heq
      exact absurd heq.symm (hfresh q' hqP')
    · rw [hqp', hd, hproc q hqP] at heq
      exact absurd heq (hfresh q hqP)
    · rw [hproc q hqP, hproc q' hqP'] at heq
      exact h.inj q hqP q' hqP' heq
  · obtain rfl | hq := List.mem_cons.1 hq
    · rw [hd, hcloned.directory.low 0 (by norm_num), isPresent_zero]
      exact Bool.false_ne_true
    · rw [hproc q hq]
      exact hslot q hq
  · obtain htp | ht := List.mem_cons.1 ht
    · exact absurd (hnew t htp) hproc
    · rw [hthread t ht] at hproc ⊢
      exact h.stack t ht hproc
  · rw [hheap]
    exact h.base
  · rw [hheap]
    exact h.stop_dvd
  · -- only the slot that `vmm_clone` borrows has been touched
    refine hcloned.elsewhere.sameUser (mem_owners hq) (Or.inr fun k hk hk0 => ?_)
    obtain rfl : k = 0 := hk0
    exact ⟨h.slot q hq, hslot q hq⟩

/-- `sched_create_process`, once the memory at `p` has been allocated. -/
lemma setUpProcess (h : Memory K s P) (hinv : Inv s P L ((p, sizeofProcess) :: D)) :
    (∃ s', setUpProcess p s = (none, s') ∧ Memory K s' P ∧ KeepsUser {q | q ∈ P} s s' ∧
        ¬ s.mach.Room 2) ∨
      ∃ s', Gummy.setUpProcess p s = (some p, s') ∧ Spawned K P s s' p := by
  have hne : ∀ q ∈ P, q ≠ p := hinv.heap.held_ne_proc _ List.mem_cons_self
  have hproc : ∀ m c, ∀ q ∈ P,
      ({ clearProcess p s with mach := m }.setProc p ({ · with cr3 := c })).proc q = s.proc q := by
    intro m c q hq
    rw [Kernel.setProc_of_ne _ _ (hne q hq)]
    exact Function.update_of_ne (hne q hq) _ _
  have hthread : ∀ t : ThreadRef, t.process ∈ P → (clearProcess p s).thread t = s.thread t :=
    fun t ht => clearProcess_thread s (hne _ ht)
  have hcr3 : (vmmClone s.mach).2.cr3 = s.mach.cr3 := vmmClone_cr3 s.mach
  rw [Gummy.setUpProcess]
  dsimp only
  rw [show (clearProcess p s).mach = s.mach from rfl]
  obtain ⟨pmm, hclone, hedits, hroom⟩ | ⟨d, m', hclone, hcloned⟩ :=
    h.spaces.vmmClone_spec (h.slot_active hinv)
  · rw [hclone]
    dsimp only
    rw [if_pos rfl]
    refine Or.inl ⟨_, rfl, ?_, ?_, hroom⟩
    · refine h.congr { cr3 := fun q hq => ?_, thread := fun t ht hne' => ?_ }
        (hedits.spaces h.spaces) h.slot
      · exact congrArg Process.cr3 (hproc _ _ q hq)
      · have ht' := hthread t ht
        exact ⟨fun hnone => hne' ((congrArg Thread.process ht').trans hnone),
          congrArg Thread.stack ht'⟩
    · exact .of_phys (fun q hq => congrArg Process.cr3 (hproc _ _ q hq)) rfl
  · rw [hclone] at hcr3 ⊢
    dsimp only at hcr3 ⊢
    rw [if_neg hcloned.ne_zero]
    refine Or.inr ⟨_, rfl, ?_⟩
    obtain ⟨hmach, hthread', hheap⟩ := linkProcess_rest p
      (fillProcess p ({ clearProcess p s with mach := m' }.setProc p ({ · with cr3 := d })))
    refine h.insert (d := d) hne ?_ ?_ (fun q hq => ?_) ?_ (fun t ht => ?_) (fun t ht => ?_) ?_
    · rw [hmach]
      exact hcloned
    · rw [hmach]
      exact hcr3
    · rw [linkProcess_cr3, fillProcess_cr3]
      exact congrArg Process.cr3 (hproc m' d q hq)
    · rw [linkProcess_cr3, fillProcess_cr3, Kernel.setProc_self]
    · rw [hthread']
      exact hthread t ht
    · rw [hthread']
      exact congrArg Thread.process (if_pos ht : (clearProcess p s).thread t = Thread.zero)
    · rw [hheap]
      rfl

/-- `sched_create_process` -/
lemma schedCreateProcess (h : Memory K s P) (hinv : Inv s P L D) (c : HeapChoice) :
    (∃ s', schedCreateProcess c s = (none, s') ∧ Memory K s' P ∧ KeepsUser {q | q ∈ P} s s') ∨
      ∃ s₁ s', Gummy.schedCreateProcess c s = (some c.addr, s') ∧
        KeepsUser {q | q ∈ P} s s₁ ∧ Spawned K P s₁ s' c.addr := by
  obtain ⟨hmem, hkeep⟩ := h.heapGet sizeofProcess c
  unfold Gummy.schedCreateProcess
  obtain ⟨s₁, heq, -⟩ | ⟨s₁, heq, hinv₁⟩ := hinv.heapGet sizeofProcess c
  · rw [heq] at hmem hkeep ⊢
    exact Or.inl ⟨s₁, rfl, hmem, hkeep⟩
  · rw [heq] at hmem hkeep ⊢
    dsimp only at hmem hkeep ⊢
    obtain ⟨s', heq', hmem', hkeep', -⟩ | ⟨s', heq', hspawned⟩ := hmem.setUpProcess hinv₁
    · exact Or.inl ⟨s', heq', hmem', hkeep.trans hkeep'⟩
    · exact Or.inr ⟨s₁, s', heq', hkeep, hspawned⟩

/-! ### A process goes -/

/-- The loop of `sched_destroy_process` over the slots. -/
lemma destroySlots (h : Memory K s P) (hinv : Inv s P L D) (hp : p ∈ P)
    (hcur : s.currentThread.process ≠ p) (is : List (Fin threadPerProcess)) :
    Memory K (is.foldl (fun s i => Gummy.schedDestroyThread ⟨p, i⟩ s) s) P ∧
      KeepsUser {q | q ∈ P ∧ q ≠ p} s
        (is.foldl (fun s i => Gummy.schedDestroyThread ⟨p, i⟩ s) s) := by
  induction is generalizing s L with
  | nil => exact ⟨h, .refl _ _⟩
  | cons i is ih =>
    have hne : (⟨p, i⟩ : ThreadRef) ≠ s.currentThread := by
      intro heq
      exact hcur (heq ▸ rfl)
    obtain ⟨hinv', hframe⟩ := hinv.schedDestroyThread (t := ⟨p, i⟩) hp hne
    obtain ⟨hmem, hkeep⟩ := h.schedDestroyThread hinv (t := ⟨p, i⟩) hp
    obtain ⟨hmem', hkeep'⟩ := ih hmem hinv' (hframe.globals.currentThread ▸ hcur)
    exact ⟨hmem', hkeep.trans hkeep'⟩

/-- The tables of the lower half and the directory are given back. -/
lemma remove (s' : Kernel) (h : Memory K s P) (hnd : P.Nodup) (hp : p ∈ P)
    (hactive : s.mach.cr3 ≠ (s.proc p).cr3)
    (hmach : s'.mach = { vmmDestroy (s.proc p).cr3 s.mach with
      pmm := pmmFreePage (vmmDestroy (s.proc p).cr3 s.mach).pmm (s.proc p).cr3 })
    (hproc : ∀ q ∈ P, q ≠ p → (s'.proc q).cr3 = (s.proc q).cr3)
    (hthread : ∀ t, t.process ∈ P → t.process ≠ p → s'.thread t = s.thread t)
    (hheap : s'.heap.stop = s.heap.stop) :
    Memory K s' (P.erase p) ∧ KeepsUser {q | q ∈ P ∧ q ≠ p} s s' := by
  have hd : (s.proc p).cr3 ∈ s.owners P K := mem_owners hp
  obtain ⟨hedits, -⟩ := h.spaces.edits_vmmDestroy hd hactive.symm
  have hcr3 := vmmDestroy_cr3 s.mach (s.proc p).cr3
  have hmem : ∀ q, q ∈ P.erase p ↔ q ≠ p ∧ q ∈ P := fun q => hnd.mem_erase_iff
  have howners : s'.owners (P.erase p) K =
      { s.owners P K with dirs := (s.owners P K).dirs \ {(s.proc p).cr3} } := by
    unfold Kernel.owners
    congr 1
    ext x
    constructor
    · rintro ⟨q, hq, rfl⟩
      obtain ⟨hne, hq⟩ := (hmem q).1 hq
      rw [hproc q hq hne]
      exact ⟨⟨q, hq, rfl⟩, fun heq => hne (h.inj q hq p hp heq)⟩
    · rintro ⟨⟨q, hq, rfl⟩, hne⟩
      have hqp : q ≠ p := fun heq => hne (heq ▸ rfl)
      exact ⟨q, (hmem q).2 ⟨hqp, hq⟩, hproc q hq hqp⟩
  have hspaces := hedits.spaces h.spaces hd
  have hremove := hspaces.remove hd (by rw [hcr3]; exact hactive.symm)
  rw [← hmach, ← howners] at hremove
  refine ⟨⟨hremove, fun q hq q' hq' heq => ?_, fun q hq => ?_, fun t ht hne => ?_, ?_, ?_⟩, ?_⟩
  · obtain ⟨hne, hq⟩ := (hmem q).1 hq
    obtain ⟨hne', hq'⟩ := (hmem q').1 hq'
    rw [hproc q hq hne, hproc q' hq' hne'] at heq
    exact h.inj q hq q' hq' heq
  · obtain ⟨hne, hq⟩ := (hmem q).1 hq
    have hentry := hedits.entry_eq h.spaces hd (mem_owners hq) (k := 0) (by norm_num)
      (Or.inl fun heq => hne (h.inj q hq p hp heq))
    rw [hproc q hq hne, hmach]
    exact hentry.symm ▸ h.slot q hq
  · obtain ⟨hne', ht⟩ := (hmem _).1 ht
    rw [hthread t ht hne'] at hne ⊢
    exact h.stack t ht hne
  · rw [hheap]
    exact h.base
  · rw [hheap]
    exact h.stop_dvd
  · rintro q ⟨hq, hne⟩
    have huser := hedits.sameUser h.spaces hd (mem_owners hq) fun heq => hne (h.inj q hq p hp heq)
    rw [hmach]
    exact ⟨hproc q hq hne, huser.present, huser.pde, huser.pte, huser.bytes⟩

lemma freeProcess_unlink (g : Garbage) (s : Kernel) {q : ℕ} (hq : q ≠ p) :
    ((freeProcess p g (unlinkProcess p s)).proc q).cr3 = (s.proc q).cr3 := by
  have hfree : ∀ s : Kernel, (freeProcess p g s).proc q = s.proc q := fun _ =>
    Function.update_of_ne hq _ _
  rw [hfree, unlinkProcess_eq]

/-- The reparenting loop is about other fields. -/
lemma reparented (h : Memory K s P) (hinv : Inv s P L D) (p : ℕ) :
    Memory K (reparent p s) P ∧ Inv (reparent p s) P L D ∧
      (reparent p s).mach = s.mach ∧ (reparent p s).heap = s.heap ∧
      (reparent p s).currentThread = s.currentThread ∧
      ∀ q, ((reparent p s).proc q).cr3 = (s.proc q).cr3 := by
  obtain ⟨s₁, hs₁⟩ : ∃ s₁, s₁ = reparent p s := ⟨_, rfl⟩
  rw [← hs₁]
  rw [reparent, hinv.processes_eq, foldl_reparent] at hs₁
  have hlinks : ∀ q, (s₁.proc q).cr3 = (s.proc q).cr3 ∧ (s₁.proc q).links = (s.proc q).links := by
    intro q
    rw [hs₁]
    dsimp only
    split_ifs <;> exact ⟨rfl, rfl⟩
  have hmach : s₁.mach = s.mach := by rw [hs₁]
  refine ⟨?_, ?_, hmach, by rw [hs₁], by rw [hs₁], fun q => (hlinks q).1⟩
  · refine h.same { cr3 := fun q _ => (hlinks q).1, thread := ?_, stop := ?_, stop_dvd := ?_ } ?_ ?_
    · rw [hs₁]
      exact fun _ _ hne => ⟨hne, rfl⟩
    · rw [hs₁]
    · rw [hs₁]
      exact id
    · rw [hmach, space_cr3]
    · rw [hmach]
      exact h.spaces.active
  · refine hinv.congr ⟨fun q _ => (hlinks q).2, fun t _ => ?_, ?_, ?_, ?_, ?_, ?_, ?_, ?_, ?_⟩
    on_goal 2 => rw [hs₁]; exact .refl _ _
    all_goals rw [hs₁]

/-- `sched_destroy_process` -/
lemma schedDestroyProcess (h : Memory K s P) (hinv : Inv s P L D) (hp : p ∈ P)
    (hi : p ≠ idleProcess) (g : Garbage) :
    (s.mach.cr3 = (s.proc p).cr3 ∧ schedDestroyProcess p g s = s) ∨
      Memory K (Gummy.schedDestroyProcess p g s) (P.erase p) ∧
        KeepsUser {q | q ∈ P ∧ q ≠ p} s (Gummy.schedDestroyProcess p g s) := by
  unfold Gummy.schedDestroyProcess
  by_cases hcr3 : s.mach.cr3 = (s.proc p).cr3
  · exact Or.inl ⟨hcr3, if_pos hcr3⟩
  have hcur : s.currentThread.process ≠ p := by
    rintro rfl
    exact hcr3 hinv.cr3
  refine Or.inr ?_
  rw [if_neg hcr3]
  dsimp only
  -- reparenting
  obtain ⟨hmem₁, hinv₁, hmach₁, -, hcurrent₁, hcr3₁⟩ := h.reparented hinv p
  generalize reparent p s = s₁ at hmem₁ hinv₁ hmach₁ hcurrent₁ hcr3₁ ⊢
  have hkeep₁ : KeepsUser {q | q ∈ P ∧ q ≠ p} s s₁ :=
    .of_phys (fun q _ => hcr3₁ q) (by rw [hmach₁])
  -- the threads
  have hcur₁ : s₁.currentThread.process ≠ p := by rwa [hcurrent₁]
  obtain ⟨hmem₂, hkeep₂⟩ := hmem₁.destroySlots hinv₁ hp hcur₁ (List.finRange threadPerProcess)
  obtain ⟨hinv₂, hret⟩ := hinv₁.destroySlots hp hcur₁ (List.finRange threadPerProcess)
  have hkeep₂ := hkeep₁.trans hkeep₂
  generalize (List.finRange threadPerProcess).foldl (fun s i => Gummy.schedDestroyThread ⟨p, i⟩ s)
    s₁ = s₂ at hmem₂ hkeep₂ hinv₂ hret ⊢
  have hactive : s₂.mach.cr3 ≠ (s₂.proc p).cr3 := by
    rw [hinv₂.cr3]
    intro heq
    have hcur₂ := hmem₂.inj _ hinv₂.current_mem p hp heq
    rw [hret.globals.currentThread] at hcur₂
    exact hcur₁ hcur₂
  -- the tables, the directory and the list
  rw [if_pos (hmem₂.spaces.nonzero _ _ (.dir (mem_owners hp)))]
  obtain ⟨hmem, hkeep⟩ := hmem₂.remove (freeProcess p g (unlinkProcess p
      { s₂ with mach := { vmmDestroy (s₂.proc p).cr3 s₂.mach with
        pmm := pmmFreePage (vmmDestroy (s₂.proc p).cr3 s₂.mach).pmm (s₂.proc p).cr3 } }))
    hinv.linked.nodup hp hactive (by rw [unlinkProcess_eq]; rfl)
    (fun q _ hne => freeProcess_unlink g _ hne)
    (fun t _ hne => by rw [unlinkProcess_eq]; exact if_neg hne) (by rw [unlinkProcess_eq]; rfl)
  exact ⟨hmem, hkeep₂.trans hkeep⟩

/-! ### The image -/

/-- An address behind the slot that `vmm_clone` borrows. -/
lemma getPdeIndex_user {v : ℕ} (hge : 0x400000 ≤ v) (hlt : v < 0xC0000000) :
    getPdeIndex v ∈ userSlots ∧ getPdeIndex v < 768 := by
  simp only [userSlots, Set.mem_ofPred_eq, getPdeIndex_eq]
  omega

/-- `vmm_alloc_pages_region_in`, for pages of the lower half. -/
lemma allocIn (h : Memory K s P) (hp : p ∈ P) (n start : ℕ) {stop : ℕ} (hge : 0x400000 ≤ start)
    (hstart : start ≤ 0xC0000000) (hle : stop ≤ 0xC0000000) :
    Memory K { s with mach := (vmmAllocPagesRegionIn (s.proc p).cr3 n
        (vmmFlagsPresent ||| vmmFlagsRw ||| vmmFlagsUser) start stop s.mach).2 } P ∧
      KeepsUser {q | q ∈ P ∧ q ≠ p} s { s with mach := (vmmAllocPagesRegionIn (s.proc p).cr3 n
        (vmmFlagsPresent ||| vmmFlagsRw ||| vmmFlagsUser) start stop s.mach).2 } := by
  have hcr3 : (s.proc p).cr3 ∈ s.owners P K := mem_owners hp
  have hedits : EditsIn (s.owners P K) userSlots (s.proc p).cr3 s.mach
      (vmmAllocPagesRegionIn (s.proc p).cr3 n (vmmFlagsPresent ||| vmmFlagsRw ||| vmmFlagsUser)
        start stop s.mach).2 := by
    rw [vmmAllocPagesRegionIn_eq]
    refine ⟨_, (h.spaces.space hcr3).edits_region (by decide) (by omega) (by omega)
      fun v hv hge' => ?_, rfl⟩
    obtain ⟨hslot, hlow⟩ := getPdeIndex_user (hge.trans hge') (hv.trans_le hle)
    exact ⟨hslot, fun hupper => absurd hlow (not_lt.2 hupper)⟩
  exact ⟨h.edits (.of_eq rfl rfl rfl) hcr3 (fun h0 => h0.1 rfl) hedits, h.keeps_others (.of_eq rfl rfl rfl) hp hedits⟩

/-- `copyImage` into the lower half of the active space. -/
lemma stores_copyImage {m : Machine} {D : Owners} (h : Spaces m D) (virt : ℕ)
    (image : List UInt8) (hge : 0x400000 ≤ virt) (hle : virt + image.length ≤ 0xC0000000) :
    Stores D userSlots m (copyImage virt image m) := by
  have hmem : ∀ x ∈ copyStores virt image, getPdeIndex x.1 ∈ userSlots ∧ getPdeIndex x.1 < 768 := by
    intro x hx
    obtain ⟨i, hi, rfl⟩ := List.mem_mapIdx.1 hx
    exact getPdeIndex_user (by dsimp only; omega) (by dsimp only; omega)
  exact h.stores_bytes Prod.fst (fun _ x => x.2)
    (fun x hx => (hmem x hx).2.trans (by norm_num)) (fun x hx => Or.inl (hmem x hx).2)
    fun x hx => (hmem x hx).1

/-- The image is copied to its place in the space of `p`. -/
lemma copy (h : Memory K s P) (hp : p ∈ P) (image : List UInt8)
    (hle : imageBase + image.length ≤ 0xC0000000) :
    Memory K { s with mach :=
        (inSpace (s.proc p).cr3 (fun m => ((), copyImage imageBase image m)) s.mach).2 } P ∧
      KeepsUser {q | q ∈ P ∧ q ≠ p} s { s with mach :=
        (inSpace (s.proc p).cr3 (fun m => ((), copyImage imageBase image m)) s.mach).2 } := by
  have hcr3 : (s.proc p).cr3 ∈ s.owners P K := mem_owners hp
  have hspace := h.spaces.space hcr3
  have hstores := stores_copyImage hspace imageBase image le_rfl hle
  rw [inSpace_eq (f := fun m => ((), copyImage imageBase image m)) (copyImage_cr3 imageBase image)]
  constructor
  · refine h.congr (.of_eq rfl rfl rfl) ((hstores.spaces hspace).space h.spaces.active) fun q hq => ?_
    have hentry := hstores.tables.pde _ (mem_owners hq) 0 (by norm_num)
    exact (congrArg (fun e => ¬ isPresent e = true) hentry).mpr (h.slot q hq)
  · rintro q ⟨hq, hne⟩
    exact ⟨rfl, hstores.sameUser (mem_owners hq) fun heq => hne (h.inj q hq p hp heq)⟩

/-- A thread goes to another queue. -/
lemma moveTo (h : Memory K s P) (q : QueueRef) (state : ThreadState) (t : ThreadRef) :
    Memory K (moveTo q state t s) P := by
  refine h.same { thread := fun u hu hproc => ?_ } rfl h.spaces.active
  unfold Gummy.moveTo at hproc ⊢
  by_cases hut : u = t
  · rw [hut, Kernel.setThread_self] at hproc ⊢
    exact ⟨hproc, rfl⟩
  · rw [Kernel.setThread_of_ne _ _ hut] at hproc ⊢
    exact ⟨hproc, rfl⟩

end Memory

/-! ### `sys_nprocess` -/

/-- The frames of the processes are kept apart, and the rest of the kernel is in order. -/
def Sound (K : Set ℕ) (s : Kernel) (P : List ℕ) : Prop := Memory K s P ∧ ∃ L, Inv s P L []

/-- `sched_destroy_process`, refused or not. -/
lemma Sound.destroy (h : Sound K s P) (hp : p ∈ P) (hi : p ≠ idleProcess) (g : Garbage) :
    ∃ P', Sound K (Gummy.schedDestroyProcess p g s) P' ∧
      KeepsUser {q | q ∈ P ∧ q ≠ p} s (Gummy.schedDestroyProcess p g s) := by
  obtain ⟨hmem, L, hinv⟩ := h
  obtain ⟨-, heq⟩ | ⟨hmem', hkeep⟩ := hmem.schedDestroyProcess hinv hp hi g
  · rw [heq]
    exact ⟨P, ⟨hmem, L, hinv⟩, .refl _ _⟩
  · obtain ⟨hcr3, heq⟩ | ⟨-, hinv', -⟩ := hinv.schedDestroyProcess hp hi g
    · rw [heq]
      exact ⟨P, ⟨hmem, L, hinv⟩, .refl _ _⟩
    · exact ⟨P.erase p, ⟨hmem', _, hinv'⟩, hkeep⟩

/-- A block that the handler holds lies in the heap. -/
lemma held_size {addr size : ℕ} (hinv : Inv s P L ((addr, size) :: D)) : size ≤ 0x1FC00000 := by
  obtain ⟨-, hbase, hend⟩ := hinv.heap.range _ (hinv.heap.held _ List.mem_cons_self)
  have hstop := hinv.heap.stop_le
  dsimp only [heapBase] at hbase hend
  omega

/-- The pages of an image. -/
lemma imagePages {n : ℕ} (hn : n ≤ 0x1FC00000) :
    n ≤ alignUp 32 n pageSize / pageSize * pageSize ∧
      alignUp 32 n pageSize / pageSize * pageSize < n + pageSize := by
  have hup : alignUp 32 n pageSize = 2 ^ 12 * ((n + (2 ^ 12 - 1)) / 2 ^ 12) := by
    rw [show pageSize = 2 ^ 12 from rfl, alignUp_two_pow (by norm_num), Nat.mod_eq_of_lt (by omega)]
  rw [hup]
  simp only [pageSize]
  omega

/-- `sys_nprocess_impl` -/
theorem Sound.sysNprocess (h : Sound K s P) (entry : ℕ) (image : List UInt8)
    (cData cProc cStack : HeapChoice) (g : Garbage) :
    ∃ P', Sound K (sysNprocess entry image cData cProc cStack g s).2 P' ∧
      KeepsUser {q | q ∈ P} s (Gummy.sysNprocess entry image cData cProc cStack g s).2 := by
  obtain ⟨hmem, L, hinv⟩ := h
  unfold Gummy.sysNprocess
  by_cases hentry : entry = 0 ∨ image.length = 0
  · rw [if_pos hentry]
    exact ⟨P, ⟨hmem, L, hinv⟩, .refl _ _⟩
  rw [if_neg hentry]
  obtain ⟨hmem₁, hkeep₁⟩ := hmem.heapGet image.length cData
  obtain ⟨s₁, heq, hinv₁⟩ | ⟨s₁, heq, hinv₁⟩ := hinv.heapGet image.length cData
  all_goals rw [heq] at hmem₁ hkeep₁ ⊢; dsimp only at hmem₁ hkeep₁ ⊢
  · exact ⟨P, ⟨hmem₁, L, hinv₁⟩, hkeep₁⟩
  -- the process
  obtain ⟨res, s₂', heq', hcases⟩ := hinv₁.schedCreateProcess cProc
  obtain ⟨s₂, heq, hmem₂, hkeep₂⟩ | ⟨s₁', s₂, heq, hkeep₂, hspawned⟩ :=
    hmem₁.schedCreateProcess hinv₁ cProc
  all_goals
    obtain ⟨rfl, rfl⟩ := Prod.mk.inj (heq.symm.trans heq')
    rw [heq]
    dsimp only
  · obtain ⟨-, hinv₂, -⟩ | ⟨p, hp, -⟩ := hcases
    · exact ⟨P, ⟨hmem₂.heapPut _, L, hinv₂.release rfl⟩, hkeep₁.trans hkeep₂⟩
    · cases hp
  obtain ⟨hnone, -⟩ | ⟨p, hp, hinv₂, hnew⟩ := hcases
  · cases hnone
  obtain rfl := Option.some.inj hp
  have hmem₂ := hspawned.memory
  have hkeep₂ := hkeep₁.trans (hkeep₂.trans hspawned.keeps)
  have hpP : cProc.addr ∈ cProc.addr :: P := List.mem_cons_self
  have hother : {q | q ∈ P} ⊆ {q | q ∈ cProc.addr :: P ∧ q ≠ cProc.addr} := fun q hq =>
    ⟨List.mem_cons_of_mem _ hq, fun heq => hnew.not_mem (heq ▸ hq)⟩
  have hsize := held_size hinv₁
  obtain ⟨hlen, hpages⟩ := imagePages hsize
  generalize alignUp 32 image.length pageSize / pageSize = pages at hlen hpages ⊢
  have hstop : u32 (imageBase + pages * pageSize) = imageBase + pages * pageSize :=
    u32_of_lt (by simp only [imageBase, pageSize] at *; omega)
  have hend : imageBase + pages * pageSize ≤ 0xC0000000 := by
    simp only [imageBase, pageSize] at *
    omega
  rw [hstop]
  -- the pages of the image
  obtain ⟨hmem₃, hkeep₃⟩ := hmem₂.allocIn hpP pages imageBase le_rfl
    (by simp only [imageBase]; omega) hend
  have hcr3 := vmmAllocPagesRegionIn_cr3 s₂.mach (s₂.proc cProc.addr).cr3 pages
    (vmmFlagsPresent ||| vmmFlagsRw ||| vmmFlagsUser) imageBase (imageBase + pages * pageSize)
  rcases halloc : vmmAllocPagesRegionIn (s₂.proc cProc.addr).cr3 pages
    (vmmFlagsPresent ||| vmmFlagsRw ||| vmmFlagsUser) imageBase (imageBase + pages * pageSize)
    s₂.mach with ⟨res, m⟩
  rw [halloc] at hmem₃ hkeep₃ hcr3
  dsimp only at hmem₃ hkeep₃ hcr3 ⊢
  have hinv₃ := hinv₂.congr (SameLinks.withMach _ s₂ hcr3)
  have hkeep₃ := hkeep₂.trans (hkeep₃.mono hother)
  by_cases hres : res.isNone = true
  · rw [if_pos hres]
    obtain ⟨P', hsound, hkeep⟩ := Sound.destroy ⟨hmem₃.heapPut cData.addr, _, hinv₃.release rfl⟩
      hpP hnew.ne_idle g
    exact ⟨P', hsound, (hkeep₃.heapPut _).trans (hkeep.mono hother)⟩
  rw [if_neg hres]
  -- the thread
  obtain ⟨hmem₄, hkeep₄⟩ := hmem₃.schedCreateThread hpP imageBase cStack
  have hkeep₄ := hkeep₃.trans (hkeep₄.mono hother)
  obtain ⟨rt, s₄, heq, hinv₄, hcreated⟩ := hinv₃.schedCreateThread hpP imageBase cStack
  rw [heq] at hmem₄ hkeep₄ ⊢
  cases rt with
  | none =>
    dsimp only at hmem₄ hkeep₄ ⊢
    obtain ⟨hmem₅, hkeep₅⟩ := hmem₄.freePages hpP pages imageBase le_rfl hend
    have hinv₅ := hinv₄.congr (SameLinks.withMach _ s₄ (vmmFreePagesIn_cr3 s₄.mach
      (s₄.proc cProc.addr).cr3 pages imageBase))
    obtain ⟨P', hsound, hkeep⟩ := Sound.destroy ⟨hmem₅.heapPut cData.addr, _, hinv₅.release rfl⟩
      hpP hnew.ne_idle g
    exact ⟨P', hsound, ((hkeep₄.trans (hkeep₅.mono hother)).heapPut _).trans
      (hkeep.mono hother)⟩
  | some t =>
    dsimp only at hmem₄ hkeep₄ ⊢
    obtain ⟨hmem₅, hkeep₅⟩ := hmem₄.copy hpP image
      ((Nat.add_le_add_left hlen imageBase).trans hend)
    have hinv₅ := hinv₄.congr (SameLinks.withMach _ s₄ (inSpace_cr3 s₄.mach
      (s₄.proc cProc.addr).cr3 (f := fun m => ((), copyImage imageBase image m))
      (copyImage_cr3 imageBase image)))
    have htp := hcreated.proc_eq t rfl
    have hused : (s₄.thread t).state ≠ .free := by
      rw [hcreated.state t rfl]
      decide
    have hready : ThreadState.ready ≠ .free := by decide
    have hinv₆ := (hinv₅.release rfl).moveTo (t := t) (q := .ready)
      (htp ▸ hpP) ((hcreated.owner t rfl).trans (congrArg some htp.symm))
      hused trivial (by simp) hready
    refine ⟨cProc.addr :: P, ⟨?_, _, hinv₆⟩, (hkeep₄.trans (hkeep₅.mono hother)).trans ?_⟩
    · exact (hmem₅.heapPut cData.addr).moveTo .ready .ready t
    · exact .of_phys (fun _ _ => rfl) rfl

end Gummy
