import Gummy.Kernel.Simulation
import Gummy.Vmm.Bytes

/-!
The address spaces of the processes.

`Memory K s P` says that the directories of the processes `P` share nothing but the upper
half, that no frame of theirs lies in `K`, and where in them the user stacks are.  Each
operation of the kernel keeps it, and leaves alone the lower halves of the processes that
it is not about.
-/

namespace Gummy

open CWord Machine

/-! ### The invariant -/

/-- The directories of the processes `P`, and the frames `K`. -/
def Kernel.owners (s : Kernel) (P : List ℕ) (K : Set ℕ) : Owners :=
  ⟨{d | ∃ p ∈ P, (s.proc p).cr3 = d}, K⟩

structure Memory (K : Set ℕ) (s : Kernel) (P : List ℕ) : Prop where
  spaces : Spaces s.mach (s.owners P K)
  inj : ∀ p ∈ P, ∀ q ∈ P, (s.proc p).cr3 = (s.proc q).cr3 → p = q
  /-- the slot that `vmm_clone` borrows -/
  slot : ∀ p ∈ P, ¬ isPresent (s.mach.entry (s.proc p).cr3 0) = true
  stack : ∀ t, t.process ∈ P → (s.thread t).process ≠ none →
    (s.thread t).stack =
      if t.process = idleProcess then 0 else userStackEnd t.slot - userStackSize
  base : heapBase ≤ s.heap.stop
  stop_dvd : pageSize ∣ s.heap.stop

/-- The slots of the lower half, except for the first one. -/
def userSlots : Set ℕ := {i | i ≠ 0 ∧ i < 768}

/-- The slots of the heap. -/
def heapSlots : Set ℕ := {i | 896 ≤ i}

/-- The lower halves of the processes `Q` are what they were. -/
def KeepsUser (Q : Set ℕ) (s s' : Kernel) : Prop :=
  ∀ q ∈ Q, (s'.proc q).cr3 = (s.proc q).cr3 ∧ SameUser (s.proc q).cr3 s.mach s'.mach

/-- The processes `P` keep their directories, and no thread of theirs has come up or has
another stack. -/
structure SameOwners (P : List ℕ) (s s' : Kernel) : Prop where
  cr3 : ∀ p ∈ P, (s'.proc p).cr3 = (s.proc p).cr3 := by exact fun _ _ => rfl
  thread : ∀ t, t.process ∈ P → (s'.thread t).process ≠ none →
    (s.thread t).process ≠ none ∧ (s'.thread t).stack = (s.thread t).stack := by
      exact fun _ _ h => ⟨h, rfl⟩
  stop : s.heap.stop ≤ s'.heap.stop := by exact le_rfl
  stop_dvd : pageSize ∣ s.heap.stop → pageSize ∣ s'.heap.stop := by exact id

variable {K : Set ℕ} {s s' s'' : Kernel} {P : List ℕ} {S Q : Set ℕ} {d p : ℕ}

lemma mem_owners (hp : p ∈ P) : (s.proc p).cr3 ∈ s.owners P K := ⟨p, hp, rfl⟩

namespace KeepsUser

lemma refl (Q : Set ℕ) (s : Kernel) : KeepsUser Q s s := fun _ _ => ⟨rfl, .refl _ _⟩

lemma trans (h : KeepsUser Q s s') (h' : KeepsUser Q s' s'') : KeepsUser Q s s'' := by
  intro q hq
  obtain ⟨hcr3, huser⟩ := h q hq
  obtain ⟨hcr3', huser'⟩ := h' q hq
  refine ⟨hcr3'.trans hcr3, huser.trans ?_⟩
  rwa [hcr3] at huser'

lemma mono {Q' : Set ℕ} (h : KeepsUser Q s s') (hQ : Q' ⊆ Q) : KeepsUser Q' s s' :=
  fun q hq => h q (hQ hq)

/-- Nothing in memory changes. -/
lemma of_phys (hcr3 : ∀ q ∈ Q, (s'.proc q).cr3 = (s.proc q).cr3)
    (hphys : s'.mach.phys = s.mach.phys) : KeepsUser Q s s' := by
  intro q hq
  have hentry : ∀ f k, s'.mach.entry f k = s.mach.entry f k := fun f k => by
    rw [entry, entry, hphys]
  refine ⟨hcr3 q hq, fun k _ => ?_, fun k _ _ => hentry _ _, fun k _ _ l _ => hentry _ _,
    fun k _ _ l _ _ x _ => by rw [hphys]⟩
  rw [hentry]

lemma heapPut (h : KeepsUser Q s s') (addr : ℕ) : KeepsUser Q s (heapPut addr s') :=
  h.trans (.of_phys (fun _ _ => rfl) rfl)

end KeepsUser

namespace SameOwners

lemma of_eq (hproc : s'.proc = s.proc) (hthread : s'.thread = s.thread)
    (hstop : s'.heap.stop = s.heap.stop) : SameOwners P s s' := by
  refine ⟨fun p _ => ?_, fun t _ h => ?_, hstop.ge, fun h => ?_⟩
  · rw [hproc]
  · rw [hthread] at h ⊢
    exact ⟨h, rfl⟩
  · rwa [hstop]

lemma trans (h : SameOwners P s s') (h' : SameOwners P s' s'') : SameOwners P s s'' where
  cr3 p hp := (h'.cr3 p hp).trans (h.cr3 p hp)
  thread t ht hproc := by
    obtain ⟨hproc', hstack'⟩ := h'.thread t ht hproc
    obtain ⟨hproc'', hstack⟩ := h.thread t ht hproc'
    exact ⟨hproc'', hstack'.trans hstack⟩
  stop := h.stop.trans h'.stop
  stop_dvd hdvd := h'.stop_dvd (h.stop_dvd hdvd)

lemma owners_eq (h : SameOwners P s s') : s'.owners P K = s.owners P K := by
  unfold Kernel.owners
  congr 1
  ext d
  constructor
  · rintro ⟨p, hp, rfl⟩
    exact ⟨p, hp, (h.cr3 p hp).symm⟩
  · rintro ⟨p, hp, rfl⟩
    exact ⟨p, hp, h.cr3 p hp⟩

end SameOwners

namespace Memory

/-- Other contents of the same spaces. -/
lemma congr (h : Memory K s P) (hs : SameOwners P s s')
    (hspaces : Spaces s'.mach (s.owners P K))
    (hslot : ∀ p ∈ P, ¬ isPresent (s'.mach.entry (s.proc p).cr3 0) = true) : Memory K s' P := by
  refine ⟨?_, fun p hp q hq heq => ?_, fun p hp => ?_, fun t ht hproc => ?_, h.base.trans hs.stop,
    hs.stop_dvd h.stop_dvd⟩
  · rwa [hs.owners_eq]
  · rw [hs.cr3 p hp, hs.cr3 q hq] at heq
    exact h.inj p hp q hq heq
  · rw [hs.cr3 p hp]
    exact hslot p hp
  · obtain ⟨hproc', hstack⟩ := hs.thread t ht hproc
    rw [hstack, h.stack t ht hproc']

/-- The machine does not change, but for the active space. -/
lemma same (h : Memory K s P) (hs : SameOwners P s s') (hmach : s'.mach = s.mach.space s'.mach.cr3)
    (hactive : s'.mach.cr3 ∈ s.owners P K) : Memory K s' P := by
  refine h.congr hs ?_ fun p hp => ?_
  · rw [hmach]
    exact h.spaces.space hactive
  · rw [hmach]
    exact h.slot p hp

/-- Edits in one of the spaces. -/
lemma edits (h : Memory K s P) (hs : SameOwners P s s') (hd : d ∈ s.owners P K) (h0 : 0 ∉ S)
    (he : EditsIn (s.owners P K) S d s.mach s'.mach) : Memory K s' P := by
  refine h.congr hs (he.spaces h.spaces hd) fun p hp => ?_
  rw [he.entry_eq h.spaces hd (mem_owners hp) (by norm_num) (Or.inr h0)]
  exact h.slot p hp

/-- Edits of slots of the upper half change no lower half. -/
lemma keeps_upper (h : Memory K s P) (hs : SameOwners P s s') (hS : ∀ k ∈ S, 768 ≤ k)
    (he : Edits (s.owners P K) S s.mach s'.mach) : KeepsUser {q | q ∈ P} s s' := by
  intro q hq
  refine ⟨hs.cr3 q hq, (he.elsewhere h.spaces).sameUser (mem_owners hq) (Or.inr fun k hk hkS => ?_)⟩
  exact absurd (hS k hkS) (not_le.2 hk)

/-- Edits in the space of `p` change no other lower half. -/
lemma keeps_others (h : Memory K s P) (hs : SameOwners P s s') (hp : p ∈ P)
    (he : EditsIn (s.owners P K) S (s.proc p).cr3 s.mach s'.mach) :
    KeepsUser {q | q ∈ P ∧ q ≠ p} s s' := by
  rintro q ⟨hq, hne⟩
  refine ⟨hs.cr3 q hq, he.sameUser h.spaces (mem_owners hp) (mem_owners hq) fun heq => ?_⟩
  exact hne (h.inj q hq p hp heq)

/-! ### The heap -/

lemma edits_heapGrow (h : Memory K s P) (pages : ℕ) :
    Edits (s.owners P K) heapSlots s.mach (heapGrow pages s).mach ∧
      SameOwners P s (heapGrow pages s) := by
  have hbase := h.base
  have hregion : s.heap.stop + pages * pageSize < 0xFFC00000 → Edits (s.owners P K) heapSlots s.mach
      (vmmAllocPagesRegion pages (vmmFlagsRw ||| vmmFlagsPresent) s.heap.stop
        (s.heap.stop + pages * pageSize) s.mach).2 := by
    intro hlt
    refine h.spaces.edits_region (by decide) (by omega) hlt.le fun v hv hge =>
        ⟨?_, fun _ => by decide⟩
    simp only [heapSlots, Set.mem_ofPred_eq, getPdeIndex_eq, heapBase] at hbase ⊢
    omega
  unfold Gummy.heapGrow
  dsimp only
  split_ifs with hstop hres
  · exact ⟨.refl, .of_eq rfl rfl rfl⟩
  · refine ⟨hregion (not_le.1 (not_or.1 hstop).2), { stop := Nat.le_add_right .., stop_dvd := ?_ }⟩
    exact fun hdvd => Nat.dvd_add hdvd (Nat.dvd_mul_left ..)
  · exact ⟨hregion (not_le.1 (not_or.1 hstop).2), .of_eq rfl rfl rfl⟩

lemma heapGet_mach (size : ℕ) (c : HeapChoice) (s : Kernel) :
    (heapGet size c s).2.mach = (heapGrow c.pages s).mach := by
  unfold Gummy.heapGet
  dsimp only
  split_ifs <;> rfl

lemma edits_heapGet (h : Memory K s P) (size : ℕ) (c : HeapChoice) :
    Edits (s.owners P K) heapSlots s.mach (heapGet size c s).2.mach ∧
      SameOwners P s (heapGet size c s).2 := by
  obtain ⟨hedits, hs⟩ := h.edits_heapGrow c.pages
  rw [heapGet_mach]
  refine ⟨hedits, hs.trans ?_⟩
  unfold Gummy.heapGet
  dsimp only
  split_ifs <;> exact .of_eq rfl rfl rfl

lemma zero_notMem_heapSlots : 0 ∉ heapSlots := by
  simp [heapSlots]

lemma heapGet (h : Memory K s P) (size : ℕ) (c : HeapChoice) :
    Memory K (heapGet size c s).2 P ∧ KeepsUser {q | q ∈ P} s (Gummy.heapGet size c s).2 := by
  obtain ⟨hedits, hs⟩ := h.edits_heapGet size c
  refine ⟨h.edits hs h.spaces.active zero_notMem_heapSlots (.of_edits hedits),
    h.keeps_upper hs (fun k hk => ?_) hedits⟩
  exact le_trans (by norm_num) hk

lemma heapPut (h : Memory K s P) (addr : ℕ) : Memory K (heapPut addr s) P :=
  h.same (.of_eq rfl rfl rfl) rfl h.spaces.active

/-! ### Threads -/

/-- The user stack of a slot lies in the last slot of the lower half. -/
lemma userStack_slot (slot : Fin threadPerProcess) :
    userStackEnd slot - userStackSize + userStackPages * pageSize = userStackEnd slot ∧
      0xBFC00000 ≤ userStackEnd slot - userStackSize ∧ userStackEnd slot ≤ 0xC0000000 ∧
        pageSize ∣ userStackEnd slot - userStackSize := by
  have hslot := slot.2
  simp only [threadPerProcess] at hslot
  simp only [userStackEnd, userStackTop, userStackSize, userStackPages, pageSize]
  generalize (slot : ℕ) = i at *
  omega

lemma getPdeIndex_userStack {v : ℕ} (hge : 0xBFC00000 ≤ v) (hlt : v < 0xC0000000) :
    getPdeIndex v ∈ userSlots := by
  simp only [userSlots, Set.mem_ofPred_eq, getPdeIndex_eq]
  omega

lemma allocUserStack_mach (stack sp : ℕ) (hi : p ≠ idleProcess) (s : Kernel) :
    (allocUserStack p stack sp s).2.mach = (vmmAllocPagesRegion userStackPages
      (vmmFlagsPresent ||| vmmFlagsRw ||| vmmFlagsUser) stack sp
        (s.mach.space (s.proc p).cr3)).2.space s.mach.cr3 := by
  unfold Gummy.allocUserStack
  rw [if_neg hi, vmmAllocPagesRegionIn_eq]

lemma edits_allocUserStack (h : Memory K s P) (hp : p ∈ P) {stack sp : ℕ} (hge : 0xBFC00000 ≤ stack)
    (hle : sp ≤ 0xC0000000) (hsp : stack ≤ sp) :
    EditsIn (s.owners P K) userSlots (s.proc p).cr3 s.mach (allocUserStack p stack sp s).2.mach ∧
      SameOwners P s (allocUserStack p stack sp s).2 := by
  have hcr3 : (s.proc p).cr3 ∈ s.owners P K := mem_owners hp
  constructor
  swap
  · obtain ⟨b, m, heq, -⟩ := allocUserStack_spec p stack sp s
    rw [heq]
    exact .of_eq rfl rfl rfl
  by_cases hi : p = idleProcess
  · unfold Gummy.allocUserStack
    rw [if_pos hi]
    exact ⟨s.mach.space _, .refl, rfl⟩
  refine ⟨_, ?_, allocUserStack_mach stack sp hi s⟩
  refine (h.spaces.space hcr3).edits_region (by decide) (by omega) (by omega)
    fun v hv hge' => ⟨getPdeIndex_userStack (by omega) (by omega), fun hupper => ?_⟩
  rw [getPdeIndex_eq] at hupper
  omega

lemma sameOwners_clearThread (t : ThreadRef) : SameOwners P s (clearThread t s) := by
  refine { thread := fun u hu hproc => ?_ }
  by_cases hut : u = t
  · have hzero : (clearThread t s).thread t = Thread.zero := Function.update_self ..
    rw [hut, hzero] at hproc
    exact absurd rfl hproc
  · have hthread : (clearThread t s).thread u = s.thread u := Function.update_of_ne hut ..
    rw [hthread] at hproc ⊢
    exact ⟨hproc, rfl⟩

/-- A thread is given its stack. -/
lemma setStack (h : Memory K s P) {t : ThreadRef} {f : Thread → Thread}
    (hstack : (f (s.thread t)).stack =
      if t.process = idleProcess then 0 else userStackEnd t.slot - userStackSize) :
    Memory K (s.setThread t f) P := by
  refine { h with stack := fun u hu hproc => ?_ }
  by_cases hut : u = t
  · rw [hut, Kernel.setThread_self, hstack]
  · rw [Kernel.setThread_of_ne s _ hut] at hproc ⊢
    exact h.stack u hu hproc

lemma heapGet_thread (size : ℕ) (c : HeapChoice) (s : Kernel) :
    (Gummy.heapGet size c s).2.thread = s.thread := by
  obtain ⟨m, k, -, -, heq | ⟨-, heq⟩⟩ := heapGet_spec size c s <;> rw [heq] <;> rfl

/-- `sched_create_thread` -/
lemma schedCreateThread (h : Memory K s P) (hp : p ∈ P) (loc : ℕ) (c : HeapChoice) :
    Memory K (schedCreateThread loc p c s).2 P ∧
      KeepsUser {q | q ∈ P ∧ q ≠ p} s (Gummy.schedCreateThread loc p c s).2 := by
  unfold Gummy.schedCreateThread
  split_ifs with hloc hnum
  · exact ⟨h, .refl _ _⟩
  · exact ⟨h, .refl _ _⟩
  cases hslot : freeSlot p s with
  | none => exact ⟨h, .refl _ _⟩
  | some slot =>
    dsimp only
    have hclear : Memory K (clearThread ⟨p, slot⟩ s) P :=
      h.same (sameOwners_clearThread _) rfl h.spaces.active
    have hkeep : KeepsUser {q | q ∈ P ∧ q ≠ p} s (clearThread ⟨p, slot⟩ s) :=
      .of_phys (fun _ _ => rfl) rfl
    obtain ⟨hget, hkeep₁⟩ := hclear.heapGet kernelStackSize c
    have hkeep₁ := hkeep.trans (hkeep₁.mono fun q hq => hq.1)
    have hthread := heapGet_thread kernelStackSize c (clearThread ⟨p, slot⟩ s)
    rcases heq : Gummy.heapGet kernelStackSize c (clearThread ⟨p, slot⟩ s) with ⟨_ | stack0, s₁⟩
    all_goals rw [heq] at hget hkeep₁ hthread
    · exact ⟨hget, hkeep₁⟩
    · dsimp only at hget hkeep₁ hthread ⊢
      obtain ⟨-, hge, hle, -⟩ := userStack_slot slot
      obtain ⟨hedits, hs⟩ := hget.edits_allocUserStack hp hge hle (Nat.sub_le ..)
      have hstack := hget.edits hs (mem_owners hp) (fun h0 => h0.1 rfl) hedits
      have hkeep₂ := hkeep₁.trans (hget.keeps_others hs hp hedits)
      obtain ⟨b, m, heq, -⟩ := allocUserStack_spec p (userStackEnd slot - userStackSize)
        (userStackEnd slot) s₁
      rw [heq] at hstack hkeep₂ ⊢
      cases b with
      | false => exact ⟨hstack.heapPut stack0, hkeep₂⟩
      | true =>
        have hzero : s₁.thread ⟨p, slot⟩ = Thread.zero := by
          rw [hthread]
          exact Function.update_self ..
        have hfill := hstack.setStack (t := ⟨p, slot⟩)
          (f := fillThread p loc stack0 (userStackEnd slot)) (by
            show (if p ≠ idleProcess then _ else (s₁.thread ⟨p, slot⟩).stack) = _
            rw [hzero, ite_not]
            rfl)
        refine ⟨hfill.same { cr3 := fun q _ => ?_ } rfl hfill.spaces.active, fun q hq => ?_⟩
        · by_cases hq : q = p
          · rw [hq, Kernel.setProc_self]
          · rw [Kernel.setProc_of_ne _ _ hq]
        · obtain ⟨hcr3, huser⟩ := hkeep₂ q hq
          refine ⟨?_, huser⟩
          rw [Kernel.setProc_of_ne _ _ hq.2]
          exact hcr3

lemma edits_freePagesIn (h : Memory K s P) (hp : p ∈ P) {n virt : ℕ} (hge : 0x400000 ≤ virt)
    (hend : virt + n * pageSize ≤ 0xC0000000) :
    EditsIn (s.owners P K) userSlots (s.proc p).cr3 s.mach
      (vmmFreePagesIn (s.proc p).cr3 n virt s.mach).2 := by
  have hcr3 : (s.proc p).cr3 ∈ s.owners P K := mem_owners hp
  rw [vmmFreePagesIn_eq]
  refine ⟨_, (h.spaces.space hcr3).edits_vmmFreePages hend fun k hk => ?_, rfl⟩
  have hlt : k * pageSize + pageSize ≤ n * pageSize := by
    rw [← Nat.succ_mul]
    exact Nat.mul_le_mul_right _ hk
  simp only [userSlots, Set.mem_ofPred_eq, getPdeIndex_eq]
  simp only [pageSize] at *
  omega

/-- The pages of a thread are given back. -/
lemma freePages (h : Memory K s P) (hp : p ∈ P) (n virt : ℕ) (hge : 0x400000 ≤ virt)
    (hend : virt + n * pageSize ≤ 0xC0000000) :
    Memory K { s with mach := (vmmFreePagesIn (s.proc p).cr3 n virt s.mach).2 } P ∧
      KeepsUser {q | q ∈ P ∧ q ≠ p} s
        { s with mach := (vmmFreePagesIn (s.proc p).cr3 n virt s.mach).2 } := by
  have hedits := h.edits_freePagesIn hp hge hend
  have hs : SameOwners P s { s with mach := (vmmFreePagesIn (s.proc p).cr3 n virt s.mach).2 } :=
    .of_eq rfl rfl rfl
  exact ⟨h.edits hs (mem_owners hp) (fun h0 => h0.1 rfl) hedits, h.keeps_others hs hp hedits⟩

/-- The rest of `sched_destroy_thread`, behind the call of `vmm_free_pages_in`. -/
lemma retire (h : Memory K s P) (t : ThreadRef) (hs' : s' = s ∨ ∃ a, s' = Gummy.heapPut a s)
    (Q' : Queues QueueRef ThreadRef) (f : Process → Process) (hf : ∀ x, (f x).cr3 = x.cr3) :
    Memory K (({ s' with queues := Q' }.setProc p f).setThread t ({ · with state := .free })) P ∧
      KeepsUser Q s
        (({ s' with queues := Q' }.setProc p f).setThread t ({ · with state := .free })) := by
  have hs₁ : SameOwners P s s' ∧ s'.mach = s.mach ∧ s'.proc = s.proc := by
    rcases hs' with rfl | ⟨a, rfl⟩
    · exact ⟨.of_eq rfl rfl rfl, rfl, rfl⟩
    · exact ⟨.of_eq rfl rfl rfl, rfl, rfl⟩
  have hcr3 : ∀ q, (({ s' with queues := Q' }.setProc p f).proc q).cr3 = (s.proc q).cr3 := by
    intro q
    rw [← hs₁.2.2]
    by_cases hq : q = p
    · rw [hq, Kernel.setProc_self, hf]
    · rw [Kernel.setProc_of_ne _ _ hq]
  have hs₂ : SameOwners P s
      (({ s' with queues := Q' }.setProc p f).setThread t ({ · with state := .free })) := by
    refine hs₁.1.trans { cr3 := fun q _ => ?_, thread := fun u _ hproc => ?_ }
    · exact (hcr3 q).trans (congrArg (fun proc => (proc q).cr3) hs₁.2.2).symm
    · by_cases hu : u = t
      · rw [hu, Kernel.setThread_self] at hproc ⊢
        exact ⟨hproc, rfl⟩
      · rw [Kernel.setThread_of_ne _ _ hu] at hproc ⊢
        exact ⟨hproc, rfl⟩
  have hmach : s'.mach = s.mach.space s'.mach.cr3 := by
    rw [hs₁.2.1]
    rfl
  have hactive : s'.mach.cr3 ∈ s.owners P K := by
    rw [hs₁.2.1]
    exact h.spaces.active
  exact ⟨h.same hs₂ hmach hactive,
    .of_phys (fun q _ => hcr3 q) (congrArg Machine.phys hs₁.2.1)⟩

/-- `sched_destroy_thread` -/
lemma schedDestroyThread {L : QueueRef → List ThreadRef} {D : List (ℕ × ℕ)} (h : Memory K s P)
    (hinv : Inv s P L D) {t : ThreadRef} (ht : t.process ∈ P) :
    Memory K (schedDestroyThread t s) P ∧
      KeepsUser {q | q ∈ P ∧ q ≠ t.process} s (Gummy.schedDestroyThread t s) := by
  unfold Gummy.schedDestroyThread
  cases hproc : (s.thread t).process with
  | none => exact ⟨h, .refl _ _⟩
  | some q =>
    obtain rfl := hinv.owner t ht q hproc
    have hfreed : Memory K (if (s.thread t).stack ≠ 0 then { s with mach :=
          (vmmFreePagesIn (s.proc t.process).cr3 userStackPages (s.thread t).stack s.mach).2 }
        else s) P ∧ KeepsUser {q | q ∈ P ∧ q ≠ t.process} s
          (if (s.thread t).stack ≠ 0 then { s with mach :=
            (vmmFreePagesIn (s.proc t.process).cr3 userStackPages (s.thread t).stack s.mach).2 }
          else s) := by
      by_cases hstack : (s.thread t).stack ≠ 0
      · rw [if_pos hstack]
        have heq := h.stack t ht (by rw [hproc]; simp)
        split_ifs at heq with hi
        · exact absurd heq hstack
        · obtain ⟨hsize, hge, hle, -⟩ := userStack_slot t.slot
          rw [heq]
          exact h.freePages ht _ _ (by omega) (by omega)
      · rw [if_neg hstack]
        exact ⟨h, .refl _ _⟩
    dsimp only
    by_cases hfree : (s.thread t).state = .free
    · rw [if_pos hfree]
      exact ⟨h, .refl _ _⟩
    by_cases hcur : t = s.currentThread
    · rw [if_neg hfree, if_pos hcur]
      exact ⟨h, .refl _ _⟩
    rw [if_neg hfree, if_neg hcur]
    obtain ⟨hmem, hkeep⟩ := hfreed
    generalize (if (s.thread t).stack ≠ 0 then { s with mach :=
      (vmmFreePagesIn (s.proc t.process).cr3 userStackPages (s.thread t).stack s.mach).2 }
        else s) = s₁ at *
    have hrest : ∀ s', (s' = s₁ ∨ ∃ a, s' = Gummy.heapPut a s₁) → _ := fun s' hs' =>
      hmem.retire (p := t.process) (Q := {q | q ∈ P ∧ q ≠ t.process}) t hs'
        (queueRemove s'.queues t)
        (fun x => { x with numThreads := (x.numThreads + 2 ^ 8 - 1) % 2 ^ 8 }) fun _ => rfl
    obtain ⟨hmem', hkeep'⟩ := hrest
      (if (s₁.thread t).stack0 ≠ 0 then Gummy.heapPut (s₁.thread t).stack0 s₁ else s₁) (by
        split_ifs
        · exact Or.inr ⟨_, rfl⟩
        · exact Or.inl rfl)
    exact ⟨hmem', hkeep.trans hkeep'⟩

end Memory

end Gummy
