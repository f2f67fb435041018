import Gummy.Kernel.Ownership
import Gummy.Kernel.SameMemory
import Gummy.Pmm.Usable

/-!
No two processes share a frame, in any run.

Most steps of the kernel change no memory at all, as `SameMemory` says; those that do were the
subject of `Kernel.Memory` and `Kernel.Ownership`.
-/

namespace Gummy

open CWord Machine

open Transition (Reachable)

variable {K : Set ℕ} {s s' s'' : Kernel} {P : List ℕ} {p : ℕ} {v : View}

/-! ### Every step keeps the frames apart -/

namespace Memory

lemma sameMemory (h : Memory K s P) (hs : SameMemory s s')
    (hactive : s'.mach.cr3 ∈ s.owners P K) : Memory K s' P := by
  have hphys : s'.mach.phys = s.mach.phys := congrArg Layout.phys hs
  have hpmm : s'.mach.pmm = s.mach.pmm := congrArg Layout.pmm hs
  have hstop : s'.heap.stop = s.heap.stop := congrArg Layout.stop hs
  refine h.same { cr3 := fun p _ => hs.cr3 p, thread := fun t _ hproc => ?_, stop := ?_,
                  stop_dvd := ?_ } ?_ hactive
  · rw [hs.process t] at hproc
    exact ⟨hproc, hs.stack t⟩
  · rw [hstop]
  · rw [hstop]
    exact id
  · rw [space, ← hphys, ← hpmm]

/-- Pages mapped in the upper half. -/
lemma mapKernel (h : Memory K s P) (n : ℕ) {regionStart regionEnd : ℕ}
    (hstart : 0xC0000000 ≤ regionStart) (hle : regionStart ≤ regionEnd)
    (hend : regionEnd ≤ 0xFFC00000) :
    Memory K { s with mach := (vmmAllocPagesRegion n (vmmFlagsPresent ||| vmmFlagsRw) regionStart
      regionEnd s.mach).2 } P := by
  have hedits : Edits (s.owners P K) {i | 768 ≤ i} s.mach
      (vmmAllocPagesRegion n (vmmFlagsPresent ||| vmmFlagsRw) regionStart regionEnd s.mach).2 := by
    refine h.spaces.edits_region (by decide) (hle.trans hend) hend fun v hv hge =>
      ⟨?_, fun _ => by decide⟩
    simp only [Set.mem_ofPred_eq, getPdeIndex_eq]
    omega
  exact h.edits {} h.spaces.active (by simp) (.of_edits hedits)

end Memory

/-- A region of kernel code ends behind its start. -/
def Event.MapsForward : Event → Prop
  | .mapKernel _ regionStart regionEnd => regionStart ≤ regionEnd
  | _ => True

lemma Sound.setEax (h : Sound K s P) (t : ThreadRef) (n : ℕ) : Sound K (s.setEax t n) P := by
  obtain ⟨hmem, L, hinv⟩ := h
  exact ⟨hmem.sameMemory (.setEax s t n) hmem.spaces.active, L,
    hinv.congr (SameLinks.setEax P s t n)⟩

/-- `sys_nthread_impl` -/
lemma Sound.sysNthread (h : Sound K s P) (entry : ℕ) (c : HeapChoice) :
    Sound K (sysNthread entry c s).2 P := by
  obtain ⟨hmem, L, hinv⟩ := h
  unfold Gummy.sysNthread
  rw [schedGetCurrentProcess, hinv.current_owner]
  dsimp only
  have hp := hinv.current_mem
  obtain ⟨hmem', -⟩ := hmem.schedCreateThread hp entry c
  obtain ⟨res, s', heq, hinv', hcreated⟩ := hinv.schedCreateThread hp entry c
  rw [heq] at hmem' ⊢
  cases res with
  | none => exact ⟨hmem', L, hinv'⟩
  | some t =>
    have htp := hcreated.proc_eq t rfl
    exact ⟨hmem'.moveTo .ready .ready t, _, hinv'.moveTo (htp ▸ hp)
      ((hcreated.owner t rfl).trans (congrArg some htp.symm)) (by rw [hcreated.state t rfl]; simp)
      trivial (by simp) (by simp)⟩

/-- The entries that do change memory return to their callers. -/
lemma Sound.handle (h : Sound K s P) {e : Event} (he : ¬ e.KeepsMemory) (hadm : Admissible s e)
    (hmap : e.MapsForward) : ∃ P', Sound K (handle e s).finish P' := by
  have hproc : s.processes = P := h.2.elim fun L hinv => hinv.processes_eq
  cases e with
  | nprocess entry image cData cProc cStack g =>
    obtain ⟨P', hsound, -⟩ := h.sysNprocess (u32 entry) image cData cProc cStack g
    exact ⟨P', hsound.setEax _ _⟩
  | nthread entry c => exact ⟨P, (h.sysNthread (u32 entry) c).setEax _ _⟩
  | destroy p g =>
    obtain ⟨hp, hi⟩ := hadm
    obtain ⟨P', hsound, -⟩ := h.destroy (hproc ▸ hp) hi g
    exact ⟨P', hsound⟩
  | alloc size c =>
    obtain ⟨hmem, L, hinv⟩ := h
    refine ⟨P, (hmem.heapGet (u32 size) c).1, ?_⟩
    obtain ⟨s', heq, hinv'⟩ | ⟨s', heq, hinv'⟩ := hinv.heapGet (u32 size) c
    · exact ⟨L, by rwa [Gummy.handle, heq]⟩
    · exact ⟨L, by rw [Gummy.handle, heq]; exact hinv'.forget rfl⟩
  | mapKernel n regionStart regionEnd =>
    obtain ⟨hmem, L, hinv⟩ := h
    obtain ⟨hstart, hend⟩ := hadm
    exact ⟨P, hmem.mapKernel n hstart hmap hend, L, hinv.congr (SameLinks.withMach P s
      (vmmAllocPagesRegion_cr3 s.mach n _ regionStart regionEnd))⟩
  | _ => exact absurd trivial he

/-- A step keeps the frames of the processes apart. -/
theorem Memory.step (h : Memory K s v.processes) (habs : Abs s v []) {e : Event}
    (hadm : Admissible s e) (hmap : e.MapsForward) :
    ∃ v', Abs (step s e) v' [] ∧ Memory K (step s e) v'.processes := by
  obtain ⟨v', habs'⟩ := habs.step_abs hadm
  refine ⟨v', habs', ?_⟩
  have hproc' := habs'.inv.processes_eq
  by_cases he : e.KeepsMemory
  · have hs := step_sameMemory s he
    have hproc : v'.processes = v.processes := by
      rw [← hproc', hs.processes, habs.inv.processes_eq]
    rw [hproc]
    refine h.sameMemory hs ?_
    rw [habs'.inv.cr3, hs.cr3]
    exact mem_owners (hproc ▸ habs'.inv.current_mem)
  · by_cases hrun : s.halted = true
    · have hstep : Gummy.step s e = s := if_pos hrun
      rw [hstep] at hproc' ⊢
      rwa [← hproc', habs.inv.processes_eq]
    · have hstep : Gummy.step s e = (Gummy.handle e s).finish := if_neg hrun
      obtain ⟨P', hmem', L', hinv'⟩ := Sound.handle ⟨h, v.queue, habs.inv⟩ he hadm hmap
      rw [← hstep] at hmem' hinv'
      rwa [← hproc', hinv'.processes_eq]

/-! ### The start -/

/-- `heap_init`: the first pages of the heap are mapped. -/
def heapInitPages (m : Machine) : Machine :=
  (vmmAllocPagesRegion 24 (vmmFlagsRw ||| vmmFlagsPresent) heapBase (heapBase + 24 * pageSize) m).2

/-- The frames of the kernel image and of the bitmap behind it. -/
def kernelFrames (p : Pmm) (kernelEnd : ℕ) : Set ℕ :=
  {a | pageSize ∣ a ∧ 16 * pageSize ≤ a ∧ a < kernelEnd - kernelOffset + p.bitmapBytes}

/-- Where `sched_init` finds the machine: `pmm_init`, `vmm_init` and `heap_init` have run. -/
def BootMemory (K : Set ℕ) (m : Machine) : Prop :=
  ∃ m₀ mem entries kernelEnd, BootTables m₀ ∧ m₀.cr3 ≠ 0 ∧ kernelStartVirt ≤ kernelEnd ∧
    kernelEnd + 0x20000 < 2 ^ 32 ∧ m₀.pmm = pmmInit mem entries kernelEnd ∧
    K = kernelFrames m₀.pmm kernelEnd ∧ m = heapInitPages m₀

/-- The state in which `kmain` starts the first threads, memory included. -/
def InitMemory (K : Set ℕ) (s : Kernel) : Prop :=
  ∃ s₀, Boot s₀ ∧ BootMemory K s₀.mach ∧ s = schedInit 100 s₀

lemma BootMemory.spaces {m : Machine} (h : BootMemory K m) :
    Spaces m ⟨{m.cr3}, K⟩ ∧ ¬ isPresent (m.pde 0) = true := by
  obtain ⟨m₀, mem, entries, kernelEnd, hboot, h0, hk, hfit, hpmm, rfl, rfl⟩ := h
  have hk' : kernelOffset ≤ kernelEnd := le_trans (by norm_num) hk
  have hspaces : Spaces m₀ ⟨{m₀.cr3}, kernelFrames m₀.pmm kernelEnd⟩ := by
    refine hboot.spaces h0 (fun f hf => hf.1) (fun f hf => hf.2.1) fun f hf hfree => ?_
    obtain ⟨⟨a, rfl⟩, -, hlt⟩ := hf
    rw [hpmm, pmmInit_free_iff mem entries hk' hfit, Nat.mul_div_cancel_left a (by norm_num)]
      at hfree
    rw [hpmm, pmmInit_bitmapBytes] at hlt
    have hend := hfree.2.2
    rw [kernelEndPage] at hend
    simp only [pageSize] at hlt hend
    omega
  have hedits : Edits ⟨{m₀.cr3}, kernelFrames m₀.pmm kernelEnd⟩ heapSlots m₀ (heapInitPages m₀) := by
    refine hspaces.edits_region (by decide) (by norm_num) (by norm_num) fun v hv hge =>
      ⟨?_, fun _ => by decide⟩
    simp only [heapBase] at hge
    simp only [heapSlots, Set.mem_ofPred_eq, getPdeIndex_eq]
    omega
  have hcr3 : (heapInitPages m₀).cr3 = m₀.cr3 := hedits.cr3
  rw [hcr3]
  refine ⟨hedits.spaces hspaces, ?_⟩
  have hentry : (heapInitPages m₀).pde 0 = m₀.pde 0 := by
    have hpde := (hedits.elsewhere hspaces).pde m₀.cr3 rfl 0 (by norm_num)
      (Or.inr Memory.zero_notMem_heapSlots)
    rw [pde, hcr3]
    exact hpde
  rw [hentry, hboot.others 0 (by norm_num) (by norm_num), isPresent_zero]
  exact Bool.false_ne_true

lemma InitMemory.memory (h : InitMemory K s) : ∃ v, Abs s v [] ∧ Memory K s v.processes := by
  obtain ⟨s₀, hboot, hmem, rfl⟩ := h
  obtain ⟨hspaces, hslot⟩ := hmem.spaces
  have habs := Abs.init hboot 100
  have hproc : ((schedInit 100 s₀).proc idleProcess).cr3 = s₀.mach.cr3 := by
    rw [schedInit_proc, Function.update_self]
  have howners : (schedInit 100 s₀).owners [idleProcess] K = ⟨{s₀.mach.cr3}, K⟩ := by
    unfold Kernel.owners
    congr 1
    ext d
    simp only [List.mem_singleton, exists_eq_left, hproc, Set.mem_ofPred_eq, Set.mem_singleton_iff]
    exact eq_comm
  have hstop : (schedInit 100 s₀).heap.stop = heapBase + 24 * pageSize := hboot.stop
  refine ⟨View.init, habs, ?_, fun p hp q hq _ => ?_, fun p hp => ?_, fun t ht _ => ?_, ?_, ?_⟩
  · show Spaces s₀.mach ((schedInit 100 s₀).owners [idleProcess] K)
    rw [howners]
    exact hspaces
  · rw [List.mem_singleton.1 hp, List.mem_singleton.1 hq]
  · rw [List.mem_singleton.1 hp, hproc]
    exact hslot
  · have htp : t.process = idleProcess := List.mem_singleton.1 ht
    obtain ⟨q, i⟩ := t
    obtain rfl : q = idleProcess := htp
    rw [if_pos rfl, schedInit_thread]
    by_cases hi : (⟨idleProcess, i⟩ : ThreadRef) = idleThread
    · rw [hi, Function.update_self]
      exact congrArg Thread.stack (hboot.thread 0)
    · rw [Function.update_of_ne hi]
      exact congrArg Thread.stack (hboot.thread i)
  · rw [hstop]
    exact Nat.le_add_right _ _
  · rw [hstop]
    exact Nat.dvd_add (by norm_num) (Nat.dvd_mul_left ..)

/-- In every run, the frames of the processes are kept apart. -/
theorem InitMemory.reachable
    (h : Reachable (InitMemory K) (Transition.restrict Step fun _ e => e.MapsForward) s) :
    ∃ v, Abs s v [] ∧ Memory K s v.processes := by
  refine h.invariant (P := fun s => ∃ v, Abs s v [] ∧ Memory K s v.processes)
    (fun s hs => hs.memory) ?_
  rintro s e s' ⟨v, habs, hmem⟩ ⟨⟨hadm, rfl⟩, hmap⟩
  exact hmem.step habs hadm hmap

/-! ### Isolation -/

/-- What a frame may be to a process: its directory, the table of a slot of the lower half,
or the page that an entry of such a table maps. -/
inductive UserRole
  | dir
  | table (i : ℕ)
  | page (i j : ℕ)

/-- The process `p` uses the frame `f` for `r`. -/
def Kernel.Uses (s : Kernel) (p : ℕ) (r : UserRole) (f : ℕ) : Prop :=
  let d := (s.proc p).cr3
  match r with
  | .dir => f = d
  | .table i => i < 768 ∧ isPresent (s.mach.entry d i) = true ∧ f = frameAddr (s.mach.entry d i)
  | .page i j => i < 768 ∧ j < 1024 ∧ isPresent (s.mach.entry d i) = true ∧
      isPresent (s.mach.entry (frameAddr (s.mach.entry d i)) j) = true ∧
      f = frameAddr (s.mach.entry (frameAddr (s.mach.entry d i)) j)

/-- The address space of the process `p`. -/
def Kernel.spaceOf (s : Kernel) (p : ℕ) (m : Machine) : Machine := m.space (s.proc p).cr3

/-- The user half of `q` is in `m` what it is in `s`: the same pages with the same rights, and
the same bytes in them. -/
structure Kernel.Untouched (s : Kernel) (q : ℕ) (m : Machine) : Prop where
  walk : ∀ v < 0xC0000000, (s.spaceOf q m).walk v = (s.spaceOf q s.mach).walk v
  bytes : ∀ v < 0xC0000000, ∀ a, (s.spaceOf q s.mach).translate v = some a →
    m.phys a = s.mach.phys a

section

variable {q f : ℕ} {m : Machine} {r r' : UserRole}

/-- The role in the space `d`. -/
def UserRole.role (d : ℕ) : UserRole → Role
  | .dir => .dir d
  | .table i => .table d i
  | .page i j => .page d i j

lemma Kernel.Uses.plays (h : s.Uses p r f) (hp : p ∈ P) :
    s.mach.Plays (s.owners P K) f (r.role (s.proc p).cr3) := by
  have hd : (s.proc p).cr3 ∈ s.owners P K := mem_owners hp
  cases r with
  | dir =>
    obtain rfl : f = (s.proc p).cr3 := h
    exact .dir hd
  | table i =>
    obtain ⟨hi, hpres, rfl⟩ := h
    have hplays := Plays.table (m := s.mach) hd (hi.trans (by norm_num)) hpres
    rwa [tableRole, if_pos hi] at hplays
  | page i j =>
    obtain ⟨hi, hj, hpres, hpres', rfl⟩ := h
    have hplays := Plays.page (m := s.mach) hd (hi.trans (by norm_num)) (Or.inl hi) hj hpres hpres'
    rwa [pageRole, if_pos hi] at hplays

/-- What a process uses in its user half it goes on to use while nobody touches that half. -/
lemma Kernel.Uses.sameUser (h : s.Uses p r f) (hcr3 : (s'.proc p).cr3 = (s.proc p).cr3)
    (huser : SameUser (s.proc p).cr3 s.mach s'.mach) : s'.Uses p r f := by
  unfold Kernel.Uses at h ⊢
  rw [hcr3]
  cases r with
  | dir => exact h
  | table i =>
    obtain ⟨hi, hpres, rfl⟩ := h
    have hpde := huser.pde i hi hpres
    dsimp only
    rw [hpde]
    exact ⟨hi, hpres, rfl⟩
  | page i j =>
    obtain ⟨hi, hj, hpres, hpres', rfl⟩ := h
    have hpde := huser.pde i hi hpres
    dsimp only
    rw [hpde, huser.pte i hi hpres j hj]
    exact ⟨hi, hj, hpres, hpres', rfl⟩

lemma SameUser.untouched (h : SameUser (s.proc q).cr3 s.mach m) : s.Untouched q m where
  walk _ hv := h.walk_eq hv
  bytes _ hv _ ha := h.phys_eq hv ha

namespace Memory

end Memory

lemma BootMemory.init {m : Machine} (h : BootMemory K m) :
    InitMemory K (schedInit 100 (bootKernel m)) :=
  ⟨bootKernel m, boot_bootKernel m, h, rfl⟩

end

end Gummy
