import Gummy.Kernel.Isolation
import Gummy.Vmm.Mapped

/-!
When processes and threads can be created.

With room in the heap and enough free frames, `sched_create_process`, `sched_create_thread` and
`sys_nprocess_impl` succeed.  What they leave is written down here as one state each, in which
only the machine is not explicit: the frames that are handed out depend on the allocator.
-/

namespace Gummy

open CWord Machine

open Transition (Reachable)

variable {K : Set ℕ} {s s' : Kernel} {P : List ℕ} {L : QueueRef → List ThreadRef}
  {D : List (ℕ × ℕ)} {p k n : ℕ}

/-! ### Blocks -/

/-- The block at `addr` has been handed out. -/
def heapHold (addr size : ℕ) (s : Kernel) : Kernel :=
  { s with heap := { s.heap with blocks := (addr, size) :: s.heap.blocks } }

/-- The heap has room for `size` bytes where `c` says, without more pages. -/
def KernelHeap.Answers (h : KernelHeap) (size : ℕ) (c : HeapChoice) : Prop :=
  c.pages = 0 ∧ h.Fits c.addr size

lemma heapGet_answers {size : ℕ} {c : HeapChoice} (h : s.heap.Answers size c) :
    heapGet size c s = (some c.addr, heapHold c.addr size s) := by
  have hgrow : heapGrow c.pages s = s := if_pos (Or.inl h.1)
  unfold heapGet
  rw [hgrow]
  exact if_pos h.2

/-! ### States -/

/-- What `sched_create_process` leaves: the process at `p` with the directory `d`. -/
def createdProcess (p d : ℕ) (m : Machine) (s : Kernel) : Kernel :=
  linkProcess p (fillProcess p
    ({ clearProcess p (heapHold p sizeofProcess s) with mach := m }.setProc p ({ · with cr3 := d })))

/-- What `sched_create_thread` leaves: the thread `t`, with its kernel stack at `stack0`. -/
def createdThread (loc : ℕ) (t : ThreadRef) (stack0 : ℕ) (m : Machine) (s : Kernel) : Kernel :=
  let s := { heapHold stack0 kernelStackSize (clearThread t s) with mach := m }
  (s.setThread t (fillThread t.process loc stack0 (userStackEnd t.slot))).setProc t.process
    fun p => { p with numThreads := (p.numThreads + 1) % 2 ^ 8 }

/-- What `sys_nprocess_impl` leaves. -/
def spawned (p data stack0 n d : ℕ) (m : Machine) (s : Kernel) : Kernel :=
  let t : ThreadRef := { idleThread with process := p }
  schedReady t (heapPut data
    (createdThread imageBase t stack0 m (createdProcess p d m (heapHold data n s))))

/-! ### Pages -/

/-- The flags of the pages of user programs. -/
abbrev userFlags : ℕ := vmmFlagsPresent ||| vmmFlagsRw ||| vmmFlagsUser

/-- No page between `start` and `stop` is mapped in the space of `p`. -/
def Kernel.Unmapped (s : Kernel) (p start stop : ℕ) : Prop :=
  ∀ v, start ≤ v → v < stop → (s.spaceOf p s.mach).pageEntry v = none

namespace Memory

/-- Pages of the lower half can be mapped, if there are two free frames for each. -/
lemma region_ok (h : Memory K s P) (hp : p ∈ P) {start : ℕ} (hn : n ≠ 0)
    (hdvd : pageSize ∣ start) (hge : 0x400000 ≤ start) (hend : start + n * pageSize ≤ 0xC0000000)
    (hfree : s.Unmapped p start (start + n * pageSize)) (hroom : s.mach.Room (k + 2 * n)) :
    ∃ m, vmmAllocPagesRegionIn (s.proc p).cr3 n userFlags start (start + n * pageSize) s.mach =
        (some start, m) ∧ m.Room k ∧ m.cr3 = s.mach.cr3 ∧
      Mapped (s.spaceOf p s.mach) (s.spaceOf p m) userFlags start n := by
  have hspace := h.spaces.space (mem_owners hp)
  have hslot : ∀ k < n, 0x400000 ≤ start + k * pageSize ∧ start + k * pageSize < 0xC0000000 := by
    intro k hk
    have hmul := Nat.mul_le_mul_right pageSize (Nat.succ_le_of_lt hk)
    rw [Nat.succ_mul] at hmul
    simp only [pageSize] at *
    omega
  have hS : SlotsIn userSlots start n := by
    refine ⟨hend.trans (by norm_num), fun k hk => ?_⟩
    exact (getPdeIndex_user (hslot k hk).1 (hslot k hk).2).1
  have hfit : ∀ k < n, FlagsFit (start + k * pageSize) userFlags := by
    intro k hk hupper
    exact absurd (getPdeIndex_user (hslot k hk).1 (hslot k hk).2).2 (not_lt.2 hupper)
  obtain ⟨hok, hmore⟩ := hspace.region_spec (by decide) hn hdvd hS hfit
  obtain ⟨m, heq, hleft⟩ := hmore k hfree hroom
  have hm : s.spaceOf p (m.space s.mach.cr3) = m := by
    have hcr3 := vmmAllocPagesRegion_cr3 (s.mach.space (s.proc p).cr3) n userFlags start
      (start + n * pageSize)
    rw [heq] at hcr3
    exact (congrArg m.space hcr3.symm).trans space_cr3
  refine ⟨m.space s.mach.cr3, ?_, hleft, rfl, ?_⟩
  · rw [vmmAllocPagesRegionIn_eq, heq]
  · rw [hm]
    exact (hok _ _ heq).2

lemma allocUserStack_of_some {stack sp : ℕ} {m : Machine} (hi : p ≠ idleProcess)
    (h : vmmAllocPagesRegionIn (s.proc p).cr3 userStackPages userFlags stack sp s.mach =
      (some stack, m)) : allocUserStack p stack sp s = (true, { s with mach := m }) := by
  unfold allocUserStack
  rw [if_neg hi, h]
  rfl

/-- A new thread gets its stacks. -/
lemma schedCreateThread_ok (h : Memory K s P) (hp : p ∈ P) (hi : p ≠ idleProcess) {loc : ℕ}
    (hloc : loc ≠ 0) (hnum : (s.proc p).numThreads < threadPerProcess)
    {slot : Fin threadPerProcess} (hslot : freeSlot p s = some slot) {c : HeapChoice}
    (hc : s.heap.Answers kernelStackSize c)
    (hfree : s.Unmapped p (userStackEnd slot - userStackSize) (userStackEnd slot))
    (hroom : s.mach.Room (k + 2 * userStackPages)) :
    ∃ m, Gummy.schedCreateThread loc p c s = (some ⟨p, slot⟩, createdThread loc ⟨p, slot⟩ c.addr m s) ∧
      m.Room k ∧ m.cr3 = s.mach.cr3 ∧ Mapped (s.spaceOf p s.mach) (s.spaceOf p m) userFlags
        (userStackEnd slot - userStackSize) userStackPages := by
  obtain ⟨hsize, hge, hle, hdvd⟩ := userStack_slot slot
  obtain ⟨m, halloc, hleft, hcr3, hmapped⟩ := h.region_ok hp (show userStackPages ≠ 0 by decide)
    hdvd (by omega) (by omega) (by rwa [hsize]) hroom
  rw [hsize] at halloc
  refine ⟨m, ?_, hleft, hcr3, hmapped⟩
  have hget : Gummy.heapGet kernelStackSize c (clearThread ⟨p, slot⟩ s) =
      (some c.addr, heapHold c.addr kernelStackSize (clearThread ⟨p, slot⟩ s)) :=
    heapGet_answers hc
  have hstack : allocUserStack p (userStackEnd slot - userStackSize) (userStackEnd slot)
      (heapHold c.addr kernelStackSize (clearThread ⟨p, slot⟩ s)) =
        (true, { heapHold c.addr kernelStackSize (clearThread ⟨p, slot⟩ s) with mach := m }) :=
    allocUserStack_of_some hi halloc
  unfold Gummy.schedCreateThread createdThread
  dsimp only
  rw [if_neg hloc, if_neg (not_le.2 hnum), hslot]
  dsimp only
  rw [hget]
  dsimp only
  rw [hstack]

/-- A new process gets its directory. -/
lemma schedCreateProcess_ok (h : Memory K s P) (hinv : Inv s P L D) {c : HeapChoice}
    (hc : s.heap.Answers sizeofProcess c) (hroom : s.mach.Room (k + 2)) :
    ∃ d m, Gummy.schedCreateProcess c s = (some c.addr, createdProcess c.addr d m s) ∧
      m.Room (k + 1) ∧ Cloned (s.owners P K) s.mach m d ∧
        Memory K (createdProcess c.addr d m s) (c.addr :: P) := by
  have hget := heapGet_answers hc
  obtain ⟨hmem, -⟩ := h.heapGet sizeofProcess c
  obtain ⟨s₁, heq, -⟩ | ⟨s₁, heq, hinv₁⟩ := hinv.heapGet sizeofProcess c
  · cases hget.symm.trans heq
  obtain ⟨-, rfl⟩ := Prod.mk.inj (hget.symm.trans heq)
  rw [hget] at hmem
  obtain ⟨s', heq', -, -, hno⟩ | ⟨s', heq', hspawned⟩ := hmem.setUpProcess hinv₁
  · exact absurd (hroom.mono (by omega) fun _ hf => hf) hno
  rcases hclone : vmmClone s.mach with ⟨d, m⟩
  have hset : Gummy.setUpProcess c.addr (heapHold c.addr sizeofProcess s) =
      if d = 0 then (none, Gummy.heapPut c.addr
        ({ clearProcess c.addr (heapHold c.addr sizeofProcess s) with mach := m }.setProc c.addr
          ({ · with cr3 := d })))
      else (some c.addr, createdProcess c.addr d m s) := by
    unfold Gummy.setUpProcess
    dsimp only
    rw [show (clearProcess c.addr (heapHold c.addr sizeofProcess s)).mach = s.mach from rfl, hclone]
    rfl
  rw [hset] at heq'
  split_ifs at heq' with h0
  · cases heq'
  · obtain ⟨-, rfl⟩ := Prod.mk.inj heq'
    have hmach : (createdProcess c.addr d m s).mach = m := (linkProcess_rest _ _).1
    have hcr3 : ((createdProcess c.addr d m s).proc c.addr).cr3 = d := by
      rw [createdProcess, linkProcess_cr3, fillProcess_cr3, Kernel.setProc_self]
    have hcloned := hspawned.cloned
    rw [hmach, hcr3] at hcloned
    refine ⟨d, m, ?_, ?_, hcloned, hspawned.memory⟩
    · unfold Gummy.schedCreateProcess
      rw [hget]
      dsimp only
      rw [hset, if_neg h0]
    · exact (show s.mach.Room (k + 1 + 1) from hroom).take hcloned.free

end Memory

/-! ### `sys_nprocess_impl` -/

lemma setProcAt_withMach (s : Kernel) (m : Machine) (o : Option ℕ) (f : Process → Process) :
    { s with mach := m }.setProcAt o f = { s.setProcAt o f with mach := m } := by
  cases o <;> rfl

lemma createdProcess_withMach (p d : ℕ) (m m' : Machine) (s : Kernel) :
    { createdProcess p d m s with mach := m' } = createdProcess p d m' s := by
  have hlink : ∀ s : Kernel, linkProcess p { s with mach := m' } =
      { linkProcess p s with mach := m' } := by
    intro s
    have hset := setProcAt_withMach (s.setProc p ({ · with next := s.firstProcess })) m'
      s.firstProcess ({ · with prev := some p })
    exact congrArg (fun s : Kernel => { s with firstProcess := some p }) hset
  exact (hlink _).symm

lemma spawned_withMach (p data stack0 n d : ℕ) (m m₁ m₂ : Machine) (s : Kernel) :
    schedReady ⟨p, 0⟩ (heapPut data { createdThread imageBase ⟨p, 0⟩ stack0 m₁
      (createdProcess p d m₂ (heapHold data n s)) with mach := m }) =
    spawned p data stack0 n d m s := by
  rw [spawned, ← createdProcess_withMach p d m₂ m]
  rfl

lemma createdProcess_rest (p d : ℕ) (m : Machine) (s : Kernel) :
    (createdProcess p d m s).mach = m ∧
      (createdProcess p d m s).heap = (heapHold p sizeofProcess s).heap ∧
      ((createdProcess p d m s).proc p).cr3 = d ∧
      ∀ i, ((createdProcess p d m s).thread ⟨p, i⟩).process = none := by
  obtain ⟨hmach, hthread, hheap⟩ := Memory.linkProcess_rest p (fillProcess p
    ({ clearProcess p (heapHold p sizeofProcess s) with mach := m }.setProc p ({ · with cr3 := d })))
  refine ⟨hmach, hheap, ?_, fun i => ?_⟩
  · rw [createdProcess, Memory.linkProcess_cr3, Memory.fillProcess_cr3, Kernel.setProc_self]
  · rw [createdProcess, hthread]
    exact congrArg Thread.process (if_pos rfl)

/-- Entries that are the same map the same pages. -/
lemma SameTables.pageEntry {m m' : Machine} {D : Owners} {d v : ℕ} (h : SameTables D m m')
    (hd : d ∈ D) (hv : v < 0xFFC00000) : (m'.space d).pageEntry v = (m.space d).pageEntry v := by
  have hi := getPdeIndex_lt_window hv
  have hpde : (m'.space d).pde (getPdeIndex v) = (m.space d).pde (getPdeIndex v) :=
    h.pde d hd _ (hi.trans (by norm_num))
  by_cases hp : isPresent ((m.space d).pde (getPdeIndex v)) = true
  · have hpte : (m'.space d).pte (getPdeIndex v) (getPteIndex v) =
        (m.space d).pte (getPdeIndex v) (getPteIndex v) := by
      rw [Machine.pte, Machine.table, hpde]
      exact h.pte d hd _ hi hp _ (getPteIndex_lt v)
    rw [Machine.pageEntry, entryOf, hpde, hpte]
    rfl
  · rw [Machine.pageEntry, Machine.pageEntry, entryOf_of_absent hp,
      entryOf_of_absent (by rwa [hpde])]

/-- A process without threads gives its first slot away. -/
lemma freeSlot_zero (h : ∀ i, (s.thread ⟨p, i⟩).process = none) : freeSlot p s = some 0 := by
  unfold freeSlot
  rw [List.finRange_succ, List.find?_cons_of_pos]
  rw [h 0]
  rfl

/-- `sys_nprocess_impl`, with room for everything it asks for. -/
theorem Memory.sysNprocess_ok (h : Memory K s P) (hinv : Inv s P L D) {entry : ℕ}
    {image : List UInt8} {cData cProc cStack : HeapChoice} (g : Garbage) (hentry : entry ≠ 0)
    (himage : image ≠ []) (hData : s.heap.Answers image.length cData)
    (hProc : (heapHold cData.addr image.length s).heap.Answers sizeofProcess cProc)
    (hStack : (heapHold cProc.addr sizeofProcess
      (heapHold cData.addr image.length s)).heap.Answers kernelStackSize cStack)
    (hroom : s.mach.Room (k + 2 * userStackPages +
      2 * (alignUp 32 image.length pageSize / pageSize) + 1)) :
    ∃ d m s', sysNprocess entry image cData cProc cStack g s = ((s'.proc cProc.addr).pid, s') ∧
      s' = spawned cProc.addr cData.addr cStack.addr image.length d m s ∧ m.Room k ∧
      m.cr3 = s.mach.cr3 ∧ ∀ v, 0xBFC00000 ≤ v → v < userStackEnd 0 - userStackSize →
        (m.space d).pageEntry v = none := by
  have hgetData := heapGet_answers hData
  obtain ⟨hmem₁, -⟩ := h.heapGet image.length cData
  obtain ⟨s₁, heq, -⟩ | ⟨s₁, heq, hinv₁⟩ := hinv.heapGet image.length cData
  · cases hgetData.symm.trans heq
  obtain ⟨-, rfl⟩ := Prod.mk.inj (hgetData.symm.trans heq)
  rw [hgetData] at hmem₁
  dsimp only at hmem₁
  have hsize := held_size hinv₁
  obtain ⟨hlen, hpages⟩ := imagePages hsize
  have hpages0 : alignUp 32 image.length pageSize / pageSize ≠ 0 := by
    intro h0
    rw [h0, Nat.zero_mul, Nat.le_zero] at hlen
    exact himage (List.length_eq_zero_iff.1 hlen)
  unfold sysNprocess
  rw [if_neg (not_or.2 ⟨hentry, mt List.length_eq_zero_iff.1 himage⟩), hgetData]
  dsimp only
  generalize alignUp 32 image.length pageSize / pageSize = pages at hroom hlen hpages hpages0 ⊢
  have hend : imageBase + pages * pageSize ≤ 0xBF000000 := by
    simp only [imageBase, pageSize] at *
    omega
  have hstop : u32 (imageBase + pages * pageSize) = imageBase + pages * pageSize :=
    u32_of_lt (by omega)
  -- the process
  have hroom₁ : (heapHold cData.addr image.length s).mach.Room
      (k + 2 * userStackPages + 2 * pages - 1 + 2) := hroom.mono (by omega) fun _ hf => hf
  obtain ⟨d, m₂, hcreate, hroom₂, hcloned, hmem₂⟩ := hmem₁.schedCreateProcess_ok hinv₁ hProc hroom₁
  rw [hcreate]
  dsimp only
  have hcr3₂ : m₂.cr3 = s.mach.cr3 := hcloned.elsewhere.cr3
  obtain ⟨hmach, hheap, hd, hfree⟩ := createdProcess_rest cProc.addr d m₂
    (heapHold cData.addr image.length s)
  obtain ⟨s₂, hs₂⟩ : ∃ s₂, s₂ = createdProcess cProc.addr d m₂ (heapHold cData.addr image.length s) :=
    ⟨_, rfl⟩
  rw [← hs₂] at hmem₂ hmach hheap hd hfree ⊢
  have hpP : cProc.addr ∈ cProc.addr :: P := List.mem_cons_self
  have hempty : ∀ v < 0xC0000000, (s₂.spaceOf cProc.addr s₂.mach).pageEntry v = none := by
    intro v hv
    have hlow : (s₂.spaceOf cProc.addr s₂.mach).pde (getPdeIndex v) = 0 := by
      rw [Kernel.spaceOf, hd, hmach]
      exact hcloned.directory.low _ (by rw [getPdeIndex_eq]; omega)
    rw [pageEntry, entryOf_of_absent]
    rw [hlow, isPresent_zero]
    exact Bool.false_ne_true
  -- the image
  obtain ⟨m₃, halloc, hroom₃, hcr3₃, hmapped₃⟩ := hmem₂.region_ok (k := k + 2 * userStackPages) hpP
    hpages0 (by decide) le_rfl (hend.trans (by norm_num))
    (fun v _ hv => hempty v (hv.trans_le (hend.trans (by norm_num))))
    (by rw [hmach]; exact hroom₂.mono (by omega) fun _ hf => hf)
  have hbound : imageBase + pages * pageSize ≤ 0xC0000000 := hend.trans (by norm_num)
  have hmem₃ := (hmem₂.allocIn hpP pages imageBase le_rfl (by norm_num) hbound).1
  rw [halloc] at hmem₃
  rw [hstop, halloc]
  dsimp only at hmem₃ ⊢
  rw [if_neg (by simp)]
  -- the thread
  obtain ⟨hsize₀, hge, hle, -⟩ := userStack_slot 0
  have hempty₃ : ∀ v, 0xBFC00000 ≤ v → v < 0xC0000000 →
      (s₂.spaceOf cProc.addr m₃).pageEntry v = none := by
    intro v hv hv'
    rw [hmapped₃.rest v (by omega) (Or.inr (by omega)), hempty v hv']
  have hi : cProc.addr ≠ idleProcess := by
    have hbase := hProc.2.2.1
    simp only [heapBase, idleProcess] at hbase ⊢
    omega
  have hnum : (s₂.proc cProc.addr).numThreads = 0 := by
    obtain ⟨res, s', heq, ⟨rfl, -⟩ | ⟨q, rfl, -, hnew⟩⟩ := hinv₁.schedCreateProcess cProc
    · cases hcreate.symm.trans heq
    · obtain ⟨hq, rfl⟩ := Prod.mk.inj (hcreate.symm.trans heq)
      obtain rfl := Option.some.inj hq
      rw [hs₂]
      exact hnew.numThreads
  obtain ⟨m₄, hthread, hroom₄, hcr3₄, hmapped₄⟩ := hmem₃.schedCreateThread_ok hpP hi
    (show imageBase ≠ 0 by decide) (by rw [hnum]; decide) (freeSlot_zero hfree)
    (by rw [hheap]; exact hStack)
    (fun v hv hv' => hempty₃ v (hge.trans hv) (hv'.trans_le hle)) hroom₃
  rw [hthread]
  dsimp only
  -- the copy
  have hmem₄ := (hmem₃.schedCreateThread hpP imageBase cStack).1
  rw [hthread] at hmem₄
  dsimp only at hmem₄
  obtain ⟨s₄, hs₄⟩ : ∃ s₄, s₄ = createdThread imageBase ⟨cProc.addr, 0⟩ cStack.addr m₄
    { s₂ with mach := m₃ } := ⟨_, rfl⟩
  have hmach₄ : s₄.mach = m₄ := by rw [hs₄]; rfl
  have hd₄ : (s₄.proc cProc.addr).cr3 = d := by
    rw [hs₄, createdThread, Kernel.setProc_self]
    exact hd
  rw [← hs₄] at hmem₄ ⊢
  have howner : d ∈ s₄.owners (cProc.addr :: P) K := hd₄ ▸ mem_owners hpP
  have hstores := stores_copyImage (hmem₄.spaces.space howner) imageBase image le_rfl
    ((Nat.add_le_add_left hlen imageBase).trans (hend.trans (by norm_num)))
  rw [inSpace_eq (f := fun m => ((), copyImage imageBase image m)) (copyImage_cr3 imageBase image),
    hd₄]
  dsimp only
  refine ⟨d, (copyImage imageBase image (s₄.mach.space d)).space s₄.mach.cr3, _, rfl, ?_, ?_, ?_,
    fun v hv hv' => ?_⟩
  · rw [← spawned_withMach _ _ _ _ _ _ m₄ m₃, hs₄, hs₂, createdProcess_withMach]
  · rw [← hmach₄] at hroom₄
    exact hroom₄.mono le_rfl fun f hf => (congrArg (·.Free f) hstores.pmm).mpr hf
  · rw [hmach₄]
    exact hcr3₄.trans (hcr3₃.trans (hmach ▸ hcr3₂))
  · have hv'' : v < 0xC0000000 := by omega
    have hkeep := hstores.tables.pageEntry howner (hv''.trans (by norm_num))
    have hrest := hmapped₄.rest v (hv''.trans (by norm_num)) (Or.inl hv')
    rw [Kernel.spaceOf, Kernel.spaceOf, hd] at hrest
    have hnone := hempty₃ v hv hv''
    rw [Kernel.spaceOf, hd] at hnone
    rw [hmach₄] at hkeep ⊢
    exact hkeep.trans (hrest.trans hnone)

lemma step_of_running (h : s.halted = false) (e : Event) : step s e = (handle e s).finish := by
  rw [step, h, if_neg Bool.false_ne_true]

/-- `sys_nthread_impl`, with room for the stacks. -/
theorem Memory.nthread_ok (h : Memory K s P) (hinv : Inv s P L D) (hrun : s.halted = false)
    {slot : Fin threadPerProcess} (hcur : s.currentThread.process = p) (hi : p ≠ idleProcess)
    {entry : ℕ} (hentry : u32 entry ≠ 0) (hnum : (s.proc p).numThreads < threadPerProcess)
    (hslot : freeSlot p s = some slot) {c : HeapChoice} (hc : s.heap.Answers kernelStackSize c)
    (hfree : s.Unmapped p (userStackEnd slot - userStackSize) (userStackEnd slot))
    (hroom : s.mach.Room (k + 2 * userStackPages)) :
    ∃ s', Gummy.step s (.nthread entry c) = s' ∧ s'.mach.Room k ∧ s' = (schedReady ⟨p, slot⟩
      (createdThread (u32 entry) ⟨p, slot⟩ c.addr s'.mach s)).setEax s.currentThread 0 := by
  subst hcur
  obtain ⟨m, hcreate, hleft, -⟩ := h.schedCreateThread_ok hinv.current_mem hi hentry hnum hslot hc
    hfree hroom
  have hcall : sysNthread (u32 entry) c s = (0, schedReady ⟨s.currentThread.process, slot⟩
      (createdThread (u32 entry) ⟨s.currentThread.process, slot⟩ c.addr m s)) := by
    unfold sysNthread
    rw [schedGetCurrentProcess, hinv.current_owner]
    dsimp only
    rw [hcreate]
  rw [step_of_running hrun, handle, hcall, returning, Outcome.finish]
  exact ⟨_, rfl, hleft, rfl⟩

/-! ### The first process -/

/-- The allocator of 4 MiB of memory. -/
def largePmm : Pmm := pmmInit (fun _ => 0) [⟨0, 0x400000, 1, 0⟩] 0xC0011000

lemma largePmm_free_iff (f : ℕ) : largePmm.Free f ↔ 0x12 ≤ f ∧ f < 0x400 := by
  have hend : kernelEndPage [⟨0, 0x400000, 1, 0⟩] 0xC0011000 = 0x12 := by decide
  have hlow : E820Entry.Low ⟨0, 0x400000, 1, 0⟩ := by decide
  have hstop : E820Entry.stop ⟨0, 0x400000, 1, 0⟩ = 0x400000 := by decide
  rw [largePmm, pmmInit_free_iff _ _ (by norm_num) (by norm_num)]
  simp only [List.mem_singleton, exists_eq_left, hend, hlow, hstop, pageSize, true_and]
  omega

/-- The tables say nothing about the allocator. -/
lemma BootTables.withPmm {m : Machine} (h : BootTables m) {pmm : Pmm} (hvalid : pmm.Valid)
    (hlow : ∀ f < 16, ¬ pmm.Free f) : BootTables { m with pmm } :=
  { h with valid := hvalid, low_used := hlow }

/-- A machine with 4 MiB, as the boot loader leaves it. -/
def largeBoot : Machine := { bootMachine with pmm := largePmm }

lemma bootTables_largeBoot : BootTables largeBoot := by
  refine bootTables_bootMachine.withPmm ?_ fun f hf => ?_
  · unfold largePmm
    exact pmmInit_valid _ _ _
  · rw [largePmm_free_iff]
    omega

lemma bootMemory_largeBoot :
    BootMemory (kernelFrames largePmm 0xC0011000) (heapInitPages largeBoot) := by
  have hend : kernelStartVirt ≤ 0xC0011000 := by decide
  exact ⟨largeBoot, fun _ => 0, [⟨0, 0x400000, 1, 0⟩], 0xC0011000, bootTables_largeBoot,
    by decide, hend, by norm_num, rfl, rfl, rfl⟩

/-- The pages of the heap leave enough frames. -/
lemma heapInitPages_room : (heapInitPages largeBoot).Room 900 := by
  have hspaces : Spaces largeBoot ⟨{largeBoot.cr3}, ∅⟩ :=
    bootTables_largeBoot.spaces (by decide) (by simp) (by simp) (by simp)
  have hslot : ∀ k < 24, getPdeIndex (heapBase + k * pageSize) = 896 := by
    intro k hk
    rw [getPdeIndex_eq]
    simp only [heapBase, pageSize]
    omega
  have hroom : largeBoot.Room (900 + 2 * 24) := by
    refine ⟨Finset.Ico 0x12 0x400, by simp, fun f hf => (largePmm_free_iff f).2 ?_⟩
    exact Finset.mem_Ico.1 hf
  obtain ⟨-, hmore⟩ := @Spaces.region_spec largeBoot _ {896} (vmmFlagsRw ||| vmmFlagsPresent) 24
    heapBase hspaces (by decide) (by norm_num) (by decide) ⟨by decide, hslot⟩ fun k hk _ => by decide
  have hempty : ∀ v, heapBase ≤ v → v < heapBase + 24 * pageSize →
      largeBoot.pageEntry v = none := by
    intro v hv hv'
    have hindex : getPdeIndex v = 896 := by
      rw [getPdeIndex_eq]
      simp only [heapBase, pageSize] at hv hv'
      omega
    rw [pageEntry, hindex, entryOf_of_absent]
    rw [bootTables_largeBoot.others 896 (by norm_num) (by norm_num), isPresent_zero]
    exact Bool.false_ne_true
  obtain ⟨m, heq, hleft⟩ := hmore 900 hempty hroom
  rw [heapInitPages, heq]
  exact hleft

/-- `kmain`, with 24 pages of heap and 4 MiB of memory. -/
def kmainKernel : Kernel := schedInit 100 (bootKernel (heapInitPages largeBoot))

lemma initMemory_kmainKernel :
    InitMemory (kernelFrames largePmm 0xC0011000) kmainKernel := bootMemory_largeBoot.init

/-- What is left in the memory of a process does not matter here. -/
def noGarbage : Garbage :=
  ⟨Process.zero, fun _ => Thread.zero, fun _ => none, fun _ => none, fun _ => none, none, none, 0⟩

/-- `kmain` starts a program of two bytes, which jumps to itself. -/
def startProgram : Event :=
  .nprocess 0xC0050000 [0xEB, 0xFE] ⟨0, heapBase + 0x2000⟩ ⟨0, heapBase⟩ ⟨0, heapBase + 0x1000⟩
    noGarbage

/-- The program has been started. -/
def programKernel : Kernel := step kmainKernel startProgram

/-- Its process has been put at the start of the heap. -/
lemma programKernel_eq : programKernel =
    (spawned heapBase (heapBase + 0x2000) (heapBase + 0x1000) 2 (programKernel.proc heapBase).cr3
      programKernel.mach kmainKernel).setEax idleThread 1 ∧
    programKernel.mach.Room 800 ∧ ∀ v, 0xBFC00000 ≤ v → v < userStackEnd 0 - userStackSize →
      (programKernel.spaceOf heapBase programKernel.mach).pageEntry v = none := by
  obtain ⟨v, habs, hmem⟩ := initMemory_kmainKernel.memory
  obtain ⟨d, m, s', heq, hs', hroom, -, hfree⟩ := @Memory.sysNprocess_ok _ _ _ _ _ 800 hmem habs.inv
    (u32 0xC0050000) [0xEB, 0xFE] ⟨0, heapBase + 0x2000⟩ ⟨0, heapBase⟩ ⟨0, heapBase + 0x1000⟩
    noGarbage (by decide) (by simp) ⟨rfl, by decide⟩ ⟨rfl, by decide⟩ ⟨rfl, by decide⟩
    (heapInitPages_room.mono (by decide) fun _ hf => hf)
  have hpid : (s'.proc heapBase).pid = 1 := by
    rw [hs']
    rfl
  have hcur : s'.currentThread = idleThread := by
    rw [hs']
    rfl
  have hstep : programKernel =
      (returning (sysNprocess (u32 0xC0050000) [0xEB, 0xFE] ⟨0, heapBase + 0x2000⟩ ⟨0, heapBase⟩
        ⟨0, heapBase + 0x1000⟩ noGarbage kmainKernel)).finish := rfl
  rw [heq, returning, Outcome.finish, hpid, hcur, hs'] at hstep
  have hd : (programKernel.proc heapBase).cr3 = d := by
    rw [hstep]
    rfl
  have hm : programKernel.mach = m := by
    rw [hstep]
    rfl
  rw [Kernel.spaceOf, hd, hm]
  exact ⟨hstep, hroom, hfree⟩

lemma programKernel_reachable {step' : Kernel → Event → Kernel → Prop}
    (h : step' kmainKernel startProgram programKernel) :
    Reachable (InitMemory (kernelFrames largePmm 0xC0011000)) step' programKernel :=
  .next startProgram (.start initMemory_kmainKernel) h

/-- The timer interrupts `kmain`, and the program runs. -/
lemma tick_spawned (d : ℕ) (m : Machine) :
    let s := step ((spawned heapBase (heapBase + 0x2000) (heapBase + 0x1000) 2 d m
      kmainKernel).setEax idleThread 1) .tick
    s.currentThread = ⟨heapBase, 0⟩ ∧ s.mach = m.space d ∧ (s.proc heapBase).cr3 = d := by
  refine ⟨?_, ?_, ?_⟩ <;> rfl

lemma programKernel_tick : (step programKernel .tick).currentThread = ⟨heapBase, 0⟩ ∧
    (step programKernel .tick).mach =
      programKernel.mach.space (programKernel.proc heapBase).cr3 ∧
    ((step programKernel .tick).proc heapBase).cr3 = (programKernel.proc heapBase).cr3 := by
  obtain ⟨hprogram, -⟩ := programKernel_eq
  have htick := tick_spawned (programKernel.proc heapBase).cr3 programKernel.mach
  rwa [← hprogram] at htick

/-- The program runs and starts a second thread. -/
def threadsKernel : Kernel :=
  step (step programKernel .tick) (.nthread 0x400000 ⟨0, heapBase + 0x2000⟩)

/-- A change of the active space changes neither the pages nor the free frames. -/
lemma Kernel.Unmapped.space {start stop c : ℕ} (h : s.Unmapped p start stop)
    (hmach : s'.mach = s.mach.space c) (hcr3 : (s'.proc p).cr3 = (s.proc p).cr3) :
    s'.Unmapped p start stop := by
  intro v hv hv'
  rw [Kernel.spaceOf, hmach, hcr3]
  exact h v hv hv'

lemma Machine.Room.space {m : Machine} (h : m.Room k) (c : ℕ) : (m.space c).Room k := h

/-- The stacks of the slots follow each other downwards. -/
lemma userStackEnd_le {slot : Fin threadPerProcess} (h : slot ≠ 0) :
    userStackEnd slot ≤ userStackEnd 0 - userStackSize := by
  have hpos : 0 < (slot : ℕ) := Nat.pos_of_ne_zero fun h0 => h (Fin.ext h0)
  simp only [userStackEnd, userStackTop, userStackSize, userStackPages, pageSize, Fin.val_zero]
  omega

lemma threadsKernel_eq : threadsKernel =
    (schedReady ⟨heapBase, 1⟩ (createdThread 0x400000 ⟨heapBase, 1⟩ (heapBase + 0x2000)
      threadsKernel.mach (step programKernel .tick))).setEax ⟨heapBase, 0⟩ 0 := by
  obtain ⟨hprogram, hroom, hfree⟩ := programKernel_eq
  obtain ⟨hcur, hmach, hcr3⟩ := programKernel_tick
  have hreach : Reachable (InitMemory (kernelFrames largePmm 0xC0011000))
      (Transition.restrict Step fun _ e => e.MapsForward) (step programKernel .tick) :=
    .next .tick (programKernel_reachable ⟨⟨trivial, rfl⟩, trivial⟩) ⟨⟨trivial, rfl⟩, trivial⟩
  obtain ⟨v, habs, hmem⟩ := InitMemory.reachable hreach
  have hslot : freeSlot heapBase (step programKernel .tick) = some 1 := by
    rw [hprogram]
    decide +kernel
  have hnum : ((step programKernel .tick).proc heapBase).numThreads < threadPerProcess := by
    rw [hprogram]
    decide +kernel
  have hanswers : (step programKernel .tick).heap.Answers kernelStackSize
      ⟨0, heapBase + 0x2000⟩ := by
    refine ⟨rfl, ?_⟩
    rw [hprogram]
    decide +kernel
  have hrun : (step programKernel .tick).halted = false := by
    rw [hprogram]
    decide +kernel
  have hunmapped : programKernel.Unmapped heapBase (userStackEnd 1 - userStackSize)
      (userStackEnd 1) := fun v hv hv' =>
    hfree v ((Memory.userStack_slot 1).2.1.trans hv) (hv'.trans_le (userStackEnd_le (by decide)))
  have hroom' : programKernel.mach.Room (0 + 2 * userStackPages) :=
    hroom.mono (by decide) fun _ hf => hf
  have hleft : (step programKernel .tick).mach.Room (0 + 2 * userStackPages) := by
    rw [hmach]
    exact hroom'.space _
  have hentry : u32 0x400000 ≠ 0 := by decide
  have hp : (step programKernel .tick).currentThread.process = heapBase := by rw [hcur]
  obtain ⟨s', hstep, -, heq⟩ := hmem.nthread_ok habs.inv hrun hp (by decide) hentry hnum hslot
    hanswers (hunmapped.space hmach hcr3) hleft
  rw [hcur] at heq
  rw [threadsKernel, hstep]
  exact heq

/-- Entries one after the other, each admissible and as `ok` asks for. -/
def Follows (ok : Kernel → Event → Prop) : List Event → Kernel → Prop
  | [], _ => True
  | e :: l, s => Admissible s e ∧ ok s e ∧ Follows ok l (step s e)

lemma Follows.reachable {ok : Kernel → Event → Prop} {l : List Event} (hl : Follows ok l s)
    (h : Reachable Init (Transition.restrict Step ok) s) :
    Reachable Init (Transition.restrict Step ok) (l.foldl step s) := by
  induction l generalizing s with
  | nil => exact h
  | cons e l ih =>
    obtain ⟨hadm, hok, hl⟩ := hl
    exact ih hl (.next e h ⟨⟨hadm, rfl⟩, hok⟩)

lemma threadsKernel_reachable {ok : Kernel → Event → Prop} (hstart : ok kmainKernel startProgram)
    (htick : ∀ s, ok s .tick) (hthread : ∀ s a sig, ok s (.nthread a sig)) :
    Reachable Init (Transition.restrict Step ok) threadsKernel := by
  have hinit : Init kmainKernel := ⟨_, boot_bootKernel _, rfl⟩
  have hprogram : Reachable Init (Transition.restrict Step ok) (step programKernel .tick) :=
    .next .tick (.next startProgram (.start hinit) ⟨⟨trivial, rfl⟩, hstart⟩)
      ⟨⟨trivial, rfl⟩, htick _⟩
  exact .next (.nthread 0x400000 ⟨0, heapBase + 0x2000⟩) hprogram ⟨⟨trivial, rfl⟩, hthread _ _ _⟩

end Gummy
