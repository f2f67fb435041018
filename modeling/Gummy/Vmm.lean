import Gummy.Pmm

/-!
The virtual memory manager of `vmm.c`.

The kernel edits page tables through virtual addresses only: entry 1023 of every
page directory names the directory itself, so that the directory appears at
`0xFFFFF000` and the page tables from `0xFFC00000` on.  The functions here go
through this window as the C code does, each access translated by the tables of
the active directory.  The processor is ideal: it keeps no translation of its own.
-/

namespace Gummy

open CWord

/-! ### The machine -/

/-- What the memory manager sees of the machine: physical memory, the frame
allocator, and the register that names the active page directory. -/
structure Machine where
  phys : ByteMem
  pmm : Pmm
  cr3 : ℕ

/-- The frame address in a directory or table entry. -/
def frameAddr (entry : ℕ) : ℕ := entry &&& 0xFFFFF000

/-- `entry & VMM_FLAGS_PRESENT` -/
def isPresent (entry : ℕ) : Bool := entry &&& vmmFlagsPresent ≠ 0

namespace Machine

/-- The two-level walk of the processor. -/
def translate (m : Machine) (virt : ℕ) : Option ℕ :=
  let pde := m.phys.read32 (m.cr3 + 4 * (virt / 2 ^ 22))
  if isPresent pde then
    let pte := m.phys.read32 (frameAddr pde + 4 * (virt / 2 ^ 12 % 2 ^ 10))
    if isPresent pte then some (frameAddr pte + virt % 2 ^ 12) else none
  else none

/-- Load a word.  The kernel only does this where a translation exists; elsewhere
the processor would fault. -/
def load (m : Machine) (virt : ℕ) : ℕ :=
  match m.translate virt with
  | some a => m.phys.read32 a
  | none => 0

/-- Store a word. -/
def store (m : Machine) (virt v : ℕ) : Machine :=
  match m.translate virt with
  | some a => { m with phys := m.phys.write32 a v }
  | none => m

/-- Store the words `f i` at `virt + 4 * i`, in the order of `is`. -/
def storeAll (m : Machine) (virt : ℕ) (is : List ℕ) (f : Machine → ℕ → ℕ) : Machine :=
  is.foldl (fun m i => m.store (virt + 4 * i) (f m i)) m

end Machine

/-- `memset(virt, 0, 4096)`, or the loop that does the same word by word. -/
def clearPage (m : Machine) (virt : ℕ) : Machine := m.storeAll virt (List.range 1024) fun _ _ => 0

/-! ### Entries -/

/-- `get_pde_index` -/
def getPdeIndex (virt : ℕ) : ℕ := virt >>> 22

/-- `get_pte_index` -/
def getPteIndex (virt : ℕ) : ℕ := (virt >>> 12) &&& 0x3FF

/-- `get_pde`: the address of the directory entry. -/
def getPde (virt : ℕ) : ℕ := 0xFFFFF000 + 4 * getPdeIndex virt

/-- `get_pt`: the address of the page table, `none` for `NULL`. -/
def getPt (m : Machine) (virt : ℕ) : Option ℕ :=
  if isPresent (m.load (getPde virt)) then some (0xFFC00000 + getPdeIndex virt * 0x1000) else none

/-- `get_pte`: the address of the table entry, `none` for `NULL`. -/
def getPte (m : Machine) (virt : ℕ) : Option ℕ :=
  (getPt m virt).map (· + 4 * getPteIndex virt)

/-- The page of `virt` is mapped: `pte && (*pte & VMM_FLAGS_PRESENT)`. -/
def pageMapped (m : Machine) (virt : ℕ) : Bool :=
  match getPte m virt with
  | none => false
  | some pte => isPresent (m.load pte)

/-- `get_physical_address` -/
def getPhysicalAddress (m : Machine) (virt : ℕ) : ℕ :=
  match getPte m virt with
  | none => 0
  | some pte => if isPresent (m.load pte) then frameAddr (m.load pte) ||| virt &&& 0xFFF else 0

/-! ### Mapping one page -/

/-- The first half of `vmm_map`: make sure there is a page table.  The flag says
whether that succeeded. -/
def ensurePt (m : Machine) (virt flags : ℕ) : Bool × Machine :=
  if isPresent (m.load (getPde virt)) then (true, m)
  else
    let (ptPhys, pmm) := pmmAllocPage m.pmm
    if ptPhys = 0 then (false, { m with pmm })
    else
      let m := { m with pmm }.store (getPde virt) (ptPhys ||| flags ||| vmmFlagsPresent)
      match getPt m virt with
      | some pt => (true, clearPage m pt)
      | none => (true, m)

/-- `vmm_map`: whether it succeeded. -/
def vmmMap (m : Machine) (virt phys flags : ℕ) : Bool × Machine :=
  match ensurePt m virt flags with
  | (false, m) => (false, m)
  | (true, m) =>
    let m := m.store (getPde virt) (m.load (getPde virt) ||| flags)
    match getPte m virt with
    | some pte => (true, m.store pte (phys ||| flags ||| vmmFlagsPresent))
    | none => (true, m)

/-- `vmm_unmap`: whether it succeeded. -/
def vmmUnmap (m : Machine) (virt : ℕ) : Bool × Machine :=
  match getPte m virt with
  | none => (false, m)
  | some pte =>
    if isPresent (m.load pte) then
      let m := m.store pte 0
      match getPt m virt with
      | none => (true, m)
      | some pt =>
        let present := (List.range 1024).countP fun i => isPresent (m.load (pt + 4 * i))
        if present = 0 ∧ virt < 0xC0000000 then
          let ptPhys := frameAddr (m.load (getPde virt))
          (true, { m with pmm := pmmFreePage m.pmm ptPhys }.store (getPde virt) 0)
        else (true, m)
    else (false, m)

/-- `vmm_unmap`, called for its effect only. -/
def unmapPage (m : Machine) (virt : ℕ) : Machine := (vmmUnmap m virt).2

/-! ### Regions -/

/-- The search loop of `vmm_alloc_pages_region`, for the `fuel` pages from `page` to
the end of the region: the start of the first run of `n` pages without mapping. -/
def findRun (m : Machine) (n : ℕ) : ℕ → ℕ → ℕ → ℕ → Option ℕ
  | 0, _, _, _ => none
  | fuel + 1, page, consecutivePages, firstPage =>
    let (consecutivePages, firstPage) :=
      if pageMapped m page then (0, firstPage)
      else (consecutivePages + 1, if consecutivePages = 0 then page else firstPage)
    if consecutivePages = n then some firstPage
    else findRun m n fuel (page + pageSize) consecutivePages firstPage

/-- The rollback loops: unmap `n` pages from `page` on. -/
def unmapPages (m : Machine) (page n : ℕ) : Machine :=
  (List.range n).foldl (fun m i => unmapPage m (page + i * pageSize)) m

/-- The mapping loop of `vmm_alloc_pages_region`, with `n` pages left to map from
`page` on.  The run was found inside the region, so no address wraps. -/
def mapRun (flags firstPage : ℕ) : ℕ → ℕ → Machine → Bool × Machine
  | 0, _, m => (true, m)
  | n + 1, page, m =>
    let rollback (m : Machine) := unmapPages m firstPage ((page - firstPage) / pageSize)
    let (phys, pmm) := pmmAllocPage m.pmm
    let m := { m with pmm }
    if phys = 0 then (false, rollback m)
    else
      match vmmMap m page phys flags with
      | (false, m) => (false, rollback { m with pmm := pmmFreePage m.pmm phys })
      | (true, m) => mapRun flags firstPage n (page + pageSize) m

/-- `vmm_alloc_pages_region`: the address of the first page, `none` for `NULL`. -/
def vmmAllocPagesRegion (n flags regionStart regionEnd : ℕ) (m : Machine) : Option ℕ × Machine :=
  if n = 0 then (none, m)
  else
    let regionStart := alignUp 32 regionStart pageSize
    let regionEnd := alignDown 32 regionEnd pageSize
    if regionEnd < u32 (regionStart + n * pageSize) then (none, m)
    else
      match findRun m n ((regionEnd - regionStart) / pageSize) regionStart 0 0 with
      | none => (none, m)
      | some firstPage =>
        match mapRun flags firstPage n firstPage m with
        | (true, m) => (some firstPage, m)
        | (false, m) => (none, m)

/-- `vmm_alloc_pages` -/
def vmmAllocPages (n flags : ℕ) (m : Machine) : Option ℕ × Machine :=
  vmmAllocPagesRegion n flags 0x00001000 0xFFC00000 m

/-- The loop of `vmm_free_pages`, with `n` pages left from `page` on. -/
def freePages : ℕ → ℕ → Machine → Bool × Machine
  | 0, _, m => (true, m)
  | n + 1, page, m =>
    match getPte m page with
    | none => (false, m)
    | some pte =>
      if isPresent (m.load pte) then
        let phys := frameAddr (m.load pte)
        let m := m.store pte 0
        freePages n (u32 (page + pageSize)) { m with pmm := pmmFreePage m.pmm phys }
      else (false, m)

/-- `vmm_free_pages`: whether it succeeded. -/
def vmmFreePages (n virt : ℕ) (m : Machine) : Bool × Machine :=
  if n = 0 then (false, m) else freePages n virt m

/-! ### Address spaces -/

/-- The loop of `vmm_clone` that copies the entries of the upper half. -/
def copyKernelHalf (m : Machine) (newPd : ℕ) : Machine :=
  m.storeAll newPd (List.range' 768 256) fun m i => m.load (0xFFFFF000 + 4 * i)

/-- `vmm_clone`: the physical address of the new directory, `0` for failure. -/
def vmmClone (m : Machine) : ℕ × Machine :=
  match vmmAllocPages 1 (vmmFlagsPresent ||| vmmFlagsRw) m with
  | (none, m) => (0, m)
  | (some newPd, m) =>
    let newCr3Phys := getPhysicalAddress m newPd
    let m := copyKernelHalf (clearPage m newPd) newPd
    let m := m.store (newPd + 4 * 1023) (newCr3Phys ||| vmmFlagsPresent ||| vmmFlagsRw)
    (newCr3Phys, unmapPage m newPd)

/-- What the `_in` variants have in common: run `f` with `cr3` active. -/
def inSpace {α : Type*} (cr3 : ℕ) (f : Machine → α × Machine) (m : Machine) : α × Machine :=
  let oldCr3 := m.cr3
  let (a, m) := f { m with cr3 }
  if oldCr3 ≠ cr3 then (a, { m with cr3 := oldCr3 }) else (a, m)

/-- `vmm_map_in` -/
def vmmMapIn (cr3 virt phys flags : ℕ) (m : Machine) : Bool × Machine :=
  inSpace cr3 (fun m => vmmMap m virt phys flags) m

/-- `vmm_unmap_in` -/
def vmmUnmapIn (cr3 virt : ℕ) (m : Machine) : Bool × Machine :=
  inSpace cr3 (fun m => vmmUnmap m virt) m

/-- `vmm_alloc_pages_region_in` -/
def vmmAllocPagesRegionIn (cr3 n flags regionStart regionEnd : ℕ) (m : Machine) :
    Option ℕ × Machine :=
  inSpace cr3 (vmmAllocPagesRegion n flags regionStart regionEnd) m

/-- `vmm_alloc_pages_in` -/
def vmmAllocPagesIn (cr3 n flags : ℕ) (m : Machine) : Option ℕ × Machine :=
  inSpace cr3 (vmmAllocPages n flags) m

/-- `vmm_free_pages_in` -/
def vmmFreePagesIn (cr3 n virt : ℕ) (m : Machine) : Bool × Machine :=
  inSpace cr3 (vmmFreePages n virt) m

/-- One turn of the inner loop of `vmm_destroy`. -/
def destroyEntry (pt : ℕ) (m : Machine) (j : ℕ) : Machine :=
  if isPresent (m.load (pt + 4 * j)) then
    { m with pmm := pmmFreePage m.pmm (frameAddr (m.load (pt + 4 * j))) }.store (pt + 4 * j) 0
  else m

/-- The inner loop of `vmm_destroy`. -/
def destroyEntries (m : Machine) (pt : ℕ) : Machine :=
  (List.range 1024).foldl (destroyEntry pt) m

/-- One turn of the outer loop of `vmm_destroy`. -/
def destroyTable (m : Machine) (i : ℕ) : Machine :=
  let base := i * 0x400000
  match getPt m base with
  | none => m
  | some pt =>
    let ptPhys := frameAddr (m.load (getPde base))
    let m := destroyEntries m pt
    { m with pmm := pmmFreePage m.pmm ptPhys }.store (getPde base) 0

/-- The outer loop of `vmm_destroy`. -/
def destroyTables (m : Machine) : Machine := (List.range 768).foldl destroyTable m

/-- `vmm_destroy` -/
def vmmDestroy (cr3 : ℕ) (m : Machine) : Machine :=
  if cr3 = 0 ∨ cr3 = m.cr3 then m
  else (inSpace cr3 (fun m => ((), destroyTables m)) m).2

/-! ### The active directory -/

section Cr3

variable (m : Machine)

@[simp] lemma store_cr3 (virt v : ℕ) : (m.store virt v).cr3 = m.cr3 := by
  unfold Machine.store
  split <;> rfl

lemma foldl_cr3 {β : Type*} {f : Machine → β → Machine} (hf : ∀ m b, (f m b).cr3 = m.cr3)
    (l : List β) : (l.foldl f m).cr3 = m.cr3 := by
  induction l generalizing m with
  | nil => rfl
  | cons b l ih => rw [List.foldl_cons, ih, hf]

@[simp] lemma storeAll_cr3 (virt : ℕ) (is : List ℕ) (f : Machine → ℕ → ℕ) :
    (m.storeAll virt is f).cr3 = m.cr3 :=
  foldl_cr3 m (fun m i => store_cr3 m (virt + 4 * i) (f m i)) is

@[simp] lemma clearPage_cr3 (virt : ℕ) : (clearPage m virt).cr3 = m.cr3 :=
  storeAll_cr3 m virt _ _

@[simp] lemma copyKernelHalf_cr3 (newPd : ℕ) : (copyKernelHalf m newPd).cr3 = m.cr3 :=
  storeAll_cr3 m newPd _ _

@[simp] lemma ensurePt_cr3 (virt flags : ℕ) : (ensurePt m virt flags).2.cr3 = m.cr3 := by
  unfold ensurePt
  split_ifs
  · rfl
  · dsimp only
    split_ifs
    · rfl
    · split <;> simp

@[simp] lemma vmmMap_cr3 (virt phys flags : ℕ) : (vmmMap m virt phys flags).2.cr3 = m.cr3 := by
  have hpt := ensurePt_cr3 m virt flags
  unfold vmmMap
  split <;> rename_i heq <;> rw [heq] at hpt
  · exact hpt
  · dsimp only
    split <;> simpa using hpt

@[simp] lemma vmmUnmap_cr3 (virt : ℕ) : (vmmUnmap m virt).2.cr3 = m.cr3 := by
  unfold vmmUnmap
  split
  · rfl
  · split_ifs
    · dsimp only
      split
      · simp
      · split_ifs <;> simp
    · rfl

@[simp] lemma unmapPage_cr3 (virt : ℕ) : (unmapPage m virt).cr3 = m.cr3 := vmmUnmap_cr3 m virt

@[simp] lemma unmapPages_cr3 (page n : ℕ) : (unmapPages m page n).cr3 = m.cr3 :=
  foldl_cr3 m (fun m i => unmapPage_cr3 m (page + i * pageSize)) (List.range n)

@[simp] lemma mapRun_cr3 (flags firstPage n page : ℕ) :
    (mapRun flags firstPage n page m).2.cr3 = m.cr3 := by
  induction n generalizing page m with
  | zero => rfl
  | succ n ih =>
    unfold mapRun
    dsimp only
    split_ifs
    · simp
    · have hmap := vmmMap_cr3 { m with pmm := (pmmAllocPage m.pmm).2 } page
        (pmmAllocPage m.pmm).1 flags
      split <;> rename_i heq <;> rw [heq] at hmap
      · simpa using hmap
      · rw [ih]
        exact hmap

@[simp] lemma vmmAllocPagesRegion_cr3 (n flags regionStart regionEnd : ℕ) :
    (vmmAllocPagesRegion n flags regionStart regionEnd m).2.cr3 = m.cr3 := by
  unfold vmmAllocPagesRegion
  split_ifs
  · rfl
  · dsimp only
    split_ifs
    · rfl
    · split
      · rfl
      · rename_i firstPage _
        have hrun := mapRun_cr3 m flags firstPage n firstPage
        split <;> rename_i heq <;> rw [heq] at hrun <;> exact hrun

@[simp] lemma vmmAllocPages_cr3 (n flags : ℕ) : (vmmAllocPages n flags m).2.cr3 = m.cr3 :=
  vmmAllocPagesRegion_cr3 m n flags _ _

@[simp] lemma freePages_cr3 (n page : ℕ) : (freePages n page m).2.cr3 = m.cr3 := by
  induction n generalizing page m with
  | zero => rfl
  | succ n ih =>
    unfold freePages
    split
    · rfl
    · split_ifs
      · dsimp only
        rw [ih, store_cr3]
      · rfl

@[simp] lemma vmmFreePages_cr3 (n virt : ℕ) : (vmmFreePages n virt m).2.cr3 = m.cr3 := by
  unfold vmmFreePages
  split_ifs <;> simp

omit m in
lemma vmmClone_none {m m' : Machine}
    (h : vmmAllocPages 1 (vmmFlagsPresent ||| vmmFlagsRw) m = (none, m')) :
    vmmClone m = (0, m') := by
  rw [vmmClone, h]

omit m in
lemma vmmClone_some {m m' : Machine} {newPd : ℕ}
    (h : vmmAllocPages 1 (vmmFlagsPresent ||| vmmFlagsRw) m = (some newPd, m')) :
    vmmClone m = (getPhysicalAddress m' newPd,
      unmapPage ((copyKernelHalf (clearPage m' newPd) newPd).store (newPd + 4 * 1023)
        (getPhysicalAddress m' newPd ||| vmmFlagsPresent ||| vmmFlagsRw)) newPd) := by
  rw [vmmClone, h]

@[simp] lemma vmmClone_cr3 : (vmmClone m).2.cr3 = m.cr3 := by
  have hpages := vmmAllocPages_cr3 m 1 (vmmFlagsPresent ||| vmmFlagsRw)
  rcases heq : vmmAllocPages 1 (vmmFlagsPresent ||| vmmFlagsRw) m with ⟨_ | newPd, m'⟩ <;>
    rw [heq] at hpages
  · rw [vmmClone_none heq]
    exact hpages
  · rw [vmmClone_some heq, unmapPage_cr3, store_cr3, copyKernelHalf_cr3, clearPage_cr3]
    exact hpages

lemma inSpace_cr3 {α : Type*} (cr3 : ℕ) {f : Machine → α × Machine}
    (hf : ∀ m, (f m).2.cr3 = m.cr3) : (inSpace cr3 f m).2.cr3 = m.cr3 := by
  unfold inSpace
  dsimp only
  split_ifs with h
  · rfl
  · rw [hf]
    exact (not_not.1 h).symm

@[simp] lemma vmmAllocPagesRegionIn_cr3 (cr3 n flags regionStart regionEnd : ℕ) :
    (vmmAllocPagesRegionIn cr3 n flags regionStart regionEnd m).2.cr3 = m.cr3 :=
  inSpace_cr3 m cr3 fun m => vmmAllocPagesRegion_cr3 m n flags regionStart regionEnd

@[simp] lemma vmmFreePagesIn_cr3 (cr3 n virt : ℕ) :
    (vmmFreePagesIn cr3 n virt m).2.cr3 = m.cr3 :=
  inSpace_cr3 m cr3 fun m => vmmFreePages_cr3 m n virt

@[simp] lemma destroyEntry_cr3 (pt j : ℕ) : (destroyEntry pt m j).cr3 = m.cr3 := by
  unfold destroyEntry
  split_ifs <;> simp

@[simp] lemma destroyEntries_cr3 (pt : ℕ) : (destroyEntries m pt).cr3 = m.cr3 :=
  foldl_cr3 m (fun m j => destroyEntry_cr3 m pt j) _

@[simp] lemma destroyTable_cr3 (i : ℕ) : (destroyTable m i).cr3 = m.cr3 := by
  unfold destroyTable
  dsimp only
  split
  · rfl
  · simp

@[simp] lemma destroyTables_cr3 : (destroyTables m).cr3 = m.cr3 :=
  foldl_cr3 m destroyTable_cr3 _

@[simp] lemma vmmDestroy_cr3 (cr3 : ℕ) : (vmmDestroy cr3 m).cr3 = m.cr3 := by
  unfold vmmDestroy
  split_ifs
  · rfl
  · exact inSpace_cr3 m cr3 destroyTables_cr3

end Cr3

end Gummy
