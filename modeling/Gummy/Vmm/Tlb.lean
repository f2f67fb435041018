import Gummy.Vmm.Regions

/-!
The memory manager on a processor that caches translations.

The processor may keep a translation that it has used until `invlpg` of the page or a
write of `cr3`.  `Cpu` records which translations may be cached, and whether an access was
made through a page of which an older one is among them: such an access may reach the frame
of the older one.  The functions of `vmm.c` are stated again on this machine, with every
access they make and every `invlpg`; without the cache they are those of `Vmm`.
-/

namespace Gummy

open CWord Machine
open Transition (Reachable restrict)

/-! ### The processor -/

/-- A machine, the cached translations from pages to frames, and whether an access was made
that an outdated one may have answered. -/
structure Cpu where
  mach : Machine
  cached : List (ℕ × ℕ)
  stale : Bool

namespace Cpu

/-- Use the translation of `virt`. -/
def access (c : Cpu) (virt : ℕ) : Cpu :=
  match c.mach.translate virt with
  | none => c
  | some a =>
    { c with
      cached := (virt / pageSize, a / pageSize) :: c.cached
      stale := c.stale || c.cached.any fun e => e.1 = virt / pageSize ∧ e.2 ≠ a / pageSize }

def load (c : Cpu) (virt : ℕ) : ℕ × Cpu := (c.mach.load virt, c.access virt)

def store (c : Cpu) (virt v : ℕ) : Cpu := { c.access virt with mach := c.mach.store virt v }

/-- `invlpg` -/
def invlpg (c : Cpu) (virt : ℕ) : Cpu :=
  { c with cached := c.cached.filter (·.1 ≠ virt / pageSize) }

/-- `pmm_alloc_page` -/
def allocPage (c : Cpu) : ℕ × Cpu :=
  let (page, pmm) := pmmAllocPage c.mach.pmm
  (page, { c with mach := { c.mach with pmm } })

/-- `pmm_free_page` -/
def freePage (c : Cpu) (page : ℕ) : Cpu :=
  { c with mach := { c.mach with pmm := pmmFreePage c.mach.pmm page } }

/-! ### `vmm.c` -/

/-- `get_pt` -/
def getPt (c : Cpu) (virt : ℕ) : Option ℕ × Cpu :=
  let (pde, c) := c.load (getPde virt)
  (if isPresent pde then some (0xFFC00000 + getPdeIndex virt * 0x1000) else none, c)

/-- `get_pte` -/
def getPte (c : Cpu) (virt : ℕ) : Option ℕ × Cpu :=
  let (pde, c) := c.load (getPde virt)
  if isPresent pde then
    let (pt, c) := c.getPt virt
    (pt.map (· + 4 * getPteIndex virt), c)
  else (none, c)

/-- The loop of `vmm_map` that zeroes a new page table. -/
def clearTable (pt : ℕ) (c : Cpu) : Cpu :=
  (List.range 1024).foldl (fun c i => c.store (pt + 4 * i) 0) c

/-- The first half of `vmm_map`. -/
def ensurePt (virt flags : ℕ) (c : Cpu) : Bool × Cpu :=
  let (pde, c) := c.load (getPde virt)
  if isPresent pde then (true, c)
  else
    let (ptPhys, c) := c.allocPage
    if ptPhys = 0 then (false, c)
    else
      let c := c.store (getPde virt) (ptPhys ||| flags ||| vmmFlagsPresent)
      match c.getPt virt with
      | (some pt, c) => (true, c.clearTable pt)
      | (none, c) => (true, c)

/-- `vmm_map` -/
def vmmMap (virt phys flags : ℕ) (c : Cpu) : Bool × Cpu :=
  match c.ensurePt virt flags with
  | (false, c) => (false, c)
  | (true, c) =>
    let (pde, c) := c.load (getPde virt)
    let c := c.store (getPde virt) (pde ||| flags)
    match c.getPte virt with
    | (some pte, c) => (true, (c.store pte (phys ||| flags ||| vmmFlagsPresent)).invlpg virt)
    | (none, c) => (true, c.invlpg virt)

/-- One turn of the loop of `vmm_unmap` that counts the present entries. -/
def countEntry (pt : ℕ) (counted : ℕ × Cpu) (i : ℕ) : ℕ × Cpu :=
  let (pte, c) := counted.2.load (pt + 4 * i)
  (if isPresent pte then counted.1 + 1 else counted.1, c)

/-- That loop. -/
def countPresent (pt : ℕ) (c : Cpu) : ℕ × Cpu := (List.range 1024).foldl (countEntry pt) (0, c)

/-- The end of `vmm_unmap`, once the present entries are counted: the page of the window
keeps its translation. -/
def releaseTable (virt : ℕ) (counted : ℕ × Cpu) : Cpu :=
  if counted.1 = 0 ∧ virt < 0xC0000000 then
    let (pde, c) := counted.2.load (getPde virt)
    (c.freePage (frameAddr pde)).store (getPde virt) 0
  else counted.2

/-- `vmm_unmap` -/
def vmmUnmap (virt : ℕ) (c : Cpu) : Bool × Cpu :=
  match c.getPte virt with
  | (none, c) => (false, c)
  | (some pte, c) =>
    let (e, c) := c.load pte
    if isPresent e then
      let c := (c.store pte 0).invlpg virt
      match c.getPt virt with
      | (none, c) => (true, c)
      | (some pt, c) => (true, releaseTable virt (c.countPresent pt))
    else (false, c)

/-- The page of `virt` is mapped: `pte && (*pte & VMM_FLAGS_PRESENT)`. -/
def pageMapped (virt : ℕ) (c : Cpu) : Bool × Cpu :=
  match c.getPte virt with
  | (none, c) => (false, c)
  | (some pte, c) =>
    let (e, c) := c.load pte
    (isPresent e, c)

/-- The search loop of `vmm_alloc_pages_region`. -/
def findRun (n : ℕ) : ℕ → ℕ → ℕ → ℕ → Cpu → Option ℕ × Cpu
  | 0, _, _, _, c => (none, c)
  | fuel + 1, page, consecutivePages, firstPage, c =>
    let (mapped, c) := c.pageMapped page
    let (consecutivePages, firstPage) :=
      if mapped then (0, firstPage)
      else (consecutivePages + 1, if consecutivePages = 0 then page else firstPage)
    if consecutivePages = n then (some firstPage, c)
    else findRun n fuel (page + pageSize) consecutivePages firstPage c

/-- The rollback loops. -/
def unmapPages (page n : ℕ) (c : Cpu) : Cpu :=
  (List.range n).foldl (fun c i => (c.vmmUnmap (page + i * pageSize)).2) c

/-- The mapping loop of `vmm_alloc_pages_region`. -/
def mapRun (flags firstPage : ℕ) : ℕ → ℕ → Cpu → Bool × Cpu
  | 0, _, c => (true, c)
  | n + 1, page, c =>
    let rollback (c : Cpu) := c.unmapPages firstPage ((page - firstPage) / pageSize)
    let (phys, c) := c.allocPage
    if phys = 0 then (false, rollback c)
    else
      match c.vmmMap page phys flags with
      | (false, c) => (false, rollback (c.freePage phys))
      | (true, c) => mapRun flags firstPage n (page + pageSize) c

/-- `vmm_alloc_pages_region` -/
def vmmAllocPagesRegion (n flags regionStart regionEnd : ℕ) (c : Cpu) : Option ℕ × Cpu :=
  if n = 0 then (none, c)
  else
    let regionStart := alignUp 32 regionStart pageSize
    let regionEnd := alignDown 32 regionEnd pageSize
    if regionEnd < u32 (regionStart + n * pageSize) then (none, c)
    else
      match c.findRun n ((regionEnd - regionStart) / pageSize) regionStart 0 0 with
      | (none, c) => (none, c)
      | (some firstPage, c) =>
        match c.mapRun flags firstPage n firstPage with
        | (true, c) => (some firstPage, c)
        | (false, c) => (none, c)

/-- The loop of `vmm_free_pages`. -/
def freePages : ℕ → ℕ → Cpu → Bool × Cpu
  | 0, _, c => (true, c)
  | n + 1, page, c =>
    match c.getPte page with
    | (none, c) => (false, c)
    | (some pte, c) =>
      let (e, c) := c.load pte
      if isPresent e then
        let (e', c) := c.load pte
        let c := ((c.store pte 0).invlpg page).freePage (frameAddr e')
        freePages n (u32 (page + pageSize)) c
      else (false, c)

/-- `vmm_free_pages` -/
def vmmFreePages (n virt : ℕ) (c : Cpu) : Bool × Cpu :=
  if n = 0 then (false, c) else c.freePages n virt

/-! ### Without the cache -/

@[simp] lemma access_mach (c : Cpu) (virt : ℕ) : (c.access virt).mach = c.mach := by
  unfold access
  split <;> rfl

@[simp] lemma load_fst (c : Cpu) (virt : ℕ) : (c.load virt).1 = c.mach.load virt := rfl

@[simp] lemma load_mach (c : Cpu) (virt : ℕ) : (c.load virt).2.mach = c.mach := access_mach c virt

@[simp] lemma store_mach (c : Cpu) (virt v : ℕ) : (c.store virt v).mach = c.mach.store virt v := rfl

@[simp] lemma invlpg_mach (c : Cpu) (virt : ℕ) : (c.invlpg virt).mach = c.mach := rfl

@[simp] lemma freePage_mach (c : Cpu) (page : ℕ) : (c.freePage page).mach =
    { c.mach with pmm := pmmFreePage c.mach.pmm page } := rfl

@[simp] lemma allocPage_mach (c : Cpu) :
    c.allocPage.2.mach = { c.mach with pmm := (pmmAllocPage c.mach.pmm).2 } := rfl

/-- A result of the processor is that of the machine. -/
structure Agrees {α : Type*} (r : α × Cpu) (r' : α × Machine) : Prop where
  fst : r.1 = r'.1
  mach : r.2.mach = r'.2

lemma Agrees.eq {α : Type*} {r : α × Cpu} {r' : α × Machine} (h : Agrees r r') :
    ∃ a c, r = (a, c) ∧ r' = (a, c.mach) :=
  ⟨r.1, r.2, rfl, Prod.ext h.fst.symm h.mach.symm⟩

lemma getPt_agrees (c : Cpu) (virt : ℕ) : Agrees (c.getPt virt) (Gummy.getPt c.mach virt, c.mach) :=
  ⟨rfl, load_mach ..⟩

lemma getPte_agrees (c : Cpu) (virt : ℕ) :
    Agrees (c.getPte virt) (Gummy.getPte c.mach virt, c.mach) := by
  have hpt := getPt_agrees (c.load (getPde virt)).2 virt
  unfold getPte
  dsimp only
  split_ifs with hp
  · exact ⟨by rw [hpt.1, load_mach]; rfl, by rw [hpt.2, load_mach]⟩
  · refine ⟨?_, load_mach ..⟩
    rw [load_fst] at hp
    rw [Gummy.getPte, Gummy.getPt, if_neg hp]
    rfl

lemma foldl_mach {β : Type*} {f : Cpu → β → Cpu} {g : Machine → β → Machine}
    (hf : ∀ c b, (f c b).mach = g c.mach b) (l : List β) (c : Cpu) :
    (l.foldl f c).mach = l.foldl g c.mach := by
  induction l generalizing c with
  | nil => rfl
  | cons b l ih => rw [List.foldl_cons, List.foldl_cons, ih, hf]

lemma clearTable_mach (c : Cpu) (pt : ℕ) : (c.clearTable pt).mach = clearPage c.mach pt := by
  unfold clearTable clearPage Machine.storeAll
  exact foldl_mach (g := fun m i => m.store (pt + 4 * i) 0)
    (fun c i => store_mach c (pt + 4 * i) 0) (List.range 1024) c

lemma ensurePt_agrees (c : Cpu) (virt flags : ℕ) :
    Agrees (c.ensurePt virt flags) (Gummy.ensurePt c.mach virt flags) := by
  unfold ensurePt Gummy.ensurePt
  simp only [load_fst, allocPage, load_mach]
  split_ifs
  · exact ⟨rfl, load_mach ..⟩
  · exact ⟨rfl, rfl⟩
  · generalize hc : Cpu.store _ (getPde virt)
      ((pmmAllocPage c.mach.pmm).1 ||| flags ||| vmmFlagsPresent) = c₁
    have hm : c₁.mach = { c.mach with pmm := (pmmAllocPage c.mach.pmm).2 }.store (getPde virt)
        ((pmmAllocPage c.mach.pmm).1 ||| flags ||| vmmFlagsPresent) := by
      rw [← hc]
      simp
    obtain ⟨h1, h2⟩ := getPt_agrees c₁ virt
    rcases hpt : c₁.getPt virt with ⟨pt, c₂⟩
    rw [hpt, hm] at h1 h2
    dsimp only at h1 h2
    rw [← h1]
    cases pt with
    | none => exact ⟨rfl, h2⟩
    | some pt => exact ⟨rfl, by rw [clearTable_mach, h2]⟩

/-- `vmm_map` does the same to the machine. -/
lemma vmmMap_agrees (c : Cpu) (virt phys flags : ℕ) :
    Agrees (c.vmmMap virt phys flags) (Gummy.vmmMap c.mach virt phys flags) := by
  obtain ⟨ok, c₁, h1, h2⟩ := (ensurePt_agrees c virt flags).eq
  unfold vmmMap Gummy.vmmMap
  rw [h1, h2]
  cases ok with
  | false => exact ⟨rfl, rfl⟩
  | true =>
    simp only [load_fst]
    generalize hc : Cpu.store _ (getPde virt) (c₁.mach.load (getPde virt) ||| flags) = c₂
    have hm : c₂.mach = c₁.mach.store (getPde virt) (c₁.mach.load (getPde virt) ||| flags) := by
      rw [← hc]
      simp
    obtain ⟨h1, h2⟩ := getPte_agrees c₂ virt
    rcases hpte : c₂.getPte virt with ⟨pte, c₃⟩
    rw [hpte, hm] at h1 h2
    dsimp only at h1 h2
    rw [← h1]
    cases pte with
    | none => exact ⟨rfl, h2⟩
    | some pte => exact ⟨rfl, by rw [invlpg_mach, store_mach, h2]⟩

lemma countPresent_agrees (c : Cpu) (pt : ℕ) : Agrees (c.countPresent pt)
    ((List.range 1024).countP fun i => isPresent (c.mach.load (pt + 4 * i)), c.mach) := by
  have hfold : ∀ (l : List ℕ) (n : ℕ) (c' : Cpu), c'.mach = c.mach →
      Agrees (l.foldl (countEntry pt) (n, c'))
        (n + l.countP fun i => isPresent (c.mach.load (pt + 4 * i)), c.mach) := by
    intro l
    induction l with
    | nil =>
      intro n c' hc'
      exact ⟨rfl, hc'⟩
    | cons i l ih =>
      intro n c' hc'
      obtain ⟨h1, h2⟩ := ih (if isPresent (c'.mach.load (pt + 4 * i)) then n + 1 else n)
        (c'.load (pt + 4 * i)).2 ((load_mach ..).trans hc')
      refine ⟨h1.trans ?_, h2⟩
      rw [List.countP_cons, hc']
      dsimp only
      split_ifs <;> omega
  have hall := hfold (List.range 1024) 0 c rfl
  rwa [Nat.zero_add] at hall

@[simp] lemma countPresent_mach (c : Cpu) (pt : ℕ) : (c.countPresent pt).2.mach = c.mach :=
  (countPresent_agrees c pt).mach

lemma vmmUnmap_agrees (c : Cpu) (virt : ℕ) :
    Agrees (c.vmmUnmap virt) (Gummy.vmmUnmap c.mach virt) := by
  obtain ⟨h1, h2⟩ := getPte_agrees c virt
  unfold vmmUnmap Gummy.vmmUnmap
  rcases hpte : c.getPte virt with ⟨pte, c₁⟩
  rw [hpte] at h1 h2
  dsimp only at h1 h2
  rw [← h1, ← h2]
  cases pte with
  | none => exact ⟨rfl, rfl⟩
  | some pte =>
    simp only [load_fst]
    by_cases he : isPresent (c₁.mach.load pte) = true
    · simp only [he, if_true]
      generalize hc : (Cpu.store _ pte 0).invlpg virt = c₂
      have hm : c₂.mach = c₁.mach.store pte 0 := by
        rw [← hc]
        simp
      obtain ⟨h1, h2⟩ := getPt_agrees c₂ virt
      rcases hpt : c₂.getPt virt with ⟨pt, c₃⟩
      rw [hpt, hm] at h1 h2
      dsimp only at h1 h2
      rw [← h1]
      cases pt with
      | none => exact ⟨rfl, h2⟩
      | some pt =>
        have h4 : (c₃.countPresent pt).2.mach = c₁.mach.store pte 0 :=
          (countPresent_agrees c₃ pt).mach.trans h2
        have h3 := (countPresent_agrees c₃ pt).fst
        dsimp only
        generalize c₃.countPresent pt = r at h3 h4 ⊢
        dsimp only [releaseTable] at h3 ⊢
        rw [h3, h2]
        split_ifs
        · exact ⟨rfl, by rw [load_fst, store_mach, freePage_mach, load_mach, h4]⟩
        · exact ⟨rfl, h4⟩
    · simp only [he]
      exact ⟨rfl, load_mach ..⟩

lemma pageMapped_agrees (c : Cpu) (virt : ℕ) :
    Agrees (c.pageMapped virt) (Gummy.pageMapped c.mach virt, c.mach) := by
  obtain ⟨h1, h2⟩ := getPte_agrees c virt
  unfold pageMapped Gummy.pageMapped
  rcases hpte : c.getPte virt with ⟨pte, c₁⟩
  rw [hpte] at h1 h2
  dsimp only at h1 h2
  rw [← h1]
  cases pte with
  | none => exact ⟨rfl, h2⟩
  | some pte => exact ⟨by dsimp only; rw [load_fst, h2], (load_mach ..).trans h2⟩

lemma findRun_agrees (c : Cpu) (n fuel page consecutivePages firstPage : ℕ) :
    Agrees (c.findRun n fuel page consecutivePages firstPage)
      (Gummy.findRun c.mach n fuel page consecutivePages firstPage, c.mach) := by
  induction fuel generalizing c page consecutivePages firstPage with
  | zero => exact ⟨rfl, rfl⟩
  | succ fuel ih =>
    obtain ⟨h1, h2⟩ := pageMapped_agrees c page
    unfold findRun Gummy.findRun
    rcases hmapped : c.pageMapped page with ⟨mapped, c₁⟩
    rw [hmapped] at h1 h2
    dsimp only at h1 h2
    rw [← h1, ← h2]
    dsimp only
    generalize (if mapped = true then (0, firstPage)
      else (consecutivePages + 1, if consecutivePages = 0 then page else firstPage)) = r
    by_cases hn : r.1 = n
    · rw [if_pos hn, if_pos hn]
      exact ⟨rfl, rfl⟩
    · rw [if_neg hn, if_neg hn]
      exact ih ..

lemma unmapPages_mach (c : Cpu) (page n : ℕ) :
    (c.unmapPages page n).mach = Gummy.unmapPages c.mach page n :=
  foldl_mach (fun c i => (vmmUnmap_agrees c (page + i * pageSize)).mach) (List.range n) c

lemma mapRun_agrees (c : Cpu) (flags firstPage n page : ℕ) :
    Agrees (c.mapRun flags firstPage n page) (Gummy.mapRun flags firstPage n page c.mach) := by
  induction n generalizing c page with
  | zero => exact ⟨rfl, rfl⟩
  | succ n ih =>
    unfold mapRun Gummy.mapRun
    rcases halloc : pmmAllocPage c.mach.pmm with ⟨phys, pmm⟩
    have hc : c.allocPage = (phys, { c with mach := { c.mach with pmm } }) := by
      rw [allocPage, halloc]
    rw [hc]
    dsimp only
    generalize hc₁ : ({ c with mach := { c.mach with pmm } } : Cpu) = c₁
    have hm : { c.mach with pmm } = c₁.mach := by rw [← hc₁]
    rw [hm]
    by_cases h0 : phys = 0
    · rw [if_pos h0, if_pos h0]
      exact ⟨rfl, unmapPages_mach ..⟩
    · rw [if_neg h0, if_neg h0]
      obtain ⟨ok, c₂, h1, h2⟩ := (vmmMap_agrees c₁ page phys flags).eq
      rw [h1, h2]
      cases ok with
      | false => exact ⟨rfl, unmapPages_mach ..⟩
      | true => exact ih c₂ (page + pageSize)

/-- `vmm_alloc_pages_region` does the same to the machine. -/
lemma vmmAllocPagesRegion_agrees (c : Cpu) (n flags regionStart regionEnd : ℕ) :
    Agrees (c.vmmAllocPagesRegion n flags regionStart regionEnd)
      (Gummy.vmmAllocPagesRegion n flags regionStart regionEnd c.mach) := by
  unfold vmmAllocPagesRegion Gummy.vmmAllocPagesRegion
  dsimp only
  split_ifs
  · exact ⟨rfl, rfl⟩
  · exact ⟨rfl, rfl⟩
  · obtain ⟨h1, h2⟩ := findRun_agrees c n
      ((alignDown 32 regionEnd pageSize - alignUp 32 regionStart pageSize) / pageSize)
      (alignUp 32 regionStart pageSize) 0 0
    rcases hfind : c.findRun n
      ((alignDown 32 regionEnd pageSize - alignUp 32 regionStart pageSize) / pageSize)
      (alignUp 32 regionStart pageSize) 0 0 with ⟨firstPage, c₁⟩
    rw [hfind] at h1 h2
    dsimp only at h1 h2
    rw [← h1]
    cases firstPage with
    | none => exact ⟨rfl, h2⟩
    | some firstPage =>
      dsimp only
      obtain ⟨ok, c₂, h3, h4⟩ := (mapRun_agrees c₁ flags firstPage n firstPage).eq
      rw [h2] at h4
      rw [h3, h4]
      cases ok <;> exact ⟨rfl, rfl⟩

lemma freePages_agrees (c : Cpu) (n page : ℕ) :
    Agrees (c.freePages n page) (Gummy.freePages n page c.mach) := by
  induction n generalizing c page with
  | zero => exact ⟨rfl, rfl⟩
  | succ n ih =>
    obtain ⟨h1, h2⟩ := getPte_agrees c page
    unfold freePages Gummy.freePages
    rcases hpte : c.getPte page with ⟨pte, c₁⟩
    rw [hpte] at h1 h2
    dsimp only at h1 h2
    rw [← h1]
    cases pte with
    | none => exact ⟨rfl, h2⟩
    | some pte =>
      dsimp only
      rw [load_fst, load_fst, load_mach, h2]
      by_cases he : isPresent (c.mach.load pte) = true
      · rw [if_pos he, if_pos he]
        have hnext := ih ((((c₁.load pte).2.load pte).2.store pte 0).invlpg page |>.freePage
          (frameAddr (c.mach.load pte))) (u32 (page + pageSize))
        rwa [freePage_mach, invlpg_mach, store_mach, load_mach, load_mach, h2] at hnext
      · rw [if_neg he, if_neg he]
        exact ⟨rfl, (load_mach ..).trans h2⟩

/-- `vmm_free_pages` does the same to the machine. -/
lemma vmmFreePages_agrees (c : Cpu) (n virt : ℕ) :
    Agrees (c.vmmFreePages n virt) (Gummy.vmmFreePages n virt c.mach) := by
  unfold vmmFreePages Gummy.vmmFreePages
  split_ifs
  · exact ⟨rfl, rfl⟩
  · exact freePages_agrees ..

end Cpu

end Gummy
