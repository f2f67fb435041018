import Gummy.Vmm.Edits

/-!
The functions of `vmm.c` on all address spaces at once: each comes down to edits.
-/

namespace Gummy

open CWord Machine
open Relation (ReflTransGen)

variable {m : Machine} {D : Owners} {S : Set ℕ} {virt phys flags f i : ℕ}

/-! ### Frames without a role -/

namespace Spaces

lemma activePaging (h : Spaces m D) : Paging m := h.paging h.active

/-- A free frame plays no role. -/
lemma unplayed (h : Spaces m D) (hfree : m.pmm.Free f) (r : Role) :
    ¬ m.Plays D (f * pageSize) r := by
  intro hr
  refine h.used _ _ hr ?_
  rwa [Nat.mul_div_cancel f (by norm_num)]

/-- What `pmm_alloc_page` does: nothing, or a frame is taken that plays no role. -/
lemma alloc (h : Spaces m D) :
    (pmmAllocPage m.pmm = (0, m.pmm) ∧ ∀ f, ¬ m.pmm.Free f) ∨
      ∃ f pmm, pmmAllocPage m.pmm = (f * pageSize, pmm) ∧ m.pmm.Free f ∧
        (∀ g < f, ¬ m.pmm.Free g) ∧ (∀ g, pmm.Free g ↔ m.pmm.Free g ∧ g ≠ f) ∧
        pmm.bitmapBits = m.pmm.bitmapBits ∧
        Edit D S m { m with pmm } ∧ Spare { m with pmm } D (f * pageSize) := by
  obtain hnone | ⟨f, pmm, halloc, hpos, hfree, hlow, hbits, hpmm⟩ := pmmAllocPage_spec h.valid
  · exact Or.inl hnone
  · have hvalid : pmm.Valid := by
      refine ⟨hbits.trans_le h.valid.bits_le, fun h0 => ?_⟩
      exact h.valid.zero_used ((hpmm 0).1 h0).1
    refine Or.inr ⟨f, pmm, halloc, hfree, hlow, hpmm, hbits,
      .take hvalid fun g hg => ((hpmm g).1 hg).1, Nat.dvd_mul_left .., ?_, ?_, fun hf => ?_,
      fun r hr => h.unplayed hfree r (plays_withPmm hr)⟩
    · have hlt := hfree.1.trans_le h.valid.bits_le
      simp only [pageSize]
      omega
    · exact (Nat.mul_pos hpos (by norm_num)).ne'
    · rw [Nat.mul_div_cancel f (by norm_num)] at hf
      exact ((hpmm f).1 hf).2 rfl

end Spaces

namespace Spare

lemma withPmm {pmm : Pmm} (hf : Spare m D f) (hfree : ∀ g, pmm.Free g → m.pmm.Free g) :
    Spare { m with pmm } D f where
  dvd := hf.dvd
  lt := hf.lt
  ne_zero := hf.ne_zero
  used hfree' := hf.used (hfree _ hfree')
  unplayed r hr := hf.unplayed r (Spaces.plays_withPmm hr)

lemma newTable {g : ℕ} (h : Spaces m D) (hi : i < 1023) (hflags : flags < pageSize)
    (hg : Spare m D g) (hf : Spare m D f) (hne : f ≠ g) :
    Spare (m.addTable i g flags m.pmm) D f where
  dvd := hf.dvd
  lt := hf.lt
  ne_zero := hf.ne_zero
  used := hf.used
  unplayed r hr := by
    obtain hold | ⟨heq, -⟩ := h.plays_newTable hi hflags hg hr
    · exact hf.unplayed r hold
    · exact hne heq

lemma allow (h : Spaces m D) (hi : i < 1023) (hp : isPresent (m.pde i) = true)
    (hflags : flags < pageSize) (hf : Spare m D f) :
    Spare (m.setPde i (m.pde i ||| flags)) D f where
  dvd := hf.dvd
  lt := hf.lt
  ne_zero := hf.ne_zero
  used := hf.used
  unplayed r hr := hf.unplayed r (h.plays_allow hi hp hflags hr)

end Spare

/-! ### Mapping one page -/

/-- The flags fit the half that the page lies in. -/
def FlagsFit (virt flags : ℕ) : Prop := 768 ≤ getPdeIndex virt → perm flags = vmmFlagsRw

/-- With a page table, `vmm_map` is two edits. -/
lemma Spaces.edits_vmmMap_present (h : Spaces m D) (hv : virt < 0xFFC00000)
    (hS : getPdeIndex virt ∈ S)
    (hflags : flags < pageSize) (hfit : FlagsFit virt flags) (hphys : Spare m D phys)
    (hp : isPresent (m.pde (getPdeIndex virt)) = true) :
    Edits D S m (vmmMap m virt phys flags).2 ∧ (vmmMap m virt phys flags).1 = true := by
  have hi := getPdeIndex_lt_window hv
  have hj := getPteIndex_lt virt
  have hor : m.pde (getPdeIndex virt) ||| flags < 2 ^ 32 :=
    Nat.or_lt_two_pow (m.pde_lt _) (hflags.trans (by norm_num))
  have hallow : Edit D S m (m.setPde (getPdeIndex virt) (m.pde (getPdeIndex virt) ||| flags)) :=
    .allow hS hi hp hflags hfit
  have hpde := pde_setPde_self (m := m) (i := getPdeIndex virt) hor
  have hcovers : Covers ((m.setPde (getPdeIndex virt)
      (m.pde (getPdeIndex virt) ||| flags)).pde (getPdeIndex virt))
      (phys ||| flags ||| vmmFlagsPresent) := by
    rw [hpde, Covers, perm_or (phys ||| flags), perm_or phys, perm_aligned hphys.dvd, perm_present,
      Nat.zero_or, Nat.or_zero, Nat.or_comm]
    exact (Covers.refl flags).or_left _
  have hpresent : isPresent ((m.setPde (getPdeIndex virt)
      (m.pde (getPdeIndex virt) ||| flags)).pde (getPdeIndex virt)) = true := by
    rw [hpde, isPresent_or, hp, Bool.true_or]
  rw [vmmMap_of_present h.activePaging.self hv (hflags.trans (by norm_num)) hp]
  exact ⟨(ReflTransGen.single hallow).tail
    (.map hS hi hj hpresent hflags hfit hcovers (hphys.allow h hi hp hflags)), rfl⟩

/-- `vmm_map` of a frame without a role. -/
lemma Spaces.edits_vmmMap (h : Spaces m D) (hv : virt < 0xFFC00000) (hS : getPdeIndex virt ∈ S)
    (hflags : flags < pageSize) (hfit : FlagsFit virt flags) (hphys : Spare m D phys) :
    Edits D S m (vmmMap m virt phys flags).2 ∧
      ((vmmMap m virt phys flags).1 = false → (vmmMap m virt phys flags).2 = m) := by
  by_cases hp : isPresent (m.pde (getPdeIndex virt)) = true
  · obtain ⟨hedits, hok⟩ := h.edits_vmmMap_present hv hS hflags hfit hphys hp
    exact ⟨hedits, fun hfalse => absurd (hok.symm.trans hfalse) (by simp)⟩
  · obtain ⟨halloc, -⟩ | ⟨f, pmm, halloc, hfree, -, hpmm, -, htake, hspare⟩ := h.alloc (S := S)
    · rw [vmmMap_full h.activePaging.self (hv.trans (by norm_num)) hp halloc]
      exact ⟨.refl, fun _ => rfl⟩
    · have hi := getPdeIndex_lt_window hv
      have h' := htake.spaces h
      have hnew : Edit D S { m with pmm } 
          (m.addTable (getPdeIndex virt) (f * pageSize) flags pmm) :=
        .newTable hS hi hp hflags hfit hspare
      have hne : phys ≠ f * pageSize := by
        rintro rfl
        refine hphys.used ?_
        rwa [Nat.mul_div_cancel f (by norm_num)]
      have hphys' := Spare.newTable h' hi hflags hspare
        (hphys.withPmm fun g hg => ((hpmm g).1 hg).1) hne
      have hf := h.activePaging.newFrame
        (Nat.pos_of_ne_zero fun h0 => h.valid.zero_used (h0 ▸ hfree)) hfree
      have hpresent := isPresent_addTable (i := getPdeIndex virt) pmm h.activePaging.self.cr3_dvd
        hf (hi.trans (by norm_num)) hflags
      rw [vmmMap_new h.activePaging.self hv hflags hp halloc hf]
      obtain ⟨hedits, hok⟩ :=
        (hnew.spaces h').edits_vmmMap_present hv hS hflags hfit hphys' hpresent
      exact ⟨((ReflTransGen.single htake).tail hnew).trans hedits,
        fun hfalse => absurd (hok.symm.trans hfalse) (by simp)⟩

/-- `vmm_unmap` -/
lemma Spaces.edits_vmmUnmap (h : Spaces m D) (hv : virt < 0xFFC00000) (hS : getPdeIndex virt ∈ S) :
    Edits D S m (vmmUnmap m virt).2 := by
  have hv32 : virt < 2 ^ 32 := hv.trans (by norm_num)
  have hi := getPdeIndex_lt_window hv
  have hj := getPteIndex_lt virt
  by_cases hp : isPresent (m.pde (getPdeIndex virt)) = true ∧
      isPresent (m.pte (getPdeIndex virt) (getPteIndex virt)) = true
  · have ht := h.activePaging.table_ne _ hi hp.1
    have hclear : Edit D S m (m.setPte (getPdeIndex virt) (getPteIndex virt) 0) :=
      .unmap hS hi hj hp.1
    rw [vmmUnmap_of_present h.activePaging.self hv32 ht hp.1 hp.2]
    split_ifs with hempty
    · have hp' : isPresent ((m.setPte (getPdeIndex virt) (getPteIndex virt) 0).pde
          (getPdeIndex virt)) = true := by
        rw [Machine.pde_setPte h.activePaging.self.cr3_dvd (hi.trans (by norm_num)) hj ht, hp.1]
      have hi' : getPdeIndex virt < 768 := by
        rw [getPdeIndex_eq]
        have hlt := hempty.2
        omega
      exact (ReflTransGen.single hclear).tail (.dropTable hS hi' hp' hempty.1)
    · exact .single hclear
  · rw [vmmUnmap_of_absent h.activePaging.self hv32 hp]

/-! ### Regions -/

/-- The slots of the `n` pages from `page` on are in `S`, and below the window. -/
def SlotsIn (S : Set ℕ) (page n : ℕ) : Prop :=
  page + n * pageSize ≤ 0xFFC00000 ∧ ∀ k < n, getPdeIndex (page + k * pageSize) ∈ S

lemma SlotsIn.lt {page n k : ℕ} (hS : SlotsIn S page n) (hk : k < n) :
    page + k * pageSize < 0xFFC00000 := by
  have hend := hS.1
  have hmul : k * pageSize + pageSize ≤ n * pageSize := by
    rw [← Nat.succ_mul]
    exact Nat.mul_le_mul_right _ hk
  simp only [pageSize] at hend hmul ⊢
  omega

lemma SlotsIn.mono {page n k : ℕ} (hS : SlotsIn S page n) (hk : k ≤ n) : SlotsIn S page k := by
  refine ⟨le_trans ?_ hS.1, fun l hl => hS.2 l (hl.trans_le hk)⟩
  exact Nat.add_le_add_left (Nat.mul_le_mul_right _ hk) _

lemma Spaces.edits_unmapPages {page n : ℕ} (h : Spaces m D) (hS : SlotsIn S page n) :
    Edits D S m (unmapPages m page n) := by
  have hfold : ∀ (l : List ℕ), (∀ k ∈ l, k < n) →
      ∀ m : Machine, Spaces m D →
        Edits D S m (l.foldl (fun m k => unmapPage m (page + k * pageSize)) m) := by
    intro l
    induction l with
    | nil =>
      intro _ m _
      exact .refl
    | cons k l ih =>
      intro hl m hm
      have hk : k < n := hl k List.mem_cons_self
      have hedits := hm.edits_vmmUnmap (hS.lt hk) (hS.2 k hk)
      exact hedits.trans (ih (fun k' hk' => hl k' (List.mem_cons_of_mem k hk')) _
        (Edits.spaces hm hedits))
  exact hfold (List.range n) (fun k hk => List.mem_range.1 hk) m h

/-- The mapping loop, `t` pages of which are done. -/
lemma Spaces.edits_mapRun {t n : ℕ} (h : Spaces m D) (firstPage : ℕ) (hflags : flags < pageSize)
    (hS : SlotsIn S firstPage (t + n))
    (hfit : ∀ k < t + n, FlagsFit (firstPage + k * pageSize) flags) :
    Edits D S m (mapRun flags firstPage n (firstPage + t * pageSize) m).2 := by
  induction n generalizing m t with
  | zero => exact .refl
  | succ n ih =>
    have ht : t < t + (n + 1) := by omega
    have hlt := hS.lt ht
    have hback : (firstPage + t * pageSize - firstPage) / pageSize = t := by
      rw [Nat.add_sub_cancel_left, Nat.mul_div_cancel t (by norm_num)]
    have hnext : firstPage + t * pageSize + pageSize = firstPage + (t + 1) * pageSize := by ring
    have hroll : SlotsIn S firstPage t := hS.mono ht.le
    unfold mapRun
    dsimp only
    rw [hback, hnext]
    obtain ⟨halloc, -⟩ | ⟨f, pmm, halloc, hfree, -, -, -, htake, hspare⟩ := h.alloc (S := S)
    · rw [halloc, if_pos rfl]
      exact h.edits_unmapPages hroll
    · have h' := htake.spaces h
      obtain ⟨hmap, hfail⟩ := h'.edits_vmmMap hlt (hS.2 t ht) hflags (hfit t ht) hspare
      rw [halloc, if_neg hspare.ne_zero]
      dsimp only
      rcases hr : vmmMap { m with pmm } (firstPage + t * pageSize) (f * pageSize) flags with
        ⟨ok, m'⟩
      rw [hr] at hmap hfail
      cases ok with
      | false =>
        obtain rfl : m' = { m with pmm } := hfail rfl
        have hgive : Edit D S { m with pmm } _ := .free hspare
        exact ((ReflTransGen.single htake).tail hgive).trans
          ((hgive.spaces h').edits_unmapPages hroll)
      | true =>
        refine ((ReflTransGen.single htake).trans hmap).trans (ih (hmap.spaces h') ?_ ?_)
        · have hsum : t + 1 + n = t + (n + 1) := by omega
          rw [hsum]
          exact hS
        · intro k hk
          exact hfit k (by omega)

/-- The run that `vmm_alloc_pages_region` finds lies in the region. -/
lemma findRun_region {n regionStart regionEnd firstPage : ℕ} (hn : n ≠ 0)
    (hstart : regionStart ≤ 0xFFC00000) (hend : regionEnd ≤ 0xFFC00000)
    (hfind : findRun m n ((alignDown 32 regionEnd pageSize - alignUp 32 regionStart pageSize) /
      pageSize) (alignUp 32 regionStart pageSize) 0 0 = some firstPage) :
    pageSize ∣ firstPage ∧ regionStart ≤ firstPage ∧ firstPage + n * pageSize ≤ regionEnd ∧
      ∀ k < n, pageMapped m (firstPage + k * pageSize) = false := by
  have hup : alignUp 32 regionStart pageSize =
      2 ^ 12 * ((regionStart + (2 ^ 12 - 1)) / 2 ^ 12) := by
    rw [show pageSize = 2 ^ 12 by norm_num, alignUp_two_pow (by norm_num), Nat.mod_eq_of_lt]
    omega
  have hdown : alignDown 32 regionEnd pageSize = 2 ^ 12 * (regionEnd / 2 ^ 12) := by
    rw [show pageSize = 2 ^ 12 by norm_num, alignDown_two_pow (by norm_num) (by omega)]
  obtain ⟨⟨t, ht⟩, hle, hfree⟩ := @findRun_some m n _ (alignUp 32 regionStart pageSize)
    0 0 firstPage
    (Nat.pos_of_ne_zero hn) (fun hne => absurd rfl hne) (fun k hk => absurd hk (by omega))
    (by rwa [Nat.zero_mul, Nat.add_zero])
  generalize alignUp 32 regionStart pageSize = first at hup hle ht
  generalize alignDown 32 regionEnd pageSize = last at hdown hle
  have hsize := Nat.div_mul_le_self (last - first) pageSize
  rw [Nat.zero_add] at hle
  simp only [pageSize] at ht hle hsize ⊢
  refine ⟨?_, by omega, by omega, hfree⟩
  rw [ht, hup]
  exact Nat.dvd_add (Nat.dvd_mul_right ..) (Nat.dvd_mul_left ..)

/-- `vmm_alloc_pages_region` -/
lemma Spaces.edits_region {n regionStart regionEnd : ℕ} (h : Spaces m D)
    (hflags : flags < pageSize) (hstart : regionStart ≤ 0xFFC00000) (hend : regionEnd ≤ 0xFFC00000)
    (hS : ∀ v < regionEnd, regionStart ≤ v → getPdeIndex v ∈ S ∧ FlagsFit v flags) :
    Edits D S m (vmmAllocPagesRegion n flags regionStart regionEnd m).2 := by
  unfold vmmAllocPagesRegion
  split_ifs with hn
  · exact .refl
  dsimp only
  split_ifs
  · exact .refl
  cases hfind : findRun m n ((alignDown 32 regionEnd pageSize - alignUp 32 regionStart pageSize) /
      pageSize) (alignUp 32 regionStart pageSize) 0 0 with
  | none => exact .refl
  | some firstPage =>
    obtain ⟨-, hge, hle, -⟩ := findRun_region hn hstart hend hfind
    have hin : ∀ k < n, firstPage + k * pageSize < regionEnd := by
      intro k hk
      have hmul : k * pageSize + pageSize ≤ n * pageSize := by
        rw [← Nat.succ_mul]
        exact Nat.mul_le_mul_right _ hk
      simp only [pageSize] at hle hmul ⊢
      omega
    have hslots : ∀ k < n, _ := fun k hk =>
      hS (firstPage + k * pageSize) (hin k hk) (hge.trans (Nat.le_add_right ..))
    have hrun := h.edits_mapRun (S := S) (t := 0) (n := n) firstPage hflags
      ⟨by rw [Nat.zero_add]; exact hle.trans hend, fun k hk => (hslots k (by omega)).1⟩
      fun k hk => (hslots k (by omega)).2
    rw [Nat.zero_mul, Nat.add_zero] at hrun
    dsimp only
    rcases hr : mapRun flags firstPage n firstPage m with ⟨ok, m'⟩
    rw [hr] at hrun
    cases ok <;> exact hrun

/-! ### Freeing pages -/

/-- The frame of a page of the lower half loses its role with the entry. -/
lemma Spaces.spare_unmap {i j : ℕ} (h : Spaces m D) (hi : i < 768) (hj : j < 1024)
    (hp : isPresent (m.pde i) = true) (hpj : isPresent (m.pte i j) = true) :
    Spare (m.setPte i j 0) D (frameAddr (m.pte i j)) := by
  have hi' : i < 1023 := hi.trans (by norm_num)
  have hplays : m.Plays D (frameAddr (m.pte i j)) (pageRole m.cr3 i j) :=
    .page h.active hi' (.inl hi) hj hp hpj
  refine ⟨frameAddr_dvd _, frameAddr_lt _, h.nonzero _ _ hplays, h.used _ _ hplays,
    fun r hr => ?_⟩
  obtain hold | ⟨hpresent, -⟩ := h.plays_setPte hi' hj hp (by norm_num) hr
  swap
  · cases hpresent
  have hrole := h.unique _ _ _ hold hplays
  generalize frameAddr (m.pte i j) = f at hr
  cases hr with
  | kernel hk => exact pageRole_ne_kernel _ _ _ hrole.symm
  | dir hd => exact pageRole_ne_dir _ _ _ _ hrole.symm
  | table hd hk hpk => exact pageRole_ne_tableRole _ _ _ _ _ hrole.symm
  | @page d k l hd hk hpages hl hpk hpl =>
    obtain ⟨rfl, rfl, hdd⟩ := pageRole_inj hrole
    obtain rfl := hdd hi
    rw [h.pde_setPte hi' hj hp (by norm_num) hd (hk.trans (by norm_num)),
      entry_setPte (frameAddr_dvd _) hj hl (by norm_num), if_pos ⟨rfl, rfl⟩] at hpl
    cases hpl

/-- One turn of the loop of `vmm_free_pages`. -/
lemma freePages_succ {n page : ℕ} (h : m.SelfMapped) (hv : page < 2 ^ 32) :
    freePages (n + 1) page m =
      if isPresent (m.pde (getPdeIndex page)) = true ∧
          isPresent (m.pte (getPdeIndex page) (getPteIndex page)) = true then
        freePages n (u32 (page + pageSize))
          { m.setPte (getPdeIndex page) (getPteIndex page) 0 with
            pmm := pmmFreePage m.pmm (frameAddr (m.pte (getPdeIndex page) (getPteIndex page))) }
      else (false, m) := by
  by_cases hp : isPresent (m.pde (getPdeIndex page)) = true
  · rw [freePages, h.getPte_some hv hp]
    dsimp only
    rw [h.load_pte (getPdeIndex_lt hv) (getPteIndex_lt page) hp,
      h.store_pte (getPdeIndex_lt hv) (getPteIndex_lt page) hp]
    simp only [hp, true_and]
    rfl
  · rw [freePages, h.getPte_none hv hp, if_neg fun h' => hp h'.1]

/-- `vmm_free_pages`, for pages of the lower half. -/
lemma Spaces.edits_freePages {n page : ℕ} (h : Spaces m D) (hend : page + n * pageSize ≤ 0xC0000000)
    (hS : ∀ k < n, getPdeIndex (page + k * pageSize) ∈ S) : Edits D S m (freePages n page m).2 := by
  induction n generalizing m page with
  | zero => exact .refl
  | succ n ih =>
    simp only [pageSize] at hend
    have hv : page < 2 ^ 32 := by omega
    have hi : getPdeIndex page < 768 := by
      rw [getPdeIndex_eq]
      omega
    have hi' : getPdeIndex page < 1023 := hi.trans (by norm_num)
    have hj := getPteIndex_lt page
    have hslot : getPdeIndex page ∈ S := by
      have h0 := hS 0 (Nat.succ_pos n)
      rwa [Nat.zero_mul, Nat.add_zero] at h0
    rw [freePages_succ h.activePaging.self hv]
    split_ifs with hp
    · have hclear : Edit D S m (m.setPte (getPdeIndex page) (getPteIndex page) 0) :=
        .unmap hslot hi' hj hp.1
      have hgive := Edit.free (S := S) (h.spare_unmap hi hj hp.1 hp.2)
      have hnext : u32 (page + pageSize) = page + pageSize := by
        simp only [pageSize]
        exact u32_of_lt (by omega)
      rw [hnext]
      refine ((ReflTransGen.single hclear).tail hgive).trans
        (ih (hgive.spaces (hclear.spaces h)) (by simp only [pageSize]; omega) fun k hk => ?_)
      have hstep : page + pageSize + k * pageSize = page + (k + 1) * pageSize := by ring
      rw [hstep]
      exact hS (k + 1) (Nat.succ_lt_succ hk)
    · exact .refl

lemma Spaces.edits_vmmFreePages {n virt : ℕ} (h : Spaces m D)
    (hend : virt + n * pageSize ≤ 0xC0000000)
    (hS : ∀ k < n, getPdeIndex (virt + k * pageSize) ∈ S) :
    Edits D S m (vmmFreePages n virt m).2 := by
  unfold vmmFreePages
  split_ifs
  · exact .refl
  · exact h.edits_freePages hend hS

/-! ### Destroying a space -/

/-- One turn of the inner loop of `vmm_destroy`. -/
lemma destroyEntry_eq {i j : ℕ} (h : m.SelfMapped) (hi : i < 1024) (hj : j < 1024)
    (hp : isPresent (m.pde i) = true) :
    destroyEntry (0xFFC00000 + i * 0x1000) m j =
      if isPresent (m.pte i j) = true then
        { m.setPte i j 0 with pmm := pmmFreePage m.pmm (frameAddr (m.pte i j)) }
      else m := by
  rw [destroyEntry, h.load_pte hi hj hp]
  split_ifs
  · exact (h.withPmm (pmmFreePage m.pmm (frameAddr (m.pte i j)))).store_pte hi hj hp 0
  · rfl

/-- The inner loop clears the table. -/
lemma Spaces.edits_destroyEntries (h : Spaces m D) (hi : i < 768) (hS : i ∈ S)
    (hp : isPresent (m.pde i) = true) :
    Edits D S m (destroyEntries m (0xFFC00000 + i * 0x1000)) ∧
      (destroyEntries m (0xFFC00000 + i * 0x1000)).pde i = m.pde i ∧
      (destroyEntries m (0xFFC00000 + i * 0x1000)).tableEmpty i = true := by
  have hi' : i < 1023 := hi.trans (by norm_num)
  have hfold : ∀ n ≤ 1024, Edits D S m
      ((List.range n).foldl (destroyEntry (0xFFC00000 + i * 0x1000)) m) ∧
      ((List.range n).foldl (destroyEntry (0xFFC00000 + i * 0x1000)) m).pde i = m.pde i ∧
      ∀ j < n, ¬ isPresent
        (((List.range n).foldl (destroyEntry (0xFFC00000 + i * 0x1000)) m).pte i j) = true := by
    intro n
    induction n with
    | zero =>
      intro _
      exact ⟨.refl, rfl, fun j hj => absurd hj (Nat.not_lt_zero j)⟩
    | succ n ih =>
      intro hn
      obtain ⟨hedits, hpde, hclear⟩ := ih (by omega)
      rw [List.range_succ, List.foldl_append, List.foldl_cons, List.foldl_nil]
      generalize (List.range n).foldl (destroyEntry (0xFFC00000 + i * 0x1000)) m = m' at *
      have h' := hedits.spaces h
      have hp' : isPresent (m'.pde i) = true := by rw [hpde, hp]
      have hself := h'.activePaging.self
      have ht := h'.activePaging.table_ne i hi' hp'
      rw [destroyEntry_eq hself (hi'.trans (by norm_num)) (by omega) hp']
      split_ifs with hpn
      · have hunmap : Edit D S m' (m'.setPte i n 0) := .unmap hS hi' (by omega) hp'
        have hgive := Edit.free (S := S) (h'.spare_unmap hi (by omega) hp' hpn)
        refine ⟨(hedits.tail hunmap).tail hgive, ?_, fun j hj => ?_⟩
        · exact (Machine.pde_setPte hself.cr3_dvd (hi'.trans (by norm_num)) (by omega)
            ht).trans hpde
        · by_cases hjn : j = n
          · have hzero : (m'.setPte i n 0).pte i j = 0 := by
              rw [hjn]
              exact pte_setPte_self hself.cr3_dvd (hi'.trans (by norm_num)) (by omega) ht
                (by norm_num)
            rw [withPmm_pte, hzero]
            simp
          · have hsame : (m'.setPte i n 0).pte i j = m'.pte i j :=
              pte_setPte_of_ne hself.cr3_dvd (hi'.trans (by norm_num)) (by omega) (by omega) ht
                (Or.inr hjn)
            rw [withPmm_pte, hsame]
            exact hclear j (by omega)
      · refine ⟨hedits, hpde, fun j hj => ?_⟩
        by_cases hjn : j = n
        · rw [hjn]
          exact hpn
        · exact hclear j (by omega)
  obtain ⟨hedits, hpde, hclear⟩ := hfold 1024 le_rfl
  exact ⟨hedits, hpde, tableEmpty_iff.2 hclear⟩

/-- One turn of the outer loop of `vmm_destroy`. -/
lemma Spaces.edits_destroyTable (h : Spaces m D) (hi : i < 768) (hS : i ∈ S) :
    Edits D S m (destroyTable m i) ∧ ¬ isPresent ((destroyTable m i).pde i) = true := by
  have hself := h.activePaging.self
  have hindex : getPdeIndex (i * 0x400000) = i := by
    rw [getPdeIndex_eq]
    omega
  have hv : i * 0x400000 < 2 ^ 32 := by omega
  have hpt := hself.getPt_eq hv
  rw [hindex] at hpt
  unfold destroyTable
  dsimp only
  rw [hpt]
  by_cases hp : isPresent (m.pde i) = true
  · rw [if_pos hp]
    dsimp only
    obtain ⟨hedits, hpde, hempty⟩ := h.edits_destroyEntries (S := S) hi hS hp
    have hself' := (hedits.spaces h).activePaging.self
    have hload : m.load (getPde (i * 0x400000)) = m.pde i := by
      rw [hself.load_getPde hv, hindex]
    generalize destroyEntries m (0xFFC00000 + i * 0x1000) = m' at *
    have hdrop : { m' with pmm := pmmFreePage m'.pmm (frameAddr (m.pde i)) }.store
        (getPde (i * 0x400000)) 0 = m'.dropTable i := by
      rw [(hself'.withPmm _).store_getPde hv, hindex, dropTable, table, hpde]
    rw [hload, hdrop]
    refine ⟨hedits.tail (.dropTable hS hi (by rw [hpde, hp]) hempty), ?_⟩
    rw [dropTable, pde_setPde_self (by norm_num), isPresent_zero]
    exact Bool.false_ne_true
  · rw [if_neg hp]
    exact ⟨.refl, hp⟩

/-- The outer loop empties the lower half. -/
lemma Spaces.edits_destroyTables (h : Spaces m D) :
    Edits D {i | i < 768} m (destroyTables m) ∧
      ∀ i < 768, ¬ isPresent ((destroyTables m).pde i) = true := by
  have hfold : ∀ n ≤ 768, Edits D {i | i < 768} m ((List.range n).foldl destroyTable m) ∧
      ∀ i < n, ¬ isPresent (((List.range n).foldl destroyTable m).pde i) = true := by
    intro n
    induction n with
    | zero =>
      intro _
      exact ⟨.refl, fun i hi => absurd hi (Nat.not_lt_zero i)⟩
    | succ n ih =>
      intro hn
      obtain ⟨hedits, hclear⟩ := ih (by omega)
      rw [List.range_succ, List.foldl_append, List.foldl_cons, List.foldl_nil]
      generalize (List.range n).foldl destroyTable m = m' at *
      have h' := hedits.spaces h
      obtain ⟨htable, habsent⟩ := h'.edits_destroyTable (S := {n}) (show n < 768 by omega) rfl
      have hother := (htable.elsewhere h').pde m'.cr3 h'.active
      refine ⟨hedits.trans (htable.mono fun i hi => ?_), fun i hi => ?_⟩
      · rw [Set.mem_singleton_iff.1 hi]
        exact hn
      · by_cases hin : i = n
        · rw [hin]
          exact habsent
        · have hpde : (destroyTable m' n).pde i = m'.pde i := by
            have hsame := hother i (by omega) (Or.inr hin)
            have hdir : (destroyTable m' n).pde i = (destroyTable m' n).entry m'.cr3 i := by
              rw [← htable.cr3]
              rfl
            exact hdir.trans hsame
          rw [hpde]
          exact hclear i (by omega)
  exact hfold 768 le_rfl

end Gummy
