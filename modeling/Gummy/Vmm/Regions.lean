import Gummy.Vmm.Walk

/-!
Regions of pages: the search of `vmm_alloc_pages_region` and what its loops map.
-/

namespace Gummy

open CWord Machine

variable {m : Machine}

/-! ### The search -/

section Search

variable {n fuel start consecutivePages firstPage f : ℕ}

/-- The run that is found lies in the region and is not mapped.  The induction carries the
pages already counted, which start at `start`. -/
lemma findRun_some (hlt : consecutivePages < n) (hfirst : consecutivePages ≠ 0 → firstPage = start)
    (hfree : ∀ k < consecutivePages, pageMapped m (start + k * pageSize) = false)
    (h : findRun m n fuel (start + consecutivePages * pageSize) consecutivePages firstPage =
      some f) :
    (∃ t, f = start + t * pageSize) ∧
      f + n * pageSize ≤ start + (consecutivePages + fuel) * pageSize ∧
      ∀ k < n, pageMapped m (f + k * pageSize) = false := by
  induction fuel generalizing start consecutivePages firstPage with
  | zero => cases h
  | succ fuel ih =>
    have hnext : start + consecutivePages * pageSize + pageSize =
        start + (consecutivePages + 1) * pageSize := by ring
    rw [findRun] at h
    by_cases hmap : pageMapped m (start + consecutivePages * pageSize) = true
    · -- the count starts again behind this page
      rw [if_pos hmap] at h
      dsimp only at h
      rw [if_neg (by omega), hnext] at h
      obtain ⟨⟨t, ht⟩, hle, hrun⟩ := @ih (start + (consecutivePages + 1) * pageSize) 0 firstPage
        (by omega) (fun h0 => absurd rfl h0) (fun k hk => by omega)
        (by rwa [Nat.zero_mul, Nat.add_zero])
      refine ⟨⟨consecutivePages + 1 + t, ?_⟩, ?_, hrun⟩
      · rw [ht]
        ring
      · refine hle.trans (le_of_eq ?_)
        ring
    · rw [if_neg hmap] at h
      dsimp only at h
      have hstart : (if consecutivePages = 0 then start + consecutivePages * pageSize
          else firstPage) = start := by
        split_ifs with h0
        · rw [h0, Nat.zero_mul, Nat.add_zero]
        · exact hfirst h0
      have hfree' : ∀ k < consecutivePages + 1, pageMapped m (start + k * pageSize) = false := by
        intro k hk
        obtain hk | rfl := Nat.lt_succ_iff_lt_or_eq.1 hk
        · exact hfree k hk
        · exact Bool.eq_false_iff.2 hmap
      rw [hstart] at h
      split_ifs at h with hn
      · obtain rfl := Option.some.inj h
        refine ⟨⟨0, by ring⟩, ?_, fun k hk => hfree' k (by omega)⟩
        rw [← hn]
        refine Nat.add_le_add_left (Nat.mul_le_mul_right _ ?_) _
        omega
      · rw [hnext] at h
        obtain ⟨ht, hle, hrun⟩ := ih (by omega) (fun _ => rfl) hfree' h
        refine ⟨ht, hle.trans (le_of_eq ?_), hrun⟩
        ring

/-- A region that starts with `n` pages without mapping: these are the ones found. -/
lemma findRun_first (hlt : consecutivePages < n) (hfirst : consecutivePages ≠ 0 → firstPage = start)
    (hfuel : n ≤ fuel + consecutivePages)
    (hfree : ∀ k < n, pageMapped m (start + k * pageSize) = false) :
    findRun m n fuel (start + consecutivePages * pageSize) consecutivePages firstPage =
      some start := by
  induction fuel generalizing consecutivePages firstPage with
  | zero => omega
  | succ fuel ih =>
    have hstart : (if consecutivePages = 0 then start + consecutivePages * pageSize
        else firstPage) = start := by
      split_ifs with h0
      · rw [h0, Nat.zero_mul, Nat.add_zero]
      · exact hfirst h0
    have hnext : start + consecutivePages * pageSize + pageSize =
        start + (consecutivePages + 1) * pageSize := by ring
    rw [findRun, hfree _ hlt, if_neg Bool.false_ne_true]
    dsimp only
    rw [hstart, hnext]
    split_ifs with hn
    · rfl
    · exact ih (by omega) (fun _ => rfl) (by omega)

end Search

lemma Machine.SelfMapped.pageMapped_eq {virt : ℕ} (h : m.SelfMapped) (hv : virt < 2 ^ 32) :
    pageMapped m virt = (m.entryOf (getPdeIndex virt) (getPteIndex virt)).isSome := by
  have hj := getPteIndex_lt virt
  by_cases hp : isPresent (m.pde (getPdeIndex virt)) = true
  · rw [pageMapped, h.getPte_some hv hp, entryOf_of_present hp]
    dsimp only
    rw [h.load_pte (getPdeIndex_lt hv) hj hp]
    split_ifs with hpj
    · rw [hpj, Option.isSome_some]
    · rw [Option.isSome_none]
      exact Bool.eq_false_iff.2 hpj
  · rw [pageMapped, h.getPte_none hv hp, entryOf_of_absent hp, Option.isSome_none]

/-! ### The first and the last page of a slot -/

section

variable {m : Machine} {virt phys flags f : ℕ}

/-- Clearing one entry clears no other, and makes none. -/
lemma entryOf_setPte_zero {i j k l e : ℕ} (hcr3 : pageSize ∣ m.cr3)
    (hj : j < 1024) (hk : k < 1024) (hl : l < 1024) (ht : m.table i ≠ m.cr3)
    (h : (m.setPte i j 0).entryOf k l = some e) : m.entryOf k l = some e := by
  have hpde := pde_setPte (v := 0) hcr3 hk hj ht
  by_cases hsame : m.table k = m.table i ∧ l = j
  · obtain ⟨hkt, rfl⟩ := hsame
    have hpte : (m.setPte i l 0).pte k l = 0 := by
      rw [pte, table_setPte hcr3 hk hj ht, hkt]
      exact ByteMem.read32_write32_same _ (by norm_num)
    rw [entryOf, hpte, isPresent_zero, if_neg (by simp)] at h
    cases h
  · have hpte : (m.setPte i j 0).pte k l = m.pte k l := by
      rw [pte, table_setPte hcr3 hk hj ht]
      refine ByteMem.read32_write32_of_disjoint _ _
        (entry_disjoint (m.table_dvd k) (m.table_dvd i) hl hj ?_)
      by_contra hor
      push Not at hor
      exact hsame hor
    rwa [entryOf, hpde, hpte] at h

/-- The directory after a page is mapped through a present table. -/
lemma pde_mapPresent {i j k v : ℕ} (h : m.SelfMapped) (hj : j < 1024) (hk : k < 1024)
    (hflags : flags < pageSize) (ht : m.table i ≠ m.cr3) :
    ((m.setPde i (m.pde i ||| flags)).setPte i j v).pde k =
      if k = i then m.pde i ||| flags else m.pde k := by
  have hor : m.pde i ||| flags < 2 ^ 32 :=
    Nat.or_lt_two_pow (m.pde_lt _) (hflags.trans (by norm_num))
  have htable : (m.setPde i (m.pde i ||| flags)).table i = m.table i := by
    rw [table, pde_setPde_self hor, frameAddr_or_flags (m.pde_lt _) hflags, table]
  have hset : ((m.setPde i (m.pde i ||| flags)).setPte i j v).pde k =
      (m.setPde i (m.pde i ||| flags)).pde k :=
    pde_setPte h.cr3_dvd hk hj (by rw [htable]; exact ht)
  rw [hset]
  split_ifs with hki
  · rw [hki, pde_setPde_self hor]
  · exact pde_setPde_of_ne hki

/-- The first page of a slot takes the lowest free frame for its page table. -/
lemma Paging.map_new (h : Paging m) (hv : virt < 0xFFC00000) (hphys : pageSize ∣ phys)
    (hlt : phys < 2 ^ 32) (hflags : flags < pageSize)
    (hp : ¬ isPresent (m.pde (getPdeIndex virt)) = true) (hfree : m.pmm.Free f)
    (hlow : ∀ g < f, ¬ m.pmm.Free g) :
    ∃ m', vmmMap m virt phys flags = (true, m') ∧ Paging m' ∧
      isPresent (m'.pde (getPdeIndex virt)) = true ∧ m'.table (getPdeIndex virt) = f * pageSize ∧
      (∀ k < 1024, k ≠ getPdeIndex virt → m'.pde k = m.pde k) ∧
      (∀ g, m'.pmm.Free g ↔ m.pmm.Free g ∧ g ≠ f) ∧
      m'.pmm.bitmapBits = m.pmm.bitmapBits ∧
      ∀ l < 1024, m'.entryOf (getPdeIndex virt) l =
        if l = getPteIndex virt then some (phys ||| flags ||| vmmFlagsPresent) else none := by
  obtain ⟨-, hnone⟩ | ⟨f', pmm, halloc, hpos, hfree', hlow', hbits, hpmm⟩ :=
    pmmAllocPage_spec h.valid
  · exact absurd hfree (hnone f)
  obtain rfl : f' = f := by
    refine le_antisymm (not_lt.1 fun hlt' => hlow' f hlt' hfree) (not_lt.1 fun hlt' => ?_)
    exact hlow f' hlt' hfree'
  have hi := getPdeIndex_lt_window hv
  have hi' : getPdeIndex virt < 1024 := hi.trans (by norm_num)
  have hj := getPteIndex_lt virt
  have hcr3 := h.self.cr3_dvd
  have hnew := h.newFrame hpos hfree
  have hadd := h.addTable hi hflags hpos hfree hbits hpmm
  have hpresent := isPresent_addTable (i := getPdeIndex virt) pmm hcr3 hnew hi' hflags
  have hself := table_addTable_self pmm hcr3 hnew hi' hflags
  have hmap : vmmMap _ virt phys flags = _ :=
    vmmMap_of_present hadd.self hv (hflags.trans (by norm_num)) hpresent
  rw [← vmmMap_new h.self hv hflags hp halloc hnew] at hmap
  obtain ⟨m', heq, hm', hentry⟩ | ⟨-, -, hnone⟩ := h.map hv hphys hlt hflags
  swap
  · exact absurd hfree (hnone f')
  obtain rfl := congrArg Prod.snd (heq.symm.trans hmap)
  have hpde : ∀ k < 1024, _ := fun k hk => pde_mapPresent (j := getPteIndex virt)
    (v := phys ||| flags ||| vmmFlagsPresent) hadd.self hj hk hflags
    (by rw [hself]; exact hnew.ne_cr3)
  refine ⟨_, heq, hm', ?_, ?_, fun k hk hki => ?_, hpmm, hbits, fun l hl => ?_⟩
  · rw [hpde _ hi', if_pos rfl, isPresent_or, hpresent, Bool.true_or]
  · rw [table, hpde _ hi', if_pos rfl, frameAddr_or_flags (pde_lt ..) hflags]
    exact hself
  · rw [hpde k hk, if_neg hki, pde_addTable_of_ne flags pmm hcr3 hnew hk hki]
  · rw [hentry _ hi l hl, entryOf_of_absent hp]
    simp only [true_and]

/-- The last page of a slot takes the page table with it. -/
lemma Paging.unmap_last (h : Paging m) (hv : virt < 0xC0000000) {e : ℕ}
    (he : m.entryOf (getPdeIndex virt) (getPteIndex virt) = some e)
    (hlast : ∀ l < 1024, l ≠ getPteIndex virt → m.entryOf (getPdeIndex virt) l = none) :
    ∃ m', vmmUnmap m virt = (true, m') ∧ Paging m' ∧
      ¬ isPresent (m'.pde (getPdeIndex virt)) = true ∧
      (∀ k < 1024, k ≠ getPdeIndex virt → m'.pde k = m.pde k) ∧
      ∀ g, m'.pmm.Free g ↔ m.pmm.Free g ∨
        (g * pageSize = m.table (getPdeIndex virt) ∧ g < m.pmm.bitmapBits) := by
  have hv' : virt < 0xFFC00000 := hv.trans (by norm_num)
  have hv32 : virt < 2 ^ 32 := hv'.trans (by norm_num)
  have hi := getPdeIndex_lt_window hv'
  have hi' : getPdeIndex virt < 1024 := hi.trans (by norm_num)
  have hj := getPteIndex_lt virt
  have hcr3 := h.self.cr3_dvd
  have hp : isPresent (m.pde (getPdeIndex virt)) = true ∧
      isPresent (m.pte (getPdeIndex virt) (getPteIndex virt)) = true := by
    by_contra hp
    rw [entryOf, if_neg hp] at he
    cases he
  have ht := h.table_ne _ hi hp.1
  have hempty : (m.setPte (getPdeIndex virt) (getPteIndex virt) 0).tableEmpty (getPdeIndex virt) =
      true := by
    rw [tableEmpty_iff]
    intro l hl hpl
    have hentry : (m.setPte (getPdeIndex virt) (getPteIndex virt) 0).entryOf (getPdeIndex virt) l =
        some _ := if_pos ⟨by rw [pde_setPte hcr3 hi' hj ht]; exact hp.1, hpl⟩
    by_cases hlj : l = getPteIndex virt
    · rw [hlj, pte_setPte_self hcr3 hi' hj ht (by norm_num), isPresent_zero] at hpl
      exact Bool.false_ne_true hpl
    · have hold := entryOf_setPte_zero hcr3 hj hi' hl ht hentry
      rw [hlast l hl hlj] at hold
      cases hold
  have hunmap := vmmUnmap_of_present h.self hv32 ht hp.1 hp.2
  rw [if_pos ⟨hempty, hv⟩] at hunmap
  obtain ⟨_, m', -, heq, hm', -⟩ | ⟨hnone, -⟩ := h.unmap hv'
  swap
  · rw [he] at hnone
    cases hnone
  obtain rfl := congrArg Prod.snd (heq.symm.trans hunmap)
  have htable := table_setPte (v := 0) hcr3 hi' hj ht
  refine ⟨_, heq, hm', ?_, fun k hk hki => ?_, fun g => ?_⟩
  · rw [Machine.dropTable, pde_setPde_self (by norm_num), isPresent_zero]
    exact Bool.false_ne_true
  · rw [Machine.dropTable, pde_setPde_of_ne hki]
    exact pde_setPte hcr3 hk hj ht
  · obtain ⟨t, ht'⟩ := m.table_dvd (getPdeIndex virt)
    rw [Machine.dropTable, setPde_pmm, htable, ht', Nat.mul_comm, pmmFreePage_free_iff, setPte_pmm]
    refine or_congr_right ?_
    simp only [pageSize]
    constructor
    · rintro ⟨rfl, hlt⟩
      exact ⟨rfl, hlt⟩
    · rintro ⟨hgt, hlt⟩
      obtain rfl : g = t := by omega
      exact ⟨rfl, hlt⟩

end

end Gummy
