import Gummy.Vmm.Contents

/-!
`vmm_clone`.

`vmm_clone` fills the new directory through a page that it maps for this purpose in the
lower half of its caller and unmaps again.  When it is done, the caller has its own mappings
back, and the new directory shares the upper half.
-/

namespace Gummy

open CWord Machine
open Relation (ReflTransGen)

variable {m m' : Machine} {D : Owners} {S : Set ℕ}

/-! ### The contents of the new directory -/

/-- What `vmm_clone` writes to the new directory. -/
lemma Shows.fill {page g : ℕ} (h : Shows m page g) (hself : m.SelfMapped) {v : ℕ}
    (hv : v < 2 ^ 32) :
    ∃ P, (copyKernelHalf (clearPage m page) page).store (page + 4 * 1023) v =
        { m with phys := P } ∧ AgreeOff g P m.phys ∧
      ∀ k < 1024, P.read32 (g + 4 * k) =
        if k = 1023 then v else if 768 ≤ k then m.pde k else 0 := by
  have hrange : ∀ i ∈ List.range 1024, i < 1024 := fun i hi => List.mem_range.1 hi
  have hupper : ∀ i ∈ List.range' 768 256, i < 1024 := by
    intro i hi
    have hi := (List.mem_range'_1.1 hi).2
    omega
  have hclear : clearPage m page =
      { m with phys := writeAll m.phys g (List.range 1024) fun _ => 0 } :=
    h.storeAll hrange fun _ _ _ _ => rfl
  have hoff₁ : AgreeOff g (writeAll m.phys g (List.range 1024) fun _ => 0) m.phys :=
    agreeOff_writeAll hrange
  have h₁ := h.agreeOff hoff₁
  generalize hP₁ : (writeAll m.phys g (List.range 1024) fun _ => 0) = P₁ at hclear hoff₁ h₁
  have hcopy : copyKernelHalf { m with phys := P₁ } page =
      { m with phys := writeAll P₁ g (List.range' 768 256) m.pde } := by
    refine h₁.storeAll hupper fun P hP i hi => ?_
    have hoff := hP.trans hoff₁
    exact ((h.selfMapped hself hoff).load_pde (hupper i hi)).trans (h.pde_eq hoff (hupper i hi))
  have hoff₂ : AgreeOff g (writeAll P₁ g (List.range' 768 256) m.pde) m.phys :=
    (agreeOff_writeAll hupper).trans hoff₁
  have h₂ := h.agreeOff hoff₂
  refine ⟨(writeAll P₁ g (List.range' 768 256) m.pde).write32 (g + 4 * 1023) v, ?_,
    (agreeOff_write32 _ (by norm_num)).trans hoff₂, fun k hk => ?_⟩
  · rw [hclear, hcopy, h₂.store (by norm_num)]
  · by_cases hk' : k = 1023
    · rw [if_pos hk', hk', ByteMem.read32_write32_same _ hv]
    · rw [if_neg hk', ByteMem.read32_write32_of_disjoint _ _ (by omega),
        read32_writeAll fun i _ => m.pde_lt i]
      by_cases hk768 : 768 ≤ k
      · rw [if_pos hk768, if_pos (List.mem_range'_1.2 ⟨hk768, by omega⟩)]
      · rw [if_neg hk768, if_neg fun hmem => hk768 (List.mem_range'_1.1 hmem).1, ← hP₁,
          read32_writeAll fun _ _ => by norm_num, if_pos (List.mem_range.2 hk)]

/-! ### The page that `vmm_clone` borrows -/

/-- The first page of the lower half is free, and so it is the one that is found. -/
lemma vmmAllocPages_one (h : m.SelfMapped) (hlow : ¬ isPresent (m.pde 0) = true) (flags : ℕ) :
    vmmAllocPages 1 flags m =
      (if (mapRun flags 0x1000 1 0x1000 m).1 = true then some 0x1000 else none,
        (mapRun flags 0x1000 1 0x1000 m).2) := by
  have hstart : alignUp 32 0x1000 pageSize = 0x1000 := by decide
  have hend : alignDown 32 0xFFC00000 pageSize = 0xFFC00000 := by decide
  have hwrap : ¬ 0xFFC00000 < u32 (0x1000 + 1 * pageSize) := by decide
  have hfuel : 1 ≤ (0xFFC00000 - 0x1000) / pageSize := by norm_num
  have hfind : ∀ fuel, 1 ≤ fuel → findRun m 1 fuel 0x1000 0 0 = some 0x1000 := by
    intro fuel hfuel
    refine @findRun_first m 1 fuel 0x1000 0 0 (by norm_num) (fun hne => absurd rfl hne) hfuel
      fun k hk => ?_
    obtain rfl : k = 0 := Nat.lt_one_iff.1 hk
    rw [h.pageMapped_eq (by norm_num)]
    have hindex : getPdeIndex (0x1000 + 0 * pageSize) = 0 := by decide
    rw [hindex, entryOf_of_absent hlow, Option.isSome_none]
  rw [vmmAllocPages, vmmAllocPagesRegion, if_neg one_ne_zero]
  dsimp only
  rw [hstart, hend, if_neg hwrap, hfind _ hfuel]
  dsimp only
  rcases mapRun flags 0x1000 1 0x1000 m with ⟨ok, m'⟩
  cases ok <;> rfl

/-- With one page to map, the loop makes one turn. -/
lemma mapRun_one (flags page : ℕ) (m : Machine) {phys : ℕ} {pmm : Pmm}
    (halloc : pmmAllocPage m.pmm = (phys, pmm)) :
    (phys = 0 → mapRun flags page 1 page m = (false, { m with pmm })) ∧
      (phys ≠ 0 → ∀ ok m', vmmMap { m with pmm } page phys flags = (ok, m') →
        mapRun flags page 1 page m =
          (ok, if ok = true then m' else { m' with pmm := pmmFreePage m'.pmm phys })) := by
  have hzero : (page - page) / pageSize = 0 := by rw [Nat.sub_self, Nat.zero_div]
  unfold mapRun
  dsimp only
  rw [hzero, halloc]
  refine ⟨fun h0 => if_pos h0, fun h0 ok m' hmap => ?_⟩
  rw [if_neg h0]
  dsimp only
  rw [hmap]
  cases ok <;> rfl

/-- A machine whose new page shows the frame `g`: the first page of the lower half has been
mapped to `g`, through a new table in the frame `t`. -/
structure Borrowed (D : Owners) (m m' : Machine) (g t : ℕ) : Prop where
  spaces : Spaces m' D
  elsewhere : Elsewhere D {0} m m'
  entry : ∀ l < 1024, m'.entryOf 0 l =
    if l = 1 then some (g ||| (vmmFlagsPresent ||| vmmFlagsRw) ||| vmmFlagsPresent) else none
  table : m'.table 0 = t * pageSize
  pde : ∀ k < 1024, k ≠ 0 → m'.pde k = m.pde k
  free : ∀ f, m'.pmm.Free f ↔ m.pmm.Free f ∧ f ≠ g / pageSize ∧ f ≠ t
  bits : m'.pmm.bitmapBits = m.pmm.bitmapBits
  frame_dvd : pageSize ∣ g
  frame_lt : g < 2 ^ 32
  frame_ne : g ≠ 0
  frame_free : m.pmm.Free (g / pageSize)
  table_free : m.pmm.Free t

/-- The page that `vmm_clone` asks for: with two free frames it gets one, and otherwise
nothing has changed. -/
lemma Spaces.borrow (h : Spaces m D) (hlow : ¬ isPresent (m.pde 0) = true) :
    (∃ pmm, mapRun (vmmFlagsPresent ||| vmmFlagsRw) 0x1000 1 0x1000 m = (false, { m with pmm }) ∧
      Edits D {0} m { m with pmm } ∧ ¬ m.Room 2) ∨
    ∃ m' g t, mapRun (vmmFlagsPresent ||| vmmFlagsRw) 0x1000 1 0x1000 m = (true, m') ∧
      Borrowed D m m' g t := by
  have hflags : vmmFlagsPresent ||| vmmFlagsRw < pageSize := by decide
  have hv : 0x1000 < 0xFFC00000 := by norm_num
  have hindex : getPdeIndex 0x1000 = 0 := by decide
  have hindex' : getPteIndex 0x1000 = 1 := by decide
  have hfit : FlagsFit 0x1000 (vmmFlagsPresent ||| vmmFlagsRw) := fun _ => by decide
  obtain ⟨halloc, hnone⟩ | ⟨f, pmm, halloc, hfree, -, hpmm, hbits, htake, hspare⟩ :=
    h.alloc (S := {0})
  · refine Or.inl ⟨m.pmm, (mapRun_one _ _ m halloc).1 rfl, .refl, fun hroom => ?_⟩
    obtain ⟨f, hf⟩ := (show m.Room (1 + 1) from hroom).exists_free
    exact hnone f hf
  have h' := htake.spaces h
  have hdiv : f * pageSize / pageSize = f := Nat.mul_div_cancel f (by norm_num)
  have hrun := (mapRun_one (vmmFlagsPresent ||| vmmFlagsRw) 0x1000 m halloc).2 hspare.ne_zero
  obtain ⟨halloc', hnone⟩ | ⟨t, pmm', halloc', hpos, hfree', hlow', hbits', hpmm'⟩ :=
    pmmAllocPage_spec h'.valid
  · -- no frame is left for the table
    have hfull := @vmmMap_full _ 0x1000 (f * pageSize) (vmmFlagsPresent ||| vmmFlagsRw)
      h'.activePaging.self (show 0x1000 < 2 ^ 32 by norm_num) (by rw [hindex]; exact hlow) halloc'
    refine Or.inl ⟨pmmFreePage pmm (f * pageSize), hrun false _ hfull,
      (ReflTransGen.single htake).tail (.free hspare), fun hroom => ?_⟩
    obtain ⟨g, hg⟩ := (show ({ m with pmm } : Machine).Room 1 from hroom.take hpmm).exists_free
    exact hnone g hg
  · obtain ⟨m', hmap, -, -, htable, hpde, hpmm'', hbits'', hentry⟩ :=
      h'.activePaging.map_new hv hspare.dvd hspare.lt hflags
        (by rw [hindex]; exact hlow) hfree' hlow'
    obtain ⟨hedits, -⟩ := h'.edits_vmmMap (S := {0}) hv (by rw [hindex]; rfl) hflags hfit hspare
    rw [hmap] at hedits
    have hall : Edits D {0} m m' := (ReflTransGen.single htake).trans hedits
    rw [hindex] at htable hpde hentry
    rw [hindex'] at hentry
    refine Or.inr ⟨m', f * pageSize, t, hrun true m' hmap, hall.spaces h, hall.elsewhere h,
      hentry, htable, hpde, fun g => ?_, hbits''.trans hbits,
      hspare.dvd, hspare.lt, hspare.ne_zero, ?_, ((hpmm t).1 hfree').1⟩
    · rw [hdiv, hpmm'' g, hpmm g, and_assoc]
    · rw [hdiv]
      exact hfree

/-! ### The specification -/

/-- What `vmm_clone` leaves: a directory `d` in a frame that was free, with a copy of the
upper half.  The caller has its own mappings. -/
structure Cloned (D : Owners) (m m' : Machine) (d : ℕ) : Prop where
  fresh : m.pmm.Free (d / pageSize)
  ne_zero : d ≠ 0
  dvd : pageSize ∣ d
  free : ∀ f, m'.pmm.Free f ↔ m.pmm.Free f ∧ f ≠ d / pageSize
  elsewhere : Elsewhere D {0} m m'
  slot : ¬ isPresent (m'.pde 0) = true
  pde : ∀ k < 1024, k ≠ 0 → m'.pde k = m.pde k
  directory : Spaces.NewDirectory m' d
  spaces : Spaces m' { D with dirs := insert d D.dirs }

/-- The new directory is filled through the page, and the page is unmapped. -/
lemma Borrowed.clone {g t : ℕ} (hb : Borrowed D m m' g t) :
    ∃ m'', unmapPage ((copyKernelHalf (clearPage m' 0x1000) 0x1000).store (0x1000 + 4 * 1023)
        (g ||| vmmFlagsPresent ||| vmmFlagsRw)) 0x1000 = m'' ∧ Cloned D m m'' g := by
  have hs := hb.spaces
  have hm := hs.activePaging
  have hcr3 : m'.cr3 = m.cr3 := hb.elsewhere.cr3
  have hindex : getPdeIndex 0x1000 = 0 := by decide
  have hindex' : getPteIndex 0x1000 = 1 := by decide
  have hflags : vmmFlagsPresent ||| vmmFlagsRw < pageSize := by decide
  have hself : g ||| vmmFlagsPresent ||| vmmFlagsRw < 2 ^ 32 :=
    Nat.or_lt_two_pow (Nat.or_lt_two_pow hb.frame_lt (by norm_num)) (by norm_num)
  obtain ⟨hp, hpj, hpte⟩ := entryOf_eq_some ((hb.entry 1 (by norm_num)).trans (if_pos rfl))
  have hframe : frameAddr (m'.pte 0 1) = g := by
    rw [hpte, frameAddr_newEntry hb.frame_dvd hb.frame_lt hflags]
  have hplays : m'.Plays D g (pageRole m'.cr3 0 1) := by
    rw [← hframe]
    exact .page hs.active (by norm_num) (.inl (by norm_num)) (by norm_num) hp hpj
  have hshows : Shows m' 0x1000 g :=
    ⟨hm.self.cr3_dvd, hb.frame_dvd, by norm_num, by norm_num, by rwa [hindex], by
      rwa [hindex, hindex'], by rw [hindex, hindex', hframe], hs.page_ne_dir hplays hs.active,
      by rw [hindex]; exact hs.page_ne_table hplays hs.active (by norm_num) hp⟩
  -- the contents of the page
  obtain ⟨P, hfill, hoff, hwords⟩ := hshows.fill hm.self hself
  have hsame := hs.sameTables_phys hplays hoff
  have helse := hs.elsewhere_phys (S := {0}) hplays rfl hoff
  have hs₂ := hsame.spaces hs rfl hs.active
  have hpde₂ : ∀ k < 1024, ({ m' with phys := P } : Machine).pde k = m'.pde k :=
    hsame.pde _ hs.active
  have hpte₂ : ∀ l < 1024, ({ m' with phys := P } : Machine).pte 0 l = m'.pte 0 l := by
    intro l hl
    have htable₂ : ({ m' with phys := P } : Machine).table 0 = m'.table 0 :=
      congrArg frameAddr (hpde₂ 0 (by norm_num))
    rw [pte, htable₂]
    exact hsame.pte _ hs.active 0 (by norm_num) hp l hl
  have hentry₂ : ∀ l < 1024, ({ m' with phys := P } : Machine).entryOf 0 l = m'.entryOf 0 l := by
    intro l hl
    rw [entryOf, entryOf, hpde₂ 0 (by norm_num), hpte₂ l hl]
  have htable₂ : ({ m' with phys := P } : Machine).table 0 = t * pageSize :=
    (congrArg frameAddr (hpde₂ 0 (by norm_num))).trans hb.table
  have hp₂ : isPresent (({ m' with phys := P } : Machine).pde 0) = true := by
    rw [hpde₂ 0 (by norm_num), hp]
  have hpj₂ : isPresent (({ m' with phys := P } : Machine).pte 0 1) = true := by
    rw [hpte₂ 1 (by norm_num), hpj]
  rw [hfill]
  have hgcr3 : g ≠ m'.cr3 := hs.page_ne_dir hplays hs.active
  have hgtable : g ≠ m'.table 0 := hs.page_ne_table hplays hs.active (by norm_num) hp
  have hread : ∀ k, ({ m' with phys := P } : Machine).entry g k = P.read32 (g + 4 * k) :=
    fun _ => rfl
  generalize hm₂ : ({ m' with phys := P } : Machine) = m₂ at *
  have hcr3₂ : m₂.cr3 = m'.cr3 := by rw [← hm₂]
  have hpmm₂ : m₂.pmm = m'.pmm := by rw [← hm₂]
  have hm₂' := hs₂.activePaging
  -- the page is unmapped
  obtain ⟨m₃, hunmap, -, habsent, hpde₃, hfree₃⟩ := hm₂'.unmap_last
    (show 0x1000 < 0xC0000000 by norm_num) (e := g ||| (vmmFlagsPresent ||| vmmFlagsRw)
        ||| vmmFlagsPresent)
    (by rw [hindex, hindex', hentry₂ 1 (by norm_num), hb.entry 1 (by norm_num), if_pos rfl])
    (fun l hl hne => by
      rw [hindex'] at hne
      rw [hindex, hentry₂ l hl, hb.entry l hl, if_neg hne])
  have hedits := @Spaces.edits_vmmUnmap _ _ {0} 0x1000 hs₂ (by norm_num) (by rw [hindex]; rfl)
  rw [hunmap] at hedits
  rw [hindex] at habsent hpde₃ hfree₃
  have ht₂ := hm₂'.table_ne 0 (by norm_num) hp₂
  have hm₃ : m₃ = (m₂.setPte 0 1 0).dropTable 0 := by
    have heq := vmmUnmap_of_present hm₂'.self (show 0x1000 < 2 ^ 32 by norm_num)
      (by rw [hindex]; exact ht₂) (by rw [hindex]; exact hp₂) (by rw [hindex, hindex']; exact hpj₂)
    rw [hindex, hindex', hunmap] at heq
    split_ifs at heq with hempty
    · exact congrArg Prod.snd heq
    · -- the table would still be there
      have hkept : (m₂.setPte 0 1 0).pde 0 = m₂.pde 0 :=
        Machine.pde_setPte hm₂'.self.cr3_dvd (by norm_num) (by norm_num) ht₂
      rw [(Prod.mk.inj heq).2, hkept] at habsent
      exact absurd hp₂ habsent
  have hspare := hs₂.spare_unmap (i := 0) (j := 1) (by norm_num) (by norm_num) hp₂ hpj₂
  rw [hpte₂ 1 (by norm_num), hframe] at hspare
  have hclear : Edit D {0} m₂ (m₂.setPte 0 1 0) := .unmap rfl (by norm_num) (by norm_num) hp₂
  have hs₃ : Spaces m₃ D := hedits.spaces hs₂
  have hcr3₃ : m₃.cr3 = m.cr3 := by
    rw [(hedits.elsewhere hs₂).cr3, hcr3₂, hcr3]
  have hgentry : ∀ k < 1024, m₃.entry g k = P.read32 (g + 4 * k) := by
    intro k hk
    have hset : (m₂.setPte 0 1 0).entry g k = m₂.entry g k := by
      rw [entry_setPte hb.frame_dvd (by norm_num) hk (by norm_num), if_neg]
      rw [htable₂, ← hb.table]
      exact fun heq => hgtable heq.1
    have hdvd : pageSize ∣ (m₂.setPte 0 1 0).cr3 := hm₂'.self.cr3_dvd
    rw [hm₃, entry_dropTable hdvd hb.frame_dvd (by norm_num) hk, if_neg, hset, hread]
    rw [setPte_cr3, hcr3₂]
    exact fun heq => hgcr3 heq.1
  have hpde : ∀ k < 1024, k ≠ 0 → m₃.pde k = m'.pde k := fun k hk h0 =>
    (hpde₃ k hk h0).trans (hpde₂ k hk)
  have hdiv : ∀ f, f * pageSize = m₂.table 0 ↔ f = t := by
    intro f
    rw [htable₂]
    simp only [pageSize]
    omega
  have hfree : ∀ f, m₃.pmm.Free f ↔ m.pmm.Free f ∧ f ≠ g / pageSize := by
    intro f
    rw [hfree₃ f, hpmm₂, hb.free f, hdiv f, hb.bits]
    constructor
    · rintro (⟨hf, hfg, -⟩ | ⟨rfl, -⟩)
      · exact ⟨hf, hfg⟩
      · refine ⟨hb.table_free, ?_⟩
        rintro rfl
        refine hgtable ?_
        rw [hb.table, Nat.div_mul_cancel hb.frame_dvd]
    · rintro ⟨hf, hfg⟩
      by_cases hft : f = t
      · exact Or.inr ⟨hft, hf.1⟩
      · exact Or.inl ⟨hf, hfg, hft⟩
  have hdir : Spaces.NewDirectory m₃ g := by
    refine ⟨fun k hk => ?_, fun k hk hk' => ?_, ?_, ?_⟩
    · rw [hgentry k (by omega), hwords k (by omega), if_neg (by omega), if_neg (by omega)]
    · rw [hgentry k (by omega), hwords k (by omega), if_neg (by omega), if_pos hk,
        hpde k (by omega) (by omega)]
    · rw [hgentry 1023 (by norm_num), hwords 1023 (by norm_num), if_pos rfl, Nat.or_assoc,
        frameAddr_or hb.frame_dvd hb.frame_lt (by decide)]
    · rw [hgentry 1023 (by norm_num), hwords 1023 (by norm_num), if_pos rfl, isPresent_or,
        isPresent_or]
      simp
  have hunplayed : ∀ r, ¬ m₃.Plays D g r := by
    intro r hr
    rw [hm₃] at hr
    exact hspare.unplayed r ((hclear.spaces hs₂).plays_dropTable (by norm_num) hr).1
  refine ⟨m₃, ?_, hb.frame_free, hb.frame_ne, hb.frame_dvd, hfree, ?_, habsent, fun k hk h0 => ?_,
    hdir, ?_⟩
  · rw [unmapPage, hunmap]
  · exact (hb.elsewhere.trans helse).trans (hedits.elsewhere hs₂)
  · rw [hpde k hk h0, hb.pde k hk h0]
  · refine hs₃.insert hdir hb.frame_dvd hb.frame_ne (fun hf => ((hfree _).1 hf).2 rfl) hunplayed

/-- `vmm_clone`: it fails, with nothing but the allocator touched, or there is a new space. -/
theorem Spaces.vmmClone_spec (h : Spaces m D) (hlow : ¬ isPresent (m.pde 0) = true) :
    (∃ pmm, vmmClone m = (0, { m with pmm }) ∧ Edits D {0} m { m with pmm } ∧ ¬ m.Room 2) ∨
      ∃ d m', vmmClone m = (d, m') ∧ Cloned D m m' d := by
  have hpages := vmmAllocPages_one h.activePaging.self hlow (vmmFlagsPresent ||| vmmFlagsRw)
  obtain ⟨pmm, hrun, hedits, hroom⟩ | ⟨m', g, t, hrun, hb⟩ := h.borrow hlow
  · rw [hrun, if_neg Bool.false_ne_true] at hpages
    exact Or.inl ⟨pmm, vmmClone_none hpages, hedits, hroom⟩
  · rw [hrun, if_pos rfl] at hpages
    have hflags : vmmFlagsPresent ||| vmmFlagsRw < pageSize := by decide
    have hphys : getPhysicalAddress m' 0x1000 = g := by
      have hindex : getPdeIndex 0x1000 = 0 := by decide
      have hindex' : getPteIndex 0x1000 = 1 := by decide
      rw [hb.spaces.activePaging.self.getPhysicalAddress_eq (by norm_num)
        (e := g ||| (vmmFlagsPresent ||| vmmFlagsRw) ||| vmmFlagsPresent)
        (by rw [hindex, hindex', hb.entry 1 (by norm_num), if_pos rfl]),
        frameAddr_newEntry hb.frame_dvd hb.frame_lt hflags]
      exact Nat.or_zero g
    obtain ⟨m'', heq, hcloned⟩ := hb.clone
    refine Or.inr ⟨g, m'', ?_, hcloned⟩
    rw [vmmClone_some hpages, hphys, heq]

end Gummy
