import Gummy.Vmm.Tlb

/-!
When the window is coherent.

`vmm_unmap` releases an empty page table and leaves the page of the window on which the
table appeared in the cache.  If a new table for the slot comes to lie in another frame,
`vmm_map` zeroes and writes through the old translation.  As long as that does not happen,
every access through the window reaches the table that the directory names.
-/

namespace Gummy

open CWord Machine
open Transition (Reachable restrict)

/-! ### The invariant -/

/-- The page of the window on which page table `i` appears. -/
def windowPage (i : ℕ) : ℕ := 0xFFC00 + i

/-- The page of the window on table `i` was accessed. -/
def Cpu.use (c : Cpu) (i : ℕ) : Cpu :=
  { c with cached := (windowPage i, c.mach.table i / pageSize) :: c.cached }

@[simp] lemma Cpu.use_mach (c : Cpu) (i : ℕ) : (c.use i).mach = c.mach := rfl

/-- No cached translation of the window on table `i` names a frame other than `f`. -/
def Cpu.FreshFor (c : Cpu) (i f : ℕ) : Prop :=
  ∀ e ∈ c.cached, e.1 = windowPage i → e.2 * pageSize = f

/-- If `vmm_map` has to create a page table for `virt`, no older one is still cached in
another frame. -/
def Cpu.MapFresh (c : Cpu) (virt : ℕ) : Prop :=
  ¬ isPresent (c.mach.pde (getPdeIndex virt)) = true →
    c.allocPage.1 ≠ 0 → c.FreshFor (getPdeIndex virt) c.allocPage.1

/-- The cached translations of the window name the tables of the directory, or tables that
no present entry names any more; and no access was stale. -/
structure Coherent (c : Cpu) : Prop where
  self : c.mach.SelfMapped
  valid : c.mach.pmm.Valid
  cr3_used : ¬ c.mach.pmm.Free (c.mach.cr3 / pageSize)
  table_ne : ∀ i < 1023, isPresent (c.mach.pde i) = true → c.mach.table i ≠ c.mach.cr3
  table_pos : ∀ i < 1023, isPresent (c.mach.pde i) = true → c.mach.table i ≠ 0
  cached : ∀ e ∈ c.cached, ∀ i < 1024, e.1 = windowPage i → isPresent (c.mach.pde i) = true →
    e.2 * pageSize = c.mach.table i
  fresh : c.stale = false

namespace Coherent

variable {c : Cpu} {i j v f : ℕ}

/-! ### Accesses -/

lemma access_eq (h : Coherent c) (hi : i < 1024) (hj : j < 1024)
    (hp : isPresent (c.mach.pde i) = true) :
    c.access (0xFFC00000 + i * 0x1000 + 4 * j) = c.use i := by
  have hpage : (0xFFC00000 + i * 0x1000 + 4 * j) / pageSize = windowPage i := by
    simp only [pageSize, windowPage]
    omega
  have hframe : (c.mach.table i + 4 * j) / pageSize = c.mach.table i / pageSize := by
    obtain ⟨f, hf⟩ := c.mach.table_dvd i
    rw [hf]
    simp only [pageSize]
    omega
  have hany : (c.cached.any fun e => e.1 = windowPage i ∧ e.2 ≠ c.mach.table i / pageSize) =
      false := by
    refine List.any_eq_false.2 fun e he => ?_
    rw [decide_eq_true_iff]
    rintro ⟨h1, h2⟩
    refine h2 ?_
    rw [← h.cached e he i hi h1 hp, Nat.mul_div_cancel _ (by norm_num)]
  rw [Cpu.access, h.self.translate_window hi hj hp]
  dsimp only
  rw [hpage, hframe, hany, Bool.or_false]
  rfl

lemma use (h : Coherent c) (i : ℕ) : Coherent (c.use i) where
  self := h.self
  valid := h.valid
  cr3_used := h.cr3_used
  table_ne := h.table_ne
  table_pos := h.table_pos
  cached := by
    rintro e (_ | ⟨_, he⟩) k hk heq hp
    · obtain rfl : i = k := by simpa [windowPage] using heq
      exact Nat.div_mul_cancel (c.mach.table_dvd i)
    · exact h.cached e he k hk heq hp
  fresh := h.fresh

lemma load_pte (h : Coherent c) (hi : i < 1024) (hj : j < 1024)
    (hp : isPresent (c.mach.pde i) = true) :
    c.load (0xFFC00000 + i * 0x1000 + 4 * j) = (c.mach.pte i j, c.use i) := by
  rw [Cpu.load, h.access_eq hi hj hp, h.self.load_pte hi hj hp]

lemma load_pde (h : Coherent c) (hi : i < 1024) :
    c.load (0xFFFFF000 + 4 * i) = (c.mach.pde i, c.use 1023) := by
  have haccess := h.access_eq (i := 1023) (by norm_num) hi h.self.present
  rw [Cpu.load, h.self.load_pde hi, ← haccess]

/-- Writing an entry of a page table. -/
lemma store_pte (h : Coherent c) (hi : i < 1023) (hj : j < 1024)
    (hp : isPresent (c.mach.pde i) = true) (v : ℕ) :
    Coherent (c.store (0xFFC00000 + i * 0x1000 + 4 * j) v) ∧
      (c.store (0xFFC00000 + i * 0x1000 + 4 * j) v).mach = c.mach.setPte i j v := by
  have hi' : i < 1024 := hi.trans (by norm_num)
  have hcr3 := h.self.cr3_dvd
  have ht := h.table_ne i hi hp
  have hpde : ∀ k < 1024, (c.mach.setPte i j v).pde k = c.mach.pde k := fun k hk =>
    pde_setPte hcr3 hk hj ht
  have htable : ∀ k < 1024, (c.mach.setPte i j v).table k = c.mach.table k := fun k hk =>
    table_setPte hcr3 hk hj ht
  have huse := h.use i
  rw [Cpu.store, h.access_eq hi' hj hp, h.self.store_pte hi' hj hp]
  refine ⟨⟨h.self.setPte hj ht v, h.valid, h.cr3_used, fun k hk hpk => ?_, fun k hk hpk => ?_,
    fun e he k hk heq hpk => ?_, h.fresh⟩, rfl⟩
  · rw [hpde k (hk.trans (by norm_num))] at hpk
    rw [htable k (hk.trans (by norm_num))]
    exact h.table_ne k hk hpk
  · rw [hpde k (hk.trans (by norm_num))] at hpk
    rw [htable k (hk.trans (by norm_num))]
    exact h.table_pos k hk hpk
  · rw [hpde k hk] at hpk
    rw [htable k hk]
    exact huse.cached e he k hk heq hpk

/-- Writing an entry of the directory: none, or one for a table whose window is fresh. -/
lemma store_pde (h : Coherent c) (hi : i < 1023) (hv : v < 2 ^ 32)
    (hfresh : isPresent v = true →
      frameAddr v ≠ c.mach.cr3 ∧ frameAddr v ≠ 0 ∧ c.FreshFor i (frameAddr v)) :
    Coherent (c.store (0xFFFFF000 + 4 * i) v) ∧
      (c.store (0xFFFFF000 + 4 * i) v).mach = c.mach.setPde i v := by
  have hi' : i < 1024 := hi.trans (by norm_num)
  have hself : (c.mach.setPde i v).pde i = v := pde_setPde_self hv
  have htable : (c.mach.setPde i v).table i = frameAddr v := congrArg frameAddr hself
  have haccess := h.access_eq (i := 1023) (by norm_num) hi' h.self.present
  rw [Cpu.store, haccess, h.self.store_pde hi']
  refine ⟨⟨h.self.setPde hi v, h.valid, h.cr3_used, fun k hk hpk => ?_, fun k hk hpk => ?_,
    fun e he k hk heq hpk => ?_, h.fresh⟩, rfl⟩
  · by_cases hki : k = i
    · subst hki
      rw [hself] at hpk
      rw [htable]
      exact (hfresh hpk).1
    · rw [pde_setPde_of_ne hki] at hpk
      rw [table_setPde_of_ne hki]
      exact h.table_ne k hk hpk
  · by_cases hki : k = i
    · subst hki
      rw [hself] at hpk
      rw [htable]
      exact (hfresh hpk).2.1
    · rw [pde_setPde_of_ne hki] at hpk
      rw [table_setPde_of_ne hki]
      exact h.table_pos k hk hpk
  · by_cases hki : k = i
    · subst hki
      rw [hself] at hpk
      rw [htable]
      cases he with
      | head =>
        have hpage : windowPage k = windowPage 1023 := heq.symm
        exact absurd hpage (by simp [windowPage]; omega)
      | tail _ he => exact (hfresh hpk).2.2 e he heq
    · rw [pde_setPde_of_ne hki] at hpk
      rw [table_setPde_of_ne hki]
      exact (h.use 1023).cached e he k hk heq hpk

lemma invlpg (h : Coherent c) (virt : ℕ) : Coherent (c.invlpg virt) where
  self := h.self
  valid := h.valid
  cr3_used := h.cr3_used
  table_ne := h.table_ne
  table_pos := h.table_pos
  cached e he := h.cached e (List.mem_filter.1 he).1
  fresh := h.fresh

lemma withPmm (h : Coherent c) {pmm : Pmm} (hvalid : pmm.Valid)
    (hcr3 : ¬ pmm.Free (c.mach.cr3 / pageSize)) :
    Coherent { c with mach := { c.mach with pmm } } where
  self := h.self.withPmm pmm
  valid := hvalid
  cr3_used := hcr3
  table_ne := h.table_ne
  table_pos := h.table_pos
  cached := h.cached
  fresh := h.fresh

/-- An allocation hands out a frame other than the directory, or fails. -/
lemma allocPage (h : Coherent c) : Coherent c.allocPage.2 ∧
    (c.allocPage.1 ≠ 0 → c.mach.NewFrame c.allocPage.1) := by
  obtain ⟨hnone, -⟩ | ⟨f, p', hsome, hpos, hfree, -, hbits, hpmm⟩ := pmmAllocPage_spec h.valid
  · rw [Cpu.allocPage, hnone]
    exact ⟨h.withPmm h.valid h.cr3_used, fun h0 => absurd rfl h0⟩
  · rw [Cpu.allocPage, hsome]
    have hlt := hfree.1.trans_le h.valid.bits_le
    refine ⟨h.withPmm ⟨hbits.trans_le h.valid.bits_le, fun h0 => ?_⟩ fun hc => ?_, fun h0 =>
      ⟨Nat.dvd_mul_left .., ?_, h0, fun heq => ?_⟩⟩
    · exact h.valid.zero_used ((hpmm 0).1 h0).1
    · exact h.cr3_used ((hpmm _).1 hc).1
    · simp only [pageSize]
      omega
    · refine h.cr3_used ?_
      rw [← heq, Nat.mul_div_cancel f (by norm_num)]
      exact hfree

/-- A frame other than the directory is freed. -/
lemma freePage (h : Coherent c) (hf : pageSize ∣ f) (h0 : f ≠ 0) (hcr3 : f ≠ c.mach.cr3) :
    Coherent (c.freePage f) := by
  obtain ⟨g, rfl⟩ := hf
  have hfree := pmmFreePage_free_iff c.mach.pmm g
  rw [Nat.mul_comm] at h0 hcr3 ⊢
  refine h.withPmm ⟨(pmmFreePage_bits ..).trans_le h.valid.bits_le, fun hz => ?_⟩ fun hc => ?_
  · obtain hz | ⟨rfl, -⟩ := (hfree 0).1 hz
    · exact h.valid.zero_used hz
    · exact h0 (Nat.zero_mul _)
  · obtain hc | ⟨hc, -⟩ := (hfree _).1 hc
    · exact h.cr3_used hc
    · refine hcr3 ?_
      rw [← hc, Nat.div_mul_cancel h.self.cr3_dvd]

/-! ### The functions -/

variable {virt flags : ℕ}

lemma getPt (h : Coherent c) (hv : virt < 2 ^ 32) : c.getPt virt =
    (if isPresent (c.mach.pde (getPdeIndex virt)) then
      some (0xFFC00000 + getPdeIndex virt * 0x1000) else none, c.use 1023) := by
  have hload : c.load (getPde virt) = (c.mach.pde (getPdeIndex virt), c.use 1023) :=
    h.load_pde (getPdeIndex_lt hv)
  rw [Cpu.getPt, hload]

lemma getPte_some (h : Coherent c) (hv : virt < 2 ^ 32)
    (hp : isPresent (c.mach.pde (getPdeIndex virt)) = true) : c.getPte virt =
      (some (0xFFC00000 + getPdeIndex virt * 0x1000 + 4 * getPteIndex virt),
        (c.use 1023).use 1023) := by
  have hload : c.load (getPde virt) = (c.mach.pde (getPdeIndex virt), c.use 1023) :=
    h.load_pde (getPdeIndex_lt hv)
  rw [Cpu.getPte, hload]
  dsimp only
  rw [if_pos hp, (h.use 1023).getPt hv, Cpu.use_mach, if_pos hp]
  rfl

lemma getPte_none (h : Coherent c) (hv : virt < 2 ^ 32)
    (hp : ¬ isPresent (c.mach.pde (getPdeIndex virt)) = true) :
    c.getPte virt = (none, c.use 1023) := by
  have hload : c.load (getPde virt) = (c.mach.pde (getPdeIndex virt), c.use 1023) :=
    h.load_pde (getPdeIndex_lt hv)
  rw [Cpu.getPte, hload]
  dsimp only
  rw [if_neg hp]

/-- The loop that zeroes a table. -/
lemma clearTable (h : Coherent c) (hi : i < 1023) (hp : isPresent (c.mach.pde i) = true) :
    Coherent (c.clearTable (0xFFC00000 + i * 0x1000)) ∧
      ∀ k < 1024, (c.clearTable (0xFFC00000 + i * 0x1000)).mach.pde k = c.mach.pde k := by
  have hfold : ∀ (l : List ℕ) (c' : Cpu), (∀ j ∈ l, j < 1024) → Coherent c' →
      (∀ k < 1024, c'.mach.pde k = c.mach.pde k) →
      Coherent (l.foldl (fun c j => c.store (0xFFC00000 + i * 0x1000 + 4 * j) 0) c') ∧
        ∀ k < 1024, (l.foldl (fun c j => c.store (0xFFC00000 + i * 0x1000 + 4 * j) 0)
          c').mach.pde k = c.mach.pde k := by
    intro l
    induction l with
    | nil =>
      intro c' _ hc' hpde
      exact ⟨hc', hpde⟩
    | cons j l ih =>
      intro c' hl hc' hpde
      have hj : j < 1024 := hl j List.mem_cons_self
      have hp' : isPresent (c'.mach.pde i) = true := by rw [hpde i (hi.trans (by norm_num)), hp]
      obtain ⟨hstore, hmach⟩ := hc'.store_pte hi hj hp' 0
      refine ih _ (fun k hk => hl k (List.mem_cons_of_mem j hk)) hstore fun k hk => ?_
      rw [hmach, pde_setPte hc'.self.cr3_dvd hk hj (hc'.table_ne i hi hp'), hpde k hk]
  exact hfold _ c (fun j hj => List.mem_range.1 hj) h fun _ _ => rfl

lemma ensurePt (h : Coherent c) (hv : virt < 0xFFC00000) (hflags : flags < pageSize)
    (hfresh : c.MapFresh virt) : Coherent (c.ensurePt virt flags).2 ∧
      ((c.ensurePt virt flags).1 = true →
        isPresent ((c.ensurePt virt flags).2.mach.pde (getPdeIndex virt)) = true) := by
  have hv32 : virt < 2 ^ 32 := hv.trans (by norm_num)
  have hi := getPdeIndex_lt_window hv
  have hload : c.load (getPde virt) = (c.mach.pde (getPdeIndex virt), c.use 1023) :=
    h.load_pde (getPdeIndex_lt hv32)
  have huse := h.use 1023
  rw [Cpu.ensurePt, hload]
  dsimp only
  by_cases hp : isPresent (c.mach.pde (getPdeIndex virt)) = true
  · rw [if_pos hp]
    exact ⟨huse, fun _ => hp⟩
  · rw [if_neg hp]
    obtain ⟨halloc, hframe⟩ := huse.allocPage
    rcases hpage : (c.use 1023).allocPage with ⟨f, c₁⟩
    rw [hpage] at halloc hframe
    have hc₁ : c₁ = { c.use 1023 with mach := { c.mach with pmm :=
        (pmmAllocPage c.mach.pmm).2 } } :=
      congrArg Prod.snd hpage.symm
    have hf : f = c.allocPage.1 := congrArg Prod.fst hpage.symm
    dsimp only at halloc hframe ⊢
    split_ifs with h0
    · exact ⟨halloc, fun hfalse => absurd hfalse (by simp)⟩
    · have hnew := hframe h0
      have hentry := newEntry_lt hnew.lt hflags
      have haddr := frameAddr_newEntry hnew.dvd hnew.lt hflags
      have hpresent : isPresent (f ||| flags ||| vmmFlagsPresent) = true := by
        rw [isPresent_or, isPresent_present, Bool.or_true]
      -- the page of the directory is all that was accessed since the call
      have hold : c₁.FreshFor (getPdeIndex virt) f := by
        intro e he heq
        rw [hc₁] at he
        cases he with
        | head =>
          exact absurd (heq.symm : windowPage (getPdeIndex virt) = windowPage 1023)
            (by simp only [windowPage]; omega)
        | tail _ he => exact hf ▸ hfresh hp (hf ▸ h0) e he heq
      obtain ⟨hstore, hmach⟩ := halloc.store_pde hi hentry fun _ => by
        rw [haddr]
        refine ⟨?_, h0, hold⟩
        rw [hc₁]
        exact hnew.ne_cr3
      have hpde : (c₁.store (0xFFFFF000 + 4 * getPdeIndex virt)
          (f ||| flags ||| vmmFlagsPresent)).mach.pde (getPdeIndex virt) =
            f ||| flags ||| vmmFlagsPresent := by
        rw [hmach, pde_setPde_self hentry]
      have hp' : isPresent ((c₁.store (0xFFFFF000 + 4 * getPdeIndex virt)
          (f ||| flags ||| vmmFlagsPresent)).mach.pde (getPdeIndex virt)) = true := by
        rw [hpde, hpresent]
      rw [getPde, hstore.getPt hv32, if_pos hp']
      obtain ⟨hclear, hkeep⟩ := (hstore.use 1023).clearTable hi hp'
      dsimp only
      refine ⟨hclear, fun _ => ?_⟩
      rw [hkeep _ (hi.trans (by norm_num)), Cpu.use_mach, hp']

/-- `vmm_map` keeps the window coherent, if a new table is fresh; the translation of the
table it wrote to stays. -/
lemma vmmMap (h : Coherent c) (phys : ℕ) (hv : virt < 0xFFC00000) (hflags : flags < pageSize)
    (hfresh : c.MapFresh virt) : Coherent (c.vmmMap virt phys flags).2 ∧
      ((c.vmmMap virt phys flags).1 = true → (windowPage (getPdeIndex virt),
        (c.vmmMap virt phys flags).2.mach.table (getPdeIndex virt) / pageSize) ∈
          (c.vmmMap virt phys flags).2.cached) := by
  have hv32 : virt < 2 ^ 32 := hv.trans (by norm_num)
  have hi := getPdeIndex_lt_window hv
  obtain ⟨hensure, hpresent⟩ := h.ensurePt hv hflags hfresh
  unfold Cpu.vmmMap
  rcases hc : c.ensurePt virt flags with ⟨ok, c₁⟩
  rw [hc] at hensure hpresent
  cases ok with
  | false => exact ⟨hensure, fun hfalse => absurd hfalse (by simp)⟩
  | true =>
    have hp := hpresent rfl
    have hload : c₁.load (getPde virt) = (c₁.mach.pde (getPdeIndex virt), c₁.use 1023) :=
      hensure.load_pde (getPdeIndex_lt hv32)
    have hor : c₁.mach.pde (getPdeIndex virt) ||| flags < 2 ^ 32 :=
      Nat.or_lt_two_pow (c₁.mach.pde_lt _) (hflags.trans (by norm_num))
    have haddr : frameAddr (c₁.mach.pde (getPdeIndex virt) ||| flags) =
        c₁.mach.table (getPdeIndex virt) := frameAddr_or_flags (c₁.mach.pde_lt _) hflags
    -- the entry names the same table as before
    obtain ⟨hstore, hmach⟩ := (hensure.use 1023).store_pde hi hor fun _ => by
      rw [haddr]
      exact ⟨hensure.table_ne _ hi hp, hensure.table_pos _ hi hp, fun e he heq =>
        (hensure.use 1023).cached e he _ (hi.trans (by norm_num)) heq hp⟩
    have hp' : isPresent (((c₁.use 1023).store (0xFFFFF000 + 4 * getPdeIndex virt)
        (c₁.mach.pde (getPdeIndex virt) ||| flags)).mach.pde (getPdeIndex virt)) = true := by
      rw [hmach, pde_setPde_self hor, isPresent_or, hp, Bool.true_or]
    have hpte := hstore.getPte_some hv32 hp'
    dsimp only
    rw [hload, getPde]
    dsimp only
    rw [hpte]
    have huse := (hstore.use 1023).use 1023
    obtain ⟨hset, hmach'⟩ := huse.store_pte hi (getPteIndex_lt virt) hp'
      (phys ||| flags ||| vmmFlagsPresent)
    refine ⟨hset.invlpg virt, fun _ => List.mem_filter.2 ⟨?_, ?_⟩⟩
    · have haccess := huse.access_eq (hi.trans (by norm_num)) (getPteIndex_lt virt) hp'
      rw [Cpu.invlpg_mach, hmach', table_setPte huse.self.cr3_dvd (hi.trans (by norm_num))
        (getPteIndex_lt virt) (huse.table_ne _ hi hp'), Cpu.store, haccess]
      exact List.mem_cons_self
    · rw [decide_eq_true_iff]
      simp only [windowPage, pageSize]
      omega

/-- The loop that counts present entries. -/
lemma countPresent (h : Coherent c) (hi : i < 1024) (hp : isPresent (c.mach.pde i) = true) :
    Coherent (c.countPresent (0xFFC00000 + i * 0x1000)).2 := by
  have hfold : ∀ (l : List ℕ) (n : ℕ) (c' : Cpu), (∀ j ∈ l, j < 1024) → Coherent c' →
      c'.mach = c.mach →
      Coherent (l.foldl (Cpu.countEntry (0xFFC00000 + i * 0x1000)) (n, c')).2 := by
    intro l
    induction l with
    | nil =>
      intro n c' _ hc' _
      exact hc'
    | cons j l ih =>
      intro n c' hl hc' hmach
      have hj : j < 1024 := hl j List.mem_cons_self
      have hload := hc'.load_pte hi hj (by rw [hmach, hp])
      rw [List.foldl_cons, Cpu.countEntry, hload]
      exact ih _ _ (fun k hk => hl k (List.mem_cons_of_mem j hk)) (hc'.use i) hmach
  exact hfold _ 0 c (fun j hj => List.mem_range.1 hj) h rfl

lemma releaseTable {r : ℕ × Cpu} (h : Coherent r.2) (hv : virt < 0xFFC00000)
    (hp : isPresent (r.2.mach.pde (getPdeIndex virt)) = true) :
    Coherent (Cpu.releaseTable virt r) := by
  have hi := getPdeIndex_lt_window hv
  have hload : r.2.load (getPde virt) = (r.2.mach.pde (getPdeIndex virt), r.2.use 1023) :=
    h.load_pde (hi.trans (by norm_num))
  unfold Cpu.releaseTable
  split_ifs
  · rw [hload]
    have hfree := (h.use 1023).freePage (r.2.mach.table_dvd (getPdeIndex virt))
      (h.table_pos _ hi hp) (h.table_ne _ hi hp)
    exact (hfree.store_pde hi (by norm_num) fun h0 => absurd h0 (by simp)).1
  · exact h

/-- `vmm_unmap` keeps the window coherent: what it leaves in the cache is the table of an
absent entry. -/
lemma vmmUnmap (h : Coherent c) (hv : virt < 0xFFC00000) : Coherent (c.vmmUnmap virt).2 := by
  have hv32 : virt < 2 ^ 32 := hv.trans (by norm_num)
  have hi := getPdeIndex_lt_window hv
  have hj := getPteIndex_lt virt
  by_cases hp : isPresent (c.mach.pde (getPdeIndex virt)) = true
  · have huse := (h.use 1023).use 1023
    have hload := huse.load_pte (getPdeIndex_lt hv32) hj hp
    rw [Cpu.vmmUnmap, h.getPte_some hv32 hp]
    dsimp only
    rw [hload]
    dsimp only
    split_ifs with he
    · obtain ⟨hstore, hmach⟩ := (huse.use (getPdeIndex virt)).store_pte hi hj hp 0
      have hinv := hstore.invlpg virt
      generalize hc₁ : (Cpu.store _ _ 0).invlpg virt = c₁ at hinv
      have hp' : isPresent (c₁.mach.pde (getPdeIndex virt)) = true := by
        have hpde := pde_setPte (v := 0) h.self.cr3_dvd (getPdeIndex_lt hv32) hj
          (h.table_ne _ hi hp)
        rw [← hc₁, Cpu.invlpg_mach, hmach]
        exact (congrArg isPresent hpde).trans hp
      rw [hinv.getPt hv32, if_pos hp']
      have hcount := (hinv.use 1023).countPresent (getPdeIndex_lt hv32) hp'
      have hcm := Cpu.countPresent_mach (c₁.use 1023) (0xFFC00000 + getPdeIndex virt * 0x1000)
      dsimp only
      generalize (c₁.use 1023).countPresent (0xFFC00000 + getPdeIndex virt * 0x1000) = r
        at hcount hcm ⊢
      exact hcount.releaseTable hv (by rw [hcm, Cpu.use_mach, hp'])
    · exact huse.use _
  · rw [Cpu.vmmUnmap, h.getPte_none hv32 hp]
    exact h.use 1023

/-! ### Regions -/

lemma pageMapped (h : Coherent c) (hv : virt < 2 ^ 32) : Coherent (c.pageMapped virt).2 := by
  by_cases hp : isPresent (c.mach.pde (getPdeIndex virt)) = true
  · have huse := (h.use 1023).use 1023
    have hload := huse.load_pte (getPdeIndex_lt hv) (getPteIndex_lt virt) hp
    rw [Cpu.pageMapped, h.getPte_some hv hp]
    dsimp only
    rw [hload]
    exact huse.use _
  · rw [Cpu.pageMapped, h.getPte_none hv hp]
    exact h.use 1023

lemma findRun {fuel page : ℕ} (h : Coherent c) (n consecutivePages firstPage : ℕ)
    (hend : page + fuel * pageSize ≤ 2 ^ 32) :
    Coherent (c.findRun n fuel page consecutivePages firstPage).2 := by
  induction fuel generalizing c page consecutivePages firstPage with
  | zero => exact h
  | succ fuel ih =>
    simp only [pageSize] at hend ih
    have hmapped := h.pageMapped (show page < 2 ^ 32 by omega)
    unfold Cpu.findRun
    dsimp only
    split_ifs <;> first | exact hmapped | exact ih hmapped _ _ (by simp only [pageSize]; omega)

lemma unmapPages {page n : ℕ} (h : Coherent c) (hend : page + n * pageSize ≤ 0xFFC00000) :
    Coherent (c.unmapPages page n) := by
  have hfold : ∀ (l : List ℕ) (c' : Cpu), (∀ i ∈ l, i < n) → Coherent c' →
      Coherent (l.foldl (fun c i => (c.vmmUnmap (page + i * pageSize)).2) c') := by
    intro l
    induction l with
    | nil =>
      intro c' _ hc'
      exact hc'
    | cons i l ih =>
      intro c' hl hc'
      have hi : i < n := hl i List.mem_cons_self
      refine ih _ (fun k hk => hl k (List.mem_cons_of_mem i hk)) (hc'.vmmUnmap ?_)
      simp only [pageSize] at hend ⊢
      omega
  exact hfold _ c (fun i hi => List.mem_range.1 hi) h

end Coherent

/-- In every `vmm_map` of the mapping loop, a new page table is fresh. -/
def Cpu.RunFresh (flags : ℕ) : ℕ → ℕ → Cpu → Prop
  | 0, _, _ => True
  | n + 1, page, c =>
    let (phys, c) := c.allocPage
    phys ≠ 0 → c.MapFresh page ∧
      ((c.vmmMap page phys flags).1 = true →
        RunFresh flags n (page + pageSize) (c.vmmMap page phys flags).2)

namespace Coherent

variable {c : Cpu} {virt flags : ℕ}

lemma mapRun {firstPage n page : ℕ} (h : Coherent c) (hflags : flags < pageSize)
    (hfirst : firstPage ≤ page) (hend : page + n * pageSize ≤ 0xFFC00000)
    (hfresh : c.RunFresh flags n page) : Coherent (c.mapRun flags firstPage n page).2 := by
  induction n generalizing c page with
  | zero => exact h
  | succ n ih =>
    have hback : firstPage + (page - firstPage) / pageSize * pageSize ≤ 0xFFC00000 := by
      have hle := Nat.div_mul_le_self (page - firstPage) pageSize
      simp only [pageSize] at hle hend ⊢
      omega
    have hv : page < 0xFFC00000 := by
      simp only [pageSize] at hend
      omega
    obtain ⟨halloc, hframe⟩ := h.allocPage
    have hcr3 : c.allocPage.2.mach.cr3 = c.mach.cr3 := rfl
    unfold Cpu.RunFresh at hfresh
    unfold Cpu.mapRun
    rcases hpage : c.allocPage with ⟨phys, c₁⟩
    rw [hpage] at halloc hframe hfresh hcr3
    dsimp only at halloc hframe hfresh hcr3 ⊢
    split_ifs with h0
    · exact halloc.unmapPages hback
    · obtain ⟨hmapFresh, hrest⟩ := hfresh h0
      have hmap := (halloc.vmmMap phys hv hflags hmapFresh).1
      have hcr3' : (c₁.vmmMap page phys flags).2.mach.cr3 = c.mach.cr3 := by
        rw [(Cpu.vmmMap_agrees ..).mach, vmmMap_cr3, hcr3]
      rcases hm : c₁.vmmMap page phys flags with ⟨ok, c₂⟩
      rw [hm] at hmap hrest hcr3'
      cases ok with
      | false =>
        have hnew := hframe h0
        refine (hmap.freePage hnew.dvd h0 ?_).unmapPages hback
        rw [hcr3']
        exact hnew.ne_cr3
      | true =>
        refine ih hmap (hfirst.trans (Nat.le_add_right ..)) ?_ (hrest rfl)
        simp only [pageSize] at hend ⊢
        omega

end Coherent

/-- If the search of `vmm_alloc_pages_region` finds a run, mapping it only makes fresh page
tables. -/
def Cpu.RegionFresh (n flags regionStart regionEnd : ℕ) (c : Cpu) : Prop :=
  let regionStart := alignUp 32 regionStart pageSize
  let regionEnd := alignDown 32 regionEnd pageSize
  n ≠ 0 → u32 (regionStart + n * pageSize) ≤ regionEnd →
    match c.findRun n ((regionEnd - regionStart) / pageSize) regionStart 0 0 with
    | (none, _) => True
    | (some firstPage, c) => c.RunFresh flags n firstPage

/-- The frames that `n` pages from `virt` on are mapped to may be freed: neither the first
one of memory nor the directory is among them. -/
def Machine.MayFree (m : Machine) (n virt : ℕ) : Prop :=
  ∀ k < n, ∀ e, m.entryOf (getPdeIndex (virt + k * pageSize)) (getPteIndex (virt + k * pageSize)) =
    some e → frameAddr e ≠ 0 ∧ frameAddr e ≠ m.cr3

namespace Coherent

variable {c : Cpu} {virt flags : ℕ}

/-- `vmm_alloc_pages_region` keeps the window coherent, if the new tables are fresh. -/
lemma vmmAllocPagesRegion {n regionStart regionEnd : ℕ} (h : Coherent c)
    (hflags : flags < pageSize) (hend : regionEnd ≤ 0xFFC00000)
    (hfresh : c.RegionFresh n flags regionStart regionEnd) :
    Coherent (c.vmmAllocPagesRegion n flags regionStart regionEnd).2 := by
  have hstart : alignUp 32 regionStart pageSize < 2 ^ 32 := by
    rw [show pageSize = 2 ^ 12 by norm_num, alignUp_two_pow (by norm_num)]
    omega
  have hstop : alignDown 32 regionEnd pageSize ≤ 0xFFC00000 := by
    rw [show pageSize = 2 ^ 12 by norm_num, alignDown_two_pow (by norm_num) (by omega)]
    omega
  unfold Cpu.RegionFresh at hfresh
  unfold Cpu.vmmAllocPagesRegion
  dsimp only at hfresh ⊢
  generalize alignUp 32 regionStart pageSize = first at hstart hfresh ⊢
  generalize alignDown 32 regionEnd pageSize = last at hstop hfresh ⊢
  have hsize : first + (last - first) / pageSize * pageSize ≤ max first last := by
    have hle := Nat.div_mul_le_self (last - first) pageSize
    omega
  split_ifs with h0 hfit
  · exact h
  · exact h
  · have hfind := h.findRun n 0 0 (show first + (last - first) / pageSize * pageSize ≤ 2 ^ 32 by
      omega)
    have hagree := Cpu.findRun_agrees c n ((last - first) / pageSize) first 0 0
    have hrun := hfresh h0 (not_lt.1 hfit)
    rcases hr : c.findRun n ((last - first) / pageSize) first 0 0 with ⟨firstPage, c₁⟩
    rw [hr] at hfind hrun hagree
    cases firstPage with
    | none => exact hfind
    | some firstPage =>
      obtain ⟨⟨t, ht⟩, hle, -⟩ := @findRun_some c.mach n _ first 0 0 firstPage
        (Nat.pos_of_ne_zero h0) (fun hne => absurd rfl hne) (fun k hk => absurd hk (by omega))
        (by rw [Nat.zero_mul, Nat.add_zero]; exact hagree.fst.symm)
      have hbound : firstPage + n * pageSize ≤ 0xFFC00000 := by
        rw [Nat.zero_add] at hle
        simp only [pageSize] at ht hle hsize ⊢
        omega
      have hmap := hfind.mapRun hflags le_rfl hbound hrun
      dsimp only
      rcases hm : c₁.mapRun flags firstPage n firstPage with ⟨ok, c₂⟩
      rw [hm] at hmap
      cases ok <;> exact hmap

lemma freePages {n page : ℕ} (h : Coherent c) (hend : page + n * pageSize ≤ 0xFFC00000)
    (hfree : c.mach.MayFree n page) : Coherent (c.freePages n page).2 := by
  induction n generalizing c page with
  | zero => exact h
  | succ n ih =>
    have hv : page < 0xFFC00000 := by
      simp only [pageSize] at hend
      omega
    have hv32 : page < 2 ^ 32 := hv.trans (by norm_num)
    have hi := getPdeIndex_lt_window hv
    have hj := getPteIndex_lt page
    by_cases hp : isPresent (c.mach.pde (getPdeIndex page)) = true
    · have huse := (h.use 1023).use 1023
      have hload := huse.load_pte (getPdeIndex_lt hv32) hj hp
      have hload' := (huse.use (getPdeIndex page)).load_pte (getPdeIndex_lt hv32) hj hp
      have ht := h.table_ne _ hi hp
      rw [Cpu.freePages, h.getPte_some hv32 hp]
      dsimp only
      rw [hload]
      dsimp only
      split_ifs with he
      · obtain ⟨h0, hne⟩ := hfree 0 (Nat.succ_pos n) _ (by
          rw [Nat.zero_mul, Nat.add_zero]
          exact if_pos ⟨hp, he⟩)
        rw [hload']
        dsimp only
        obtain ⟨hstore, hmach⟩ := ((huse.use _).use _).store_pte hi hj hp 0
        have hcoh := (hstore.invlpg page).freePage (frameAddr_dvd _) h0
          (by rw [Cpu.invlpg_mach, hmach]; exact hne)
        have hnext : u32 (page + pageSize) = page + pageSize := by
          simp only [pageSize]
          exact u32_of_lt (by omega)
        rw [hnext]
        refine ih hcoh (by simp only [pageSize] at hend ⊢; omega) fun k hk e hentry => ?_
        have hstep : page + pageSize + k * pageSize = page + (k + 1) * pageSize := by ring
        rw [hstep] at hentry
        have hlt : page + (k + 1) * pageSize < 2 ^ 32 := by
          simp only [pageSize] at hend ⊢
          omega
        rw [Cpu.freePage_mach, Cpu.invlpg_mach, hmach] at hentry ⊢
        exact hfree (k + 1) (Nat.succ_lt_succ hk) e (entryOf_setPte_zero h.self.cr3_dvd
          hj (getPdeIndex_lt hlt) (getPteIndex_lt _) ht hentry)
      · exact huse.use _
    · rw [Cpu.freePages, h.getPte_none hv32 hp]
      exact h.use 1023

/-- `vmm_free_pages` keeps the window coherent. -/
lemma vmmFreePages {n : ℕ} (h : Coherent c) (hend : virt + n * pageSize ≤ 0xFFC00000)
    (hfree : c.mach.MayFree n virt) : Coherent (c.vmmFreePages n virt).2 := by
  unfold Cpu.vmmFreePages
  split_ifs
  · exact h
  · exact h.freePages hend hfree

end Coherent

end Gummy
