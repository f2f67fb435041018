import Gummy.Vmm.Coherence

/-!
Runs of the memory manager on a processor that caches translations.

As long as new page tables are fresh, no access through the window is stale.  Nothing else
protects the window: no function drops a translation of it, so that a table which is
released and created again in another frame is zeroed through the old translation.
-/

namespace Gummy

open CWord Machine
open Transition (Reachable restrict)

/-! ### Runs -/

/-- A call of one of the four functions that change the mappings of the active directory. -/
inductive VmmCall
  | map (virt phys flags : ℕ)
  | unmap (virt : ℕ)
  | alloc (n flags regionStart regionEnd : ℕ)
  | free (n virt : ℕ)

namespace VmmCall

/-- The call stays outside the window, its flags are flags, and the frames it frees may be
freed. -/
def Ok (c : Cpu) : VmmCall → Prop
  | map virt _ flags => virt < 0xFFC00000 ∧ flags < 8
  | unmap virt => virt < 0xFFC00000
  | alloc _ flags _ regionEnd => flags < 8 ∧ regionEnd ≤ 0xFFC00000
  | free n virt => virt + n * pageSize ≤ 0xFFC00000 ∧ c.mach.MayFree n virt

def run (c : Cpu) : VmmCall → Cpu
  | map virt phys flags => (c.vmmMap virt phys flags).2
  | unmap virt => (c.vmmUnmap virt).2
  | alloc n flags regionStart regionEnd => (c.vmmAllocPagesRegion n flags regionStart regionEnd).2
  | free n virt => (c.vmmFreePages n virt).2

/-- The page tables that the call creates are fresh. -/
def Fresh (c : Cpu) : VmmCall → Prop
  | map virt _ _ => c.MapFresh virt
  | alloc n flags regionStart regionEnd => c.RegionFresh n flags regionStart regionEnd
  | _ => True

end VmmCall

/-- After a write of `cr3`: the tables are in order, and nothing is cached. -/
def CpuInit (c : Cpu) : Prop := Paging c.mach ∧ c.cached = [] ∧ c.stale = false

def CpuStep (c : Cpu) (call : VmmCall) (c' : Cpu) : Prop := call.Ok c ∧ c' = call.run c

lemma CpuInit.coherent {c : Cpu} (h : CpuInit c) : Coherent c where
  self := h.1.self
  valid := h.1.valid
  cr3_used := by
    have hused := h.1.used 1023 (by norm_num) h.1.self.present
    rwa [h.1.self.self] at hused
  table_ne := h.1.table_ne
  table_pos := h.1.table_pos
  cached e he := by
    rw [h.2.1] at he
    cases he
  fresh := h.2.2

lemma Coherent.step {c c' : Cpu} {call : VmmCall} (h : Coherent c) (hs : CpuStep c call c')
    (hfresh : call.Fresh c) : Coherent c' := by
  obtain ⟨hok, rfl⟩ := hs
  cases call with
  | map virt phys flags => exact (h.vmmMap phys hok.1 (hok.2.trans (by norm_num)) hfresh).1
  | unmap virt => exact h.vmmUnmap hok
  | alloc n flags regionStart regionEnd =>
    exact h.vmmAllocPagesRegion (hok.1.trans (by norm_num)) hok.2 hfresh
  | free n virt => exact h.vmmFreePages hok.1 hok.2

/-- **The window is coherent while new page tables are fresh.**  In every run of calls in one
address space, none of which creates a page table while an older one of the same slot is still
cached in another frame, every access through the window reaches the table that the directory
names. -/
theorem window_coherent_while_fresh {c : Cpu}
    (h : Reachable CpuInit (restrict CpuStep fun c call => call.Fresh c) c) :
    c.stale = false := by
  have hc : Coherent c := h.invariant (fun _ h => h.coherent) fun _ _ _ hc hs => hc.step hs.1 hs.2
  exact hc.fresh

/-- The processor after `vmm_init`. -/
def bootCpu : Cpu := ⟨bootMachine, [], false⟩

lemma cpuInit_bootCpu : CpuInit bootCpu := ⟨bootTables_bootMachine.paging, rfl, rfl⟩

theorem window_coherent_while_fresh_boot :
    ((VmmCall.map 0x400000 0x11000 7).run bootCpu).stale = false := by
  have hok : (VmmCall.map 0x400000 0x11000 7).Ok bootCpu := ⟨by norm_num, by norm_num⟩
  have hfresh : (VmmCall.map 0x400000 0x11000 7).Fresh bootCpu := by
    intro _ _ e he
    cases he
  exact window_coherent_while_fresh (.next _ (.start cpuInit_bootCpu) ⟨⟨hok, rfl⟩, hfresh⟩)

/-! ### Stale translations -/

namespace Cpu

/-- A stale access stays one, and the translations of the window stay cached. -/
structure Keeps (c c' : Cpu) : Prop where
  stale : c.stale = true → c'.stale = true
  cached : ∀ e ∈ c.cached, 0xFFC00 ≤ e.1 → e ∈ c'.cached

variable {c c' c'' : Cpu} {virt : ℕ}

lemma Keeps.refl (c : Cpu) : Keeps c c := ⟨id, fun _ he _ => he⟩

lemma Keeps.trans (h : Keeps c c') (h' : Keeps c' c'') : Keeps c c'' :=
  ⟨fun hs => h'.stale (h.stale hs), fun e he hw => h'.cached e (h.cached e he hw) hw⟩

lemma keeps_foldl {β : Type*} {f : Cpu → β → Cpu} (hf : ∀ c b, Keeps c (f c b)) (l : List β)
    (c : Cpu) : Keeps c (l.foldl f c) := by
  induction l generalizing c with
  | nil => exact .refl c
  | cons b l ih => exact (hf c b).trans (ih _)

lemma keeps_access (c : Cpu) (virt : ℕ) : Keeps c (c.access virt) := by
  unfold access
  split
  · exact .refl c
  · refine ⟨fun hs => ?_, fun e he _ => List.mem_cons_of_mem _ he⟩
    dsimp only
    rw [hs, Bool.true_or]

lemma keeps_load (c : Cpu) (virt : ℕ) : Keeps c (c.load virt).2 := keeps_access c virt

lemma keeps_store (c : Cpu) (virt v : ℕ) : Keeps c (c.store virt v) :=
  ⟨(keeps_access c virt).stale, (keeps_access c virt).cached⟩

lemma keeps_invlpg (c : Cpu) (hv : virt < 0xFFC00000) : Keeps c (c.invlpg virt) := by
  refine ⟨id, fun e he hw => List.mem_filter.2 ⟨he, ?_⟩⟩
  rw [decide_eq_true_iff]
  simp only [pageSize]
  omega

lemma keeps_allocPage (c : Cpu) : Keeps c c.allocPage.2 := ⟨id, fun _ he _ => he⟩

lemma keeps_freePage (c : Cpu) (page : ℕ) : Keeps c (c.freePage page) := ⟨id, fun _ he _ => he⟩

lemma keeps_getPt (c : Cpu) (virt : ℕ) : Keeps c (c.getPt virt).2 := keeps_load c _

lemma keeps_getPte (c : Cpu) (virt : ℕ) : Keeps c (c.getPte virt).2 := by
  unfold getPte
  dsimp only
  split_ifs
  · exact (keeps_load c _).trans (keeps_getPt _ virt)
  · exact keeps_load c _

lemma keeps_clearTable (c : Cpu) (pt : ℕ) : Keeps c (c.clearTable pt) :=
  keeps_foldl (fun c i => keeps_store c (pt + 4 * i) 0) _ c

lemma keeps_ensurePt (c : Cpu) (virt flags : ℕ) : Keeps c (c.ensurePt virt flags).2 := by
  unfold ensurePt
  dsimp only
  split_ifs
  · exact keeps_load c _
  · exact (keeps_load c _).trans (keeps_allocPage _)
  · have hload := (keeps_load c (getPde virt)).trans (keeps_allocPage _)
    generalize hc : Cpu.store _ (getPde virt) _ = c₁
    have hstore : Keeps c c₁ := hc ▸ hload.trans (keeps_store _ _ _)
    have hpt := keeps_getPt c₁ virt
    rcases hpair : c₁.getPt virt with ⟨pt, c₂⟩
    rw [hpair] at hpt
    cases pt with
    | none => exact hstore.trans hpt
    | some pt =>
      have hclear := keeps_clearTable c₂ pt
      dsimp only
      generalize c₂.clearTable pt = c₃ at hclear ⊢
      exact (hstore.trans hpt).trans hclear

lemma keeps_ensured (c : Cpu) (hv : virt < 0xFFC00000) (phys flags : ℕ) :
    Keeps (c.ensurePt virt flags).2 (c.vmmMap virt phys flags).2 := by
  unfold vmmMap
  rcases c.ensurePt virt flags with ⟨ok, c₁⟩
  cases ok with
  | false => exact .refl c₁
  | true =>
    dsimp only
    generalize hc : Cpu.store _ (getPde virt) _ = c₂
    have hstore : Keeps c₁ c₂ := hc ▸ (keeps_load c₁ _).trans (keeps_store _ _ _)
    have hpte := keeps_getPte c₂ virt
    rcases hpair : c₂.getPte virt with ⟨pte, c₃⟩
    rw [hpair] at hpte
    cases pte with
    | none => exact (hstore.trans hpte).trans (keeps_invlpg c₃ hv)
    | some pte => exact ((hstore.trans hpte).trans (keeps_store c₃ _ _)).trans (keeps_invlpg _ hv)

/-- `vmm_map` invalidates only the page that it maps. -/
lemma keeps_vmmMap (c : Cpu) (hv : virt < 0xFFC00000) (phys flags : ℕ) :
    Keeps c (c.vmmMap virt phys flags).2 :=
  (keeps_ensurePt c virt flags).trans (keeps_ensured c hv phys flags)

lemma keeps_countPresent (c : Cpu) (pt : ℕ) : Keeps c (c.countPresent pt).2 := by
  have hfold : ∀ (l : List ℕ) (n : ℕ) (c : Cpu),
      Keeps c (l.foldl (countEntry pt) (n, c)).2 := by
    intro l
    induction l with
    | nil =>
      intro n c
      exact .refl c
    | cons i l ih =>
      intro n c
      exact (keeps_load c (pt + 4 * i)).trans (ih _ _)
  exact hfold _ 0 c

lemma keeps_releaseTable (virt : ℕ) (r : ℕ × Cpu) : Keeps r.2 (releaseTable virt r) := by
  unfold releaseTable
  split_ifs
  · exact ((keeps_load r.2 _).trans (keeps_freePage _ _)).trans (keeps_store _ _ _)
  · exact .refl r.2

/-- `vmm_unmap` invalidates only the page that it unmaps, not that of the table which it
releases. -/
lemma keeps_vmmUnmap (c : Cpu) (hv : virt < 0xFFC00000) : Keeps c (c.vmmUnmap virt).2 := by
  have hpte := keeps_getPte c virt
  unfold vmmUnmap
  rcases hpair : c.getPte virt with ⟨pte, c₁⟩
  rw [hpair] at hpte
  cases pte with
  | none => exact hpte
  | some pte =>
    have hload := hpte.trans (keeps_load c₁ pte)
    dsimp only
    split_ifs
    · generalize hc : (Cpu.store _ pte 0).invlpg virt = c₂
      have hclear : Keeps c c₂ := hc ▸ (hload.trans (keeps_store _ _ _)).trans (keeps_invlpg _ hv)
      have hpt := keeps_getPt c₂ virt
      rcases hpair' : c₂.getPt virt with ⟨pt, c₃⟩
      rw [hpair'] at hpt
      cases pt with
      | none => exact hclear.trans hpt
      | some pt =>
        have hcount := keeps_countPresent c₃ pt
        dsimp only
        generalize c₃.countPresent pt = r at hcount ⊢
        exact ((hclear.trans hpt).trans hcount).trans (keeps_releaseTable virt r)
    · exact hload

/-- Zeroing a table through an older translation is a stale access. -/
lemma clearTable_stale {c : Cpu} {i : ℕ} {e : ℕ × ℕ} (h : c.mach.SelfMapped) (hi : i < 1024)
    (hp : isPresent (c.mach.pde i) = true) (he : e ∈ c.cached) (hpage : e.1 = windowPage i)
    (hframe : e.2 * pageSize ≠ c.mach.table i) :
    (c.clearTable (0xFFC00000 + i * 0x1000)).stale = true := by
  have hfirst : (c.access (0xFFC00000 + i * 0x1000 + 4 * 0)).stale = true := by
    have htable : (c.mach.table i + 4 * 0) / pageSize * pageSize = c.mach.table i := by
      rw [Nat.mul_zero, Nat.add_zero, Nat.div_mul_cancel (c.mach.table_dvd i)]
    have hwindow : (0xFFC00000 + i * 0x1000 + 4 * 0) / pageSize = windowPage i := by
      simp only [pageSize, windowPage]
      omega
    rw [access, h.translate_window hi (by norm_num) hp]
    dsimp only
    rw [Bool.or_eq_true]
    refine Or.inr (List.any_eq_true.2 ⟨e, he, decide_eq_true ⟨hpage.trans hwindow.symm, ?_⟩⟩)
    intro heq
    rw [heq, htable] at hframe
    exact hframe rfl
  rw [clearTable, List.range_succ_eq_map, List.foldl_cons]
  exact (keeps_foldl (fun c i => keeps_store c _ 0) _ _).stale hfirst

end Cpu

/-- If `vmm_map` creates a page table for a slot of which an older one is still cached in
another frame, it zeroes the older one. -/
lemma Coherent.stale_of_not_fresh {c : Cpu} {virt flags : ℕ} (h : Coherent c) (phys : ℕ)
    (hv : virt < 0xFFC00000) (hflags : flags < pageSize) (hnot : ¬ c.MapFresh virt) :
    (c.vmmMap virt phys flags).2.stale = true := by
  have hv32 : virt < 2 ^ 32 := hv.trans (by norm_num)
  have hi := getPdeIndex_lt_window hv
  have huse := h.use 1023
  obtain ⟨halloc, hframe⟩ := huse.allocPage
  have hload : c.load (getPde virt) = (c.mach.pde (getPdeIndex virt), c.use 1023) :=
    h.load_pde (getPdeIndex_lt hv32)
  simp only [Cpu.MapFresh, Cpu.FreshFor, not_forall] at hnot
  obtain ⟨hp, h0, e, he, hpage, hne⟩ := hnot
  refine (Cpu.keeps_ensured c hv phys flags).stale ?_
  rw [Cpu.ensurePt, hload]
  dsimp only
  rw [if_neg hp]
  rcases hpair : (c.use 1023).allocPage with ⟨f, c₁⟩
  have hf : f = c.allocPage.1 := congrArg Prod.fst hpair.symm
  have hcached : c₁.cached = (c.use 1023).cached := congrArg (fun r => r.2.cached) hpair.symm
  rw [hpair] at halloc hframe
  dsimp only at halloc hframe ⊢
  rw [if_neg (hf ▸ h0)]
  have hnew := hframe (hf ▸ h0)
  have hentry := newEntry_lt hnew.lt hflags
  generalize hc₂ : c₁.store (getPde virt) (f ||| flags ||| vmmFlagsPresent) = c₂
  have hmach : c₂.mach = c₁.mach.setPde (getPdeIndex virt) (f ||| flags ||| vmmFlagsPresent) := by
    rw [← hc₂, Cpu.store_mach, halloc.self.store_getPde hv32]
  have hself : c₂.mach.SelfMapped := hmach ▸ halloc.self.setPde hi _
  have hpde : c₂.mach.pde (getPdeIndex virt) = f ||| flags ||| vmmFlagsPresent := by
    rw [hmach, pde_setPde_self hentry]
  have hp₂ : isPresent (c₂.mach.pde (getPdeIndex virt)) = true := by
    rw [hpde, isPresent_or, isPresent_present, Bool.or_true]
  have hpt : c₂.getPt virt =
      (some (0xFFC00000 + getPdeIndex virt * 0x1000), (c₂.getPt virt).2) := by
    refine Prod.ext ?_ rfl
    rw [(Cpu.getPt_agrees c₂ virt).fst, hself.getPt_eq hv32, if_pos hp₂]
  -- the window page of the slot is still cached when the new table is zeroed
  have hkept : e ∈ (c₂.getPt virt).2.cached := by
    have hmem : e ∈ c₂.cached := by
      rw [← hc₂]
      refine (Cpu.keeps_store c₁ _ _).cached e ?_ ?_
      · rw [hcached]
        exact List.mem_cons_of_mem _ he
      · rw [hpage]
        exact Nat.le_add_right ..
    refine (Cpu.keeps_getPt c₂ virt).cached e hmem ?_
    rw [hpage]
    exact Nat.le_add_right ..
  have hmach₃ := (Cpu.getPt_agrees c₂ virt).mach
  rw [hpt]
  dsimp only at hmach₃ ⊢
  refine Cpu.clearTable_stale (by rw [hmach₃]; exact hself) (hi.trans (by norm_num))
    (by rw [hmach₃, hp₂]) hkept hpage ?_
  rw [hmach₃, table, hpde, frameAddr_newEntry hnew.dvd hnew.lt hflags, hf]
  exact hne

/-! ### A table that moves -/

/-- The calls of a run in which a page table moves: the table of `0x400000` is released, its
frame becomes the table of `0x800000`, and the table of `0x400000` is created again. -/
def movedTable : List VmmCall :=
  [.map 0x400000 0x11000 7, .unmap 0x400000, .map 0x800000 0x11000 7, .map 0x400000 0x11000 7]

/-- The run is stale wherever the two slots are empty and two frames are free. -/
lemma movedTable_run {c : Cpu} {f f' : ℕ} (h : CpuInit c) (hp : ¬ isPresent (c.mach.pde 1) = true)
    (hp' : ¬ isPresent (c.mach.pde 2) = true) (hfree : c.mach.pmm.Free f)
    (hlow : ∀ g < f, ¬ c.mach.pmm.Free g) (hfree' : c.mach.pmm.Free f') (hne : f' ≠ f) :
    (movedTable.foldl (fun c call => call.run c) c).stale = true := by
  have hflags : 7 < pageSize := by norm_num
  have hdvd : pageSize ∣ 0x11000 := by decide
  have hv : 0x400000 < 0xFFC00000 := by norm_num
  have hv' : 0x800000 < 0xFFC00000 := by norm_num
  have hvu : 0x400000 < 0xC0000000 := by norm_num
  obtain ⟨m₁, heq₁, hm₁, hp₁, ht₁, hpde₁, hfree₁, hbits₁, hentry₁⟩ :=
    h.1.map_new hv hdvd (by norm_num) hflags hp hfree hlow
  obtain ⟨m₂, heq₂, hm₂, hp₂, hpde₂, hfree₂⟩ := hm₁.unmap_last hvu
    ((hentry₁ _ (getPteIndex_lt _)).trans (if_pos rfl))
    (fun l hl hne => (hentry₁ l hl).trans (if_neg hne))
  -- the frame of the released table is the lowest free one again
  have hfree₂' : ∀ g, m₂.pmm.Free g ↔ c.mach.pmm.Free g := by
    intro g
    rw [hfree₂, hfree₁, ht₁, hbits₁]
    constructor
    · rintro (hg | ⟨hg, -⟩)
      · exact hg.1
      · rwa [Nat.eq_of_mul_eq_mul_right (by norm_num) hg]
    · intro hg
      by_cases hgf : g = f
      · exact Or.inr ⟨by rw [hgf], hg.1⟩
      · exact Or.inl ⟨hg, hgf⟩
  have hp₂' : ¬ isPresent (m₂.pde 2) = true := by
    rw [hpde₂ 2 (by norm_num) (by decide), hpde₁ 2 (by norm_num) (by decide)]
    exact hp'
  obtain ⟨m₃, heq₃, hm₃, -, ht₃, hpde₃, hfree₃, -, -⟩ :=
    hm₂.map_new hv' hdvd (by norm_num) hflags hp₂'
      ((hfree₂' f).2 hfree) (fun g hg hg' => hlow g hg ((hfree₂' g).1 hg'))
  have hc := h.coherent
  obtain ⟨hc₁, hused⟩ := hc.vmmMap 0x11000 hv hflags
    (fun _ _ e he => by rw [h.2.1] at he; cases he)
  have hmach₁ := (Cpu.vmmMap_agrees c 0x400000 0x11000 7).mach
  have hok₁ := (Cpu.vmmMap_agrees c 0x400000 0x11000 7).fst
  rw [heq₁] at hmach₁ hok₁
  have hcached := hused hok₁
  rw [hmach₁, ht₁] at hcached
  simp only [movedTable, List.foldl_cons, List.foldl_nil, VmmCall.run]
  generalize (c.vmmMap 0x400000 0x11000 7).2 = c₁ at hc₁ hcached hmach₁ ⊢
  have hc₂ := hc₁.vmmUnmap hv
  have hkept₂ := (Cpu.keeps_vmmUnmap c₁ hv).cached _ hcached
    (Nat.le_add_right ..)
  have hmach₂ := (Cpu.vmmUnmap_agrees c₁ 0x400000).mach
  rw [hmach₁, heq₂] at hmach₂
  generalize (c₁.vmmUnmap 0x400000).2 = c₂ at hc₂ hkept₂ hmach₂ ⊢
  have hkeep₃ := Cpu.keeps_vmmMap c₂ hv' 0x11000 7
  have hmach₃ := (Cpu.vmmMap_agrees c₂ 0x800000 0x11000 7).mach
  have hkept₃ := hkeep₃.cached _ hkept₂ (Nat.le_add_right ..)
  rw [hmach₂, heq₃] at hmach₃
  by_cases hfresh : c₂.MapFresh 0x800000
  · have hc₃ := (hc₂.vmmMap 0x11000 hv' hflags hfresh).1
    generalize (c₂.vmmMap 0x800000 0x11000 7).2 = c₃ at hc₃ hkept₃ hmach₃ ⊢
    refine hc₃.stale_of_not_fresh 0x11000 hv hflags fun hfresh₄ => ?_
    have hp₃ : ¬ isPresent (c₃.mach.pde 1) = true := by
      rw [hmach₃, hpde₃ 1 (by norm_num) (by decide)]
      exact hp₂
    obtain ⟨-, hnone⟩ | ⟨f₃, p₃, halloc, hpos, hfree₄, -⟩ := pmmAllocPage_spec hc₃.valid
    · refine hnone f' ?_
      rw [hmach₃, hfree₃, hfree₂']
      exact ⟨hfree', hne⟩
    · have halloc₃ : c₃.allocPage.1 = f₃ * pageSize := congrArg Prod.fst halloc
      have hpos₃ : c₃.allocPage.1 ≠ 0 := by
        rw [halloc₃]
        exact (Nat.mul_pos hpos (by norm_num)).ne'
      have hsame := hfresh₄ hp₃ hpos₃ _ hkept₃ rfl
      dsimp only at hsame
      rw [halloc₃, Nat.mul_div_cancel f (by norm_num)] at hsame
      rw [hmach₃, hfree₃] at hfree₄
      exact hfree₄.2 (Nat.eq_of_mul_eq_mul_right (by norm_num) hsame).symm
  · have hstale := hc₂.stale_of_not_fresh 0x11000 hv' hflags hfresh
    exact (Cpu.keeps_vmmMap _ hv 0x11000 7).stale hstale

theorem movedTable_stale : CpuInit bootCpu ∧
    Reachable CpuInit CpuStep (movedTable.foldl (fun c call => call.run c) bootCpu) ∧
    (movedTable.foldl (fun c call => call.run c) bootCpu).stale = true := by
  have hpde : ∀ k, k = 1 ∨ k = 2 → ¬ isPresent (bootCpu.mach.pde k) = true := by
    intro k hk
    have hzero : bootCpu.mach.pde k = 0 :=
      bootTables_bootMachine.others k (by omega) (by omega)
    rw [hzero, isPresent_zero]
    exact Bool.false_ne_true
  have hfree : ∀ g, bootCpu.mach.pmm.Free g ↔ 0x12 ≤ g ∧ g < 0x80 := bootPmm_free_iff
  have hrun : ∀ (calls : List VmmCall) (c : Cpu), Reachable CpuInit CpuStep c →
      (∀ call ∈ calls, ∀ c, call.Ok c) →
      Reachable CpuInit CpuStep (calls.foldl (fun c call => call.run c) c) := by
    intro calls
    induction calls with
    | nil =>
      intro c hc _
      exact hc
    | cons call calls ih =>
      intro c hc hok
      exact ih _ (.next call hc ⟨hok call List.mem_cons_self c, rfl⟩)
        fun call' h' => hok call' (List.mem_cons_of_mem _ h')
  refine ⟨cpuInit_bootCpu, hrun movedTable bootCpu (.start cpuInit_bootCpu) ?_,
    movedTable_run cpuInit_bootCpu (hpde 1 (.inl rfl)) (hpde 2 (.inr rfl))
      ((hfree 0x12).2 (by omega)) (fun g hg hg' => ?_) ((hfree 0x13).2 (by omega)) (by norm_num)⟩
  · simp [movedTable, VmmCall.Ok]
  · have hg'' := (hfree g).1 hg'
    omega

end Gummy
