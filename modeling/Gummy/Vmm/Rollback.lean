import Gummy.Vmm.FirstFit

/-!
What is left behind when `vmm_alloc_pages_region` fails.

The loops that undo a run unmap its pages with `vmm_unmap`, which takes the entries out of the
page tables but does not give back the frames they named.  `Held` describes such a frame:
nothing in the tables names it any more as a table, and no later step of the call frees it.
-/

namespace Gummy

open CWord Machine

variable {m m' : Machine} {virt phys flags f g k n start stop a firstPage : ℕ}

/-- The frame `f` is used, and not as a page table. -/
structure Held (m : Machine) (f : ℕ) : Prop where
  used : ¬ m.pmm.Free f
  table_ne : ∀ i < 1023, isPresent (m.pde i) = true → m.table i ≠ f * pageSize

/-- The frame of a page that has been mapped. -/
lemma PageMapped.held (h : Paging m) (hfree : m.pmm.Free f)
    (hpage : PageMapped m m' flags virt f) : Held m' f where
  used hg := (hpage.free f hg).2 rfl
  table_ne i hi hp := by
    by_cases hslot : i = getPdeIndex virt
    · subst hslot
      by_cases hp' : isPresent (m.pde (getPdeIndex virt)) = true
      · rw [hpage.table hp']
        exact h.table_ne_newFrame hfree (by omega) hp'
      · obtain ⟨g, htable, -, hgf⟩ := hpage.fresh hp'
        rw [htable]
        simp only [pageSize]
        omega
    · rw [hpage.pde i (by omega) hslot] at hp
      rw [Machine.table, hpage.pde i (by omega) hslot]
      exact h.table_ne_newFrame hfree (by omega) hp

/-- Giving back the frame just taken. -/
lemma freed_iff {pmm : Pmm} (hfree : m.pmm.Free g) (hbits : pmm.bitmapBits = m.pmm.bitmapBits)
    (hpmm : ∀ x, pmm.Free x ↔ m.pmm.Free x ∧ x ≠ g) (x : ℕ) :
    (pmmFreePage pmm (g * pageSize)).Free x ↔ m.pmm.Free x := by
  rw [pmmFreePage_free_iff, hpmm]
  constructor
  · rintro (hx | ⟨rfl, -⟩)
    · exact hx.1
    · exact hfree
  · intro hx
    by_cases hxg : x = g
    · exact Or.inr ⟨hxg, hbits ▸ hfree.1⟩
    · exact Or.inl ⟨hx, hxg⟩

namespace Held

lemma withPmm (h : Held m f) {pmm : Pmm} (hfree : ∀ g, pmm.Free g → m.pmm.Free g) :
    Held { m with pmm } f :=
  ⟨fun hg => h.used (hfree f hg), h.table_ne⟩

/-- Another page is mapped. -/
lemma page (h : Held m f) (hpage : PageMapped m m' flags virt g) : Held m' f where
  used hf := h.used (hpage.free f hf).1
  table_ne i hi hp := by
    by_cases hslot : i = getPdeIndex virt
    · subst hslot
      by_cases hp' : isPresent (m.pde (getPdeIndex virt)) = true
      · rw [hpage.table hp']
        exact h.table_ne _ hi hp'
      · obtain ⟨x, htable, hx, -⟩ := hpage.fresh hp'
        have hne : x ≠ f := by
          rintro rfl
          exact h.used hx
        rw [htable]
        simp only [pageSize]
        omega
    · rw [hpage.pde i (by omega) hslot] at hp
      rw [table, hpage.pde i (by omega) hslot]
      exact h.table_ne i hi hp

/-- `vmm_unmap` frees page tables only. -/
lemma unmapPage (h : Held m f) (hm : Paging m) (hv : virt < 0xFFC00000) :
    Held (unmapPage m virt) f ∧ Paging (Gummy.unmapPage m virt) := by
  have hpaging : Paging (Gummy.unmapPage m virt) := by
    rw [Gummy.unmapPage]
    obtain ⟨e, m', -, heq, hm', -⟩ | ⟨-, heq⟩ := hm.unmap hv
    · rw [heq]
      exact hm'
    · rw [heq]
      exact hm
  refine ⟨?_, hpaging⟩
  have hi := getPdeIndex_lt_window hv
  have hj := getPteIndex_lt virt
  rw [Gummy.unmapPage]
  by_cases hp : isPresent (m.pde (getPdeIndex virt)) = true ∧
      isPresent (m.pte (getPdeIndex virt) (getPteIndex virt)) = true
  swap
  · rw [vmmUnmap_of_absent hm.self (hv.trans (by norm_num)) hp]
    exact h
  have ht := hm.table_ne _ hi hp.1
  have hpde : ∀ {k}, k < 1023 →
      (m.setPte (getPdeIndex virt) (getPteIndex virt) 0).pde k = m.pde k := fun hk =>
    pde_setPte hm.self.cr3_dvd (hk.trans (by norm_num)) hj ht
  have hset : Held (m.setPte (getPdeIndex virt) (getPteIndex virt) 0) f := by
    refine ⟨h.used, fun k hk hpk => ?_⟩
    rw [hpde hk] at hpk
    rw [table, hpde hk]
    exact h.table_ne k hk hpk
  rw [vmmUnmap_of_present hm.self (hv.trans (by norm_num)) ht hp.1 hp.2]
  split_ifs
  · -- the table that goes is not the frame
    have hne := h.table_ne _ hi hp.1
    obtain ⟨t, htable⟩ := m.table_dvd (getPdeIndex virt)
    refine ⟨fun hf => ?_, fun k hk hpk => ?_⟩
    · rw [Machine.dropTable, setPde_pmm, table, hpde hi, ← table, htable, Nat.mul_comm,
        pmmFreePage_free_iff] at hf
      obtain hf | ⟨rfl, -⟩ := hf
      · exact h.used hf
      · rw [htable, Nat.mul_comm] at hne
        exact hne rfl
    · by_cases hki : k = getPdeIndex virt
      · rw [hki, Machine.dropTable, pde_setPde_self (by norm_num), isPresent_zero] at hpk
        exact absurd hpk Bool.false_ne_true
      · rw [Machine.dropTable, pde_setPde_of_ne hki] at hpk
        rw [Machine.dropTable, table_setPde_of_ne hki]
        exact hset.table_ne k hk hpk
  · exact hset

/-- The loops that undo a run. -/
lemma unmapPages (h : Held m f) (hm : Paging m) (hlt : ∀ k < n, start + k * pageSize < 0xFFC00000) :
    Held (unmapPages m start n) f := by
  have hfold : ∀ l : List ℕ, (∀ k ∈ l, k < n) → ∀ x : Machine, Held x f → Paging x →
      Held (l.foldl (fun m k => Gummy.unmapPage m (start + k * pageSize)) x) f := by
    intro l
    induction l with
    | nil => exact fun _ x hx _ => hx
    | cons k l ih =>
      intro hl x hx hpx
      obtain ⟨hx', hpx'⟩ := hx.unmapPage hpx (hlt k (hl k List.mem_cons_self))
      exact ih (fun j hj => hl j (List.mem_cons_of_mem k hj)) _ hx' hpx'
  exact hfold (List.range n) (fun k hk => List.mem_range.1 hk) m h hm

/-- The mapping loop does not free the frame, whether it succeeds or undoes what it did. -/
lemma mapRun (h : Held m f) (hm : Paging m) (hflags : flags < pageSize) (t : ℕ)
    (hle : firstPage + (t + n) * pageSize ≤ 0xFFC00000) :
    ¬ (mapRun flags firstPage n (firstPage + t * pageSize) m).2.pmm.Free f := by
  induction n generalizing m t with
  | zero => exact h.used
  | succ n ih =>
    have hpage : ∀ k < t + (n + 1), firstPage + k * pageSize < 0xFFC00000 := fun k hk =>
      (Nat.add_lt_add_left (Nat.mul_lt_mul_of_pos_right hk (by norm_num)) _).trans_le hle
    have hlt := hpage t (by omega)
    have hpages : ∀ k < t, firstPage + k * pageSize < 0xFFC00000 := fun k hk => hpage k (by omega)
    have hback : (firstPage + t * pageSize - firstPage) / pageSize = t := by
      rw [Nat.add_sub_cancel_left, Nat.mul_div_cancel t (by norm_num)]
    have hnext : firstPage + t * pageSize + pageSize = firstPage + (t + 1) * pageSize := by ring
    unfold Gummy.mapRun
    dsimp only
    rw [hback, hnext]
    obtain ⟨halloc, -⟩ | ⟨g, pmm, halloc, hne, hfree, hm', hbits, hpmm, hmap⟩ := hm.turn hlt hflags
    · rw [halloc, if_pos rfl]
      exact (h.unmapPages hm hpages).used
    rw [halloc, if_neg hne]
    dsimp only
    obtain ⟨m', heq, hmapped⟩ | ⟨heq, -, -⟩ := hmap
    · rw [heq]
      have hsum : t + 1 + n = t + (n + 1) := by omega
      exact ih (h.page hmapped) hmapped.paging (t + 1) (hsum ▸ hle)
    · rw [heq]
      -- the frame that was to be mapped is free again
      have hsame := freed_iff hfree hbits hpmm
      have hbits' : (pmmFreePage pmm (g * pageSize)).bitmapBits = m.pmm.bitmapBits :=
        (pmmFreePage_bits ..).trans hbits
      exact ((h.withPmm fun x => (hsame x).1).unmapPages
        (hm.withPmm hbits' fun x => (hsame x).1) hpages).used

end Held

/-! ### The call -/

/-- Nothing can be told from the state `m'`: every address is translated as before, and the same
frames are free. -/
structure NoTrace (m m' : Machine) : Prop where
  translate : ∀ virt, m'.translate virt = m.translate virt
  free : ∀ f, m'.pmm.Free f ↔ m.pmm.Free f

/-- If the call returns `NULL`, it leaves no trace. -/
def CleanFailure (m : Machine) (n flags start stop : ℕ) : Prop :=
  ∀ m', vmmAllocPagesRegion n flags start stop m = (none, m') → NoTrace m m'

lemma newTables_one (m : Machine) (start : ℕ) :
    m.newTables start 1 = if isPresent (m.pde (getPdeIndex start)) = true then 0 else 1 := by
  have hslots : slots start 1 = {getPdeIndex start} := by
    rw [slots_succ]
    rfl
  rw [newTables, hslots, Finset.filter_singleton]
  split_ifs <;> simp_all

/-- The first page of a run can be mapped, but not the whole run: the call fails, and the frame of
the first page stays used. -/
lemma Paging.region_leaks (h : Paging m) (hflags : flags < pageSize) (hn : n ≠ 0)
    (hle : start ≤ stop) (hstop : stop ≤ 0xFFC00000)
    (ha : IsLeast {a | m.Fits n start stop a} a) (hfirst : m.Room (1 + m.newTables a 1))
    (hfew : ¬ m.Room (n + m.newTables a n)) :
    ∃ m' f, vmmAllocPagesRegion n flags start stop m = (none, m') ∧ m.pmm.Free f ∧
      ¬ m'.pmm.Free f := by
  obtain ⟨a', ha', heq⟩ | ⟨hno, -⟩ := h.self.region_cases hn hle hstop flags
  swap
  · exact absurd ha.1 (hno a)
  obtain rfl := ha'.unique ha
  have hend := ha.1.le_stop.trans hstop
  rw [(h.mapRun hflags ha.1.dvd hend a').2 hfew, if_neg Bool.false_ne_true] at heq
  obtain ⟨n, rfl⟩ := Nat.exists_eq_add_one_of_ne_zero hn
  have hlt : a' < 0xFFC00000 := by
    have hpos : 0 < (n + 1) * pageSize := Nat.mul_pos (Nat.succ_pos n) (by norm_num)
    omega
  rw [newTables_one] at hfirst
  -- the first turn of the loop maps the page
  obtain ⟨-, hnone⟩ | ⟨f, pmm, halloc, hne, hfree, -, -, -, hmap⟩ := h.turn hlt hflags
  · obtain ⟨g, hg⟩ := (hfirst.mono (j := 0 + 1) (by omega) fun _ hg => hg).exists_free
    exact absurd hg (hnone g)
  obtain ⟨m₁, hmap, hpage⟩ | ⟨-, hp, htwo⟩ := hmap
  swap
  · rw [if_neg hp] at hfirst
    exact absurd hfirst htwo
  refine ⟨_, f, heq, hfree, ?_⟩
  have hrest := (hpage.held h hfree).mapRun (n := n) hpage.paging hflags 1
    (by rwa [Nat.add_comm 1 n])
  rw [Nat.one_mul] at hrest
  rw [Gummy.mapRun]
  dsimp only
  rw [halloc, if_neg hne]
  dsimp only
  rw [hmap]
  exact hrest

/-- Not even the first page of a run can be mapped: the call fails and leaves no trace. -/
lemma Paging.mapRun_first_fails (h : Paging m) (hflags : flags < pageSize) (hlt : a < 0xFFC00000)
    (hfew : ¬ m.Room (1 + m.newTables a 1)) : NoTrace m (Gummy.mapRun flags a (n + 1) a m).2 := by
  rw [newTables_one] at hfew
  unfold Gummy.mapRun
  dsimp only
  rw [Nat.sub_self, Nat.zero_div]
  obtain ⟨halloc, -⟩ | ⟨f, pmm, halloc, hne, hfree, -, hbits, hpmm, hmap⟩ := h.turn hlt hflags
  · rw [halloc, if_pos rfl]
    exact ⟨fun _ => rfl, fun _ => Iff.rfl⟩
  rw [halloc, if_neg hne]
  dsimp only
  obtain ⟨m', -, hpage⟩ | ⟨heq, -, -⟩ := hmap
  · refine absurd ((hpage.room 0).1 ⟨∅, by simp, by simp⟩) ?_
    rwa [Nat.zero_add]
  · rw [heq]
    exact ⟨fun _ => rfl, fun g => freed_iff hfree hbits hpmm g⟩

/-- **What a failed `vmm_alloc_pages_region` leaves behind.**  Nothing, exactly if it does not find
room for the run, or has the frames for all of it, or cannot even map the first page.  In every
other case the frames of the pages that were mapped stay used. -/
theorem region_failure_iff (h : Paging m) (hflags : flags < pageSize) (hle : start ≤ stop)
    (hstop : stop ≤ 0xFFC00000) (n : ℕ) :
    CleanFailure m n flags start stop ↔
      ∀ a, n ≠ 0 → IsLeast {a | m.Fits n start stop a} a →
        m.Room (n + m.newTables a n) ∨ ¬ m.Room (1 + m.newTables a 1) := by
  constructor
  · intro hall a hn ha
    by_contra hcon
    obtain ⟨hfew, hfirst⟩ := not_or.1 hcon
    obtain ⟨m', f, heq, hfree, hused⟩ :=
      h.region_leaks hflags hn hle hstop ha (not_not.1 hfirst) hfew
    exact hused (((hall m' heq).free f).2 hfree)
  · intro hcond m' heq
    by_cases hn : n = 0
    · rw [vmmAllocPagesRegion, if_pos hn] at heq
      obtain rfl := (Prod.mk.inj heq).2
      exact ⟨fun _ => rfl, fun _ => Iff.rfl⟩
    obtain ⟨a, ha, heq'⟩ | ⟨-, heq'⟩ := h.self.region_cases hn hle hstop flags <;>
      rw [heq'] at heq
    · have hend := ha.1.le_stop.trans hstop
      obtain ⟨hres, rfl⟩ := Prod.mk.inj heq
      obtain hroom | hfew := hcond a hn ha
      · obtain ⟨m', hrun, -⟩ := (h.mapRun hflags ha.1.dvd hend a).1 hroom
        rw [hrun, if_pos rfl] at hres
        cases hres
      · obtain ⟨n, rfl⟩ := Nat.exists_eq_add_one_of_ne_zero hn
        have hpos : 0 < (n + 1) * pageSize := Nat.mul_pos (Nat.succ_pos n) (by norm_num)
        exact h.mapRun_first_fails hflags (by omega) hfew
    · obtain rfl := (Prod.mk.inj heq).2
      exact ⟨fun _ => rfl, fun _ => Iff.rfl⟩

/-- With room for all the frames the call does not fail. -/
lemma region_failure_boot : CleanFailure bootMachine 2 7 0x400000 0x500000 := by
  refine (region_failure_iff bootTables_bootMachine.paging (by norm_num [pageSize]) (by norm_num)
    (by norm_num) 2).2 fun a _ _ => Or.inl (bootMachine_room.mono ?_ fun _ hf => hf)
  have := bootMachine.newTables_le a 2
  omega

/-- 200 pages, where 110 frames are free. -/
lemma region_failure_leaks : ¬ CleanFailure bootMachine 200 7 0x400000 0x500000 := by
  have hone := bootMachine.newTables_le 0x400000 1
  have hfew : ¬ bootMachine.Room (200 + bootMachine.newTables 0x400000 200) := by
    rintro ⟨F, hcard, hF⟩
    have hsub : F ⊆ Finset.Ico 0x12 0x80 := fun f hf =>
      Finset.mem_Ico.2 ((bootPmm_free_iff f).1 (hF f hf))
    have hle := Finset.card_le_card hsub
    simp at hle
    omega
  obtain ⟨m', f, heq, hfree, hused⟩ := bootTables_bootMachine.paging.region_leaks
    (show 7 < pageSize by norm_num) (by norm_num) (by norm_num) (by norm_num)
    (bootMachine_isLeast (by norm_num) 0x500000 (by norm_num [pageSize]))
    (bootMachine_room.mono (by omega) fun _ hf => hf) hfew
  intro hclean
  exact hused (((hclean m' heq).free f).2 hfree)

end Gummy
