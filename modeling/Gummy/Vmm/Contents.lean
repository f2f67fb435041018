import Gummy.Vmm.Mapped

/-!
Memory behind mapped pages.

A page that is mapped in one place only can be written without touching any table, and
without touching what other pages show.
-/

namespace Gummy

open CWord Machine

variable {m : Machine} {D : Owners} {S : Set ℕ}

/-! ### One frame of memory -/

/-- Two memories differ in the frame `g` at most. -/
def AgreeOff (g : ℕ) (P Q : ByteMem) : Prop := ∀ x, x < g ∨ g + pageSize ≤ x → P x = Q x

lemma AgreeOff.trans {g : ℕ} {P Q R : ByteMem} (h : AgreeOff g P Q) (h' : AgreeOff g Q R) :
    AgreeOff g P R := fun x hx => (h x hx).trans (h' x hx)

lemma AgreeOff.read32 {f g k : ℕ} {P Q : ByteMem} (h : AgreeOff g P Q) (hg : pageSize ∣ g)
    (hf : pageSize ∣ f) (hne : f ≠ g) (hk : k < 1024) :
    P.read32 (f + 4 * k) = Q.read32 (f + 4 * k) := by
  refine ByteMem.read32_congr fun x _ _ => h x ?_
  obtain ⟨a, rfl⟩ := hg
  obtain ⟨b, rfl⟩ := hf
  simp only [pageSize] at *
  omega

lemma agreeOff_write32 {g k v : ℕ} (P : ByteMem) (hk : k < 1024) :
    AgreeOff g (P.write32 (g + 4 * k) v) P := by
  intro x hx
  refine ByteMem.write32_of_disjoint _ _ ?_
  simp only [pageSize] at hx
  omega

/-- Words written to a frame, one after the other. -/
def writeAll (P : ByteMem) (g : ℕ) (is : List ℕ) (v : ℕ → ℕ) : ByteMem :=
  is.foldl (fun P i => P.write32 (g + 4 * i) (v i)) P

section WriteAll

variable {P : ByteMem} {g : ℕ} {is : List ℕ} {v : ℕ → ℕ}

lemma agreeOff_writeAll (his : ∀ i ∈ is, i < 1024) : AgreeOff g (writeAll P g is v) P := by
  induction is generalizing P with
  | nil => exact fun _ _ => rfl
  | cons i is ih =>
    exact (ih fun k hk => his k (List.mem_cons_of_mem i hk)).trans
      (agreeOff_write32 P (his i List.mem_cons_self))

lemma read32_writeAll (hv : ∀ i ∈ is, v i < 2 ^ 32) {k : ℕ} :
    (writeAll P g is v).read32 (g + 4 * k) = if k ∈ is then v k else P.read32 (g + 4 * k) := by
  induction is generalizing P with
  | nil => rfl
  | cons i is ih =>
    have hrest := ih (P := P.write32 (g + 4 * i) (v i)) fun k hk =>
      hv k (List.mem_cons_of_mem i hk)
    rw [writeAll, List.foldl_cons, ← writeAll, hrest]
    by_cases hk : k ∈ is
    · rw [if_pos hk, if_pos (List.mem_cons_of_mem i hk)]
    · rw [if_neg hk]
      by_cases hki : k = i
      · rw [hki, if_pos List.mem_cons_self]
        exact ByteMem.read32_write32_same _ (hv i List.mem_cons_self)
      · rw [if_neg fun hmem => (List.mem_cons.1 hmem).elim hki hk]
        exact ByteMem.read32_write32_of_disjoint _ _ (by omega)

end WriteAll

/-! ### Writing through a page -/

/-- The page at `page` shows the frame `g`, which is neither the directory nor the table that
maps it. -/
structure Shows (m : Machine) (page g : ℕ) : Prop where
  cr3_dvd : pageSize ∣ m.cr3
  frame_dvd : pageSize ∣ g
  page_dvd : pageSize ∣ page
  page_lt : page < 2 ^ 32
  pde : isPresent (m.pde (getPdeIndex page)) = true
  pte : isPresent (m.pte (getPdeIndex page) (getPteIndex page)) = true
  frame : frameAddr (m.pte (getPdeIndex page) (getPteIndex page)) = g
  ne_cr3 : g ≠ m.cr3
  ne_table : g ≠ m.table (getPdeIndex page)

namespace Shows

variable {page g x : ℕ}

lemma translate (h : Shows m page g) (hx : x < pageSize) :
    m.translate (page + x) = some (g + x) := by
  obtain ⟨a, ha⟩ := h.page_dvd
  have hpage : (page + x) / pageSize = page / pageSize := by
    rw [ha, Nat.mul_add_div (by norm_num), Nat.div_eq_of_lt hx, Nat.add_zero,
      Nat.mul_div_cancel_left a (by norm_num)]
  have hmod : (page + x) % pageSize = x := by
    rw [ha, Nat.mul_add_mod, Nat.mod_eq_of_lt hx]
  obtain ⟨hi, hj⟩ := page_eq_iff.2 hpage
  rw [translate_eq_walk, walk, hi, hj]
  rw [if_pos ⟨h.pde, h.pte⟩, Option.map_some, h.frame, hmod]

/-- What is written there is not part of the walk. -/
lemma agreeOff (h : Shows m page g) {P : ByteMem} (hP : AgreeOff g P m.phys) :
    Shows { m with phys := P } page g := by
  have hpde : ∀ i < 1024, ({ m with phys := P } : Machine).pde i = m.pde i := fun i hi =>
    hP.read32 h.frame_dvd h.cr3_dvd h.ne_cr3.symm hi
  have hi := getPdeIndex_lt h.page_lt
  have htable : ({ m with phys := P } : Machine).table (getPdeIndex page) =
      m.table (getPdeIndex page) := congrArg frameAddr (hpde _ hi)
  have hpte : ({ m with phys := P } : Machine).pte (getPdeIndex page) (getPteIndex page) =
      m.pte (getPdeIndex page) (getPteIndex page) := by
    rw [Machine.pte, htable]
    exact hP.read32 h.frame_dvd (m.table_dvd _) h.ne_table.symm (getPteIndex_lt page)
  exact ⟨h.cr3_dvd, h.frame_dvd, h.page_dvd, h.page_lt, by rw [hpde _ hi, h.pde],
    by rw [hpte, h.pte], by rw [hpte, h.frame], h.ne_cr3, by rw [htable]; exact h.ne_table⟩

lemma store (h : Shows m page g) {k : ℕ} (hk : k < 1024) (v : ℕ) :
    m.store (page + 4 * k) v = { m with phys := m.phys.write32 (g + 4 * k) v } := by
  rw [Machine.store, h.translate (by simp only [pageSize]; omega)]

/-- Words that are stored through the page, each computed from the rest of memory. -/
lemma storeAll (h : Shows m page g) {is : List ℕ} {f : Machine → ℕ → ℕ} {v : ℕ → ℕ}
    (his : ∀ i ∈ is, i < 1024)
    (hf : ∀ P, AgreeOff g P m.phys → ∀ i ∈ is, f { m with phys := P } i = v i) :
    m.storeAll page is f = { m with phys := writeAll m.phys g is v } := by
  have hfold : ∀ (l : List ℕ) (P : ByteMem), (∀ i ∈ l, i ∈ is) → AgreeOff g P m.phys →
      ({ m with phys := P } : Machine).storeAll page l f =
        { m with phys := writeAll P g l v } := by
    intro l
    induction l with
    | nil =>
      intro P _ _
      rfl
    | cons i l ih =>
      intro P hl hP
      have hi := hl i List.mem_cons_self
      have hstore := (h.agreeOff hP).store (his i hi) (v i)
      rw [Machine.storeAll, List.foldl_cons, hf P hP i hi, hstore]
      exact ih _ (fun k hk => hl k (List.mem_cons_of_mem i hk))
        ((agreeOff_write32 P (his i hi)).trans hP)
  exact hfold is m.phys (fun _ hi => hi) fun _ _ => rfl

/-- The directory is not among what is written. -/
lemma pde_eq (h : Shows m page g) {P : ByteMem} (hP : AgreeOff g P m.phys) {i : ℕ} (hi : i < 1024) :
    ({ m with phys := P } : Machine).pde i = m.pde i :=
  hP.read32 h.frame_dvd h.cr3_dvd h.ne_cr3.symm hi

lemma selfMapped (h : Shows m page g) (hself : m.SelfMapped) {P : ByteMem}
    (hP : AgreeOff g P m.phys) : ({ m with phys := P } : Machine).SelfMapped where
  cr3_dvd := h.cr3_dvd
  self := by
    rw [table, h.pde_eq hP (by norm_num)]
    exact hself.self
  present := by rw [h.pde_eq hP (by norm_num), hself.present]

end Shows

/-! ### Contents of a mapped page -/

section Contents

variable {g d i j : ℕ} {P : ByteMem}

/-- What is written to a page is not part of any table. -/
lemma Spaces.sameTables_phys (h : Spaces m D) (hg : m.Plays D g (pageRole d i j))
    (hP : AgreeOff g P m.phys) : SameTables D m { m with phys := P } where
  pde _ hd _ hk :=
    hP.read32 (h.plays_dvd hg) (h.dir_dvd _ hd) (h.page_ne_dir hg hd).symm hk
  pte _ hd _ hk hp _ hl :=
    hP.read32 (h.plays_dvd hg) (frameAddr_dvd _) (h.page_ne_table hg hd hk hp).symm hl

lemma Spaces.elsewhere_phys (h : Spaces m D) (hg : m.Plays D g (pageRole m.cr3 i j))
    (hS : i ∈ S) (hP : AgreeOff g P m.phys) : Elsewhere D S m { m with phys := P } := by
  have hsame := h.sameTables_phys hg hP
  refine ⟨rfl, fun d hd k hk _ => hsame.pde d hd k hk, fun d hd k hk _ hp l hl =>
    hsame.pte d hd k hk hp l hl, fun d hd k hk hpages hout hp l hl hpl x hx => ?_⟩
  have hplays : m.Plays D _ (pageRole d k l) := .page hd hk hpages hl hp hpl
  have hne : frameAddr (m.entry (frameAddr (m.entry d k)) l) ≠ g := by
    intro heq
    rw [heq] at hplays
    obtain ⟨rfl, -, hdd⟩ := pageRole_inj (h.unique _ _ _ hplays hg)
    exact hout.elim (fun ho => ho.2 (hdd ho.1)) (fun hnot => hnot hS)
  obtain ⟨a, ha⟩ := h.plays_dvd hg
  obtain ⟨b, hb⟩ := h.plays_dvd hplays
  refine hP _ ?_
  rw [ha, hb] at hne ⊢
  simp only [pageSize] at *
  omega

end Contents

lemma Machine.entryOf_eq_some {i j e : ℕ} (h : m.entryOf i j = some e) :
    isPresent (m.pde i) = true ∧ isPresent (m.pte i j) = true ∧ m.pte i j = e := by
  unfold entryOf at h
  split_ifs at h with hp
  exact ⟨hp.1, hp.2, Option.some.inj h⟩

lemma Machine.SelfMapped.getPhysicalAddress_eq (h : m.SelfMapped) {virt e : ℕ} (hv : virt < 2 ^ 32)
    (he : m.entryOf (getPdeIndex virt) (getPteIndex virt) = some e) :
    getPhysicalAddress m virt = frameAddr e ||| virt &&& 0xFFF := by
  obtain ⟨hp, hpj, rfl⟩ := entryOf_eq_some he
  rw [getPhysicalAddress, h.getPte_some hv hp]
  dsimp only
  rw [h.load_pte (getPdeIndex_lt hv) (getPteIndex_lt virt) hp, if_pos hpj]

end Gummy
