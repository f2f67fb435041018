import Gummy.Vmm

/-!
Page tables as tables.

The kernel reaches the active directory and its page tables through the window at the
end of the address space.  Here the window is opened once: an access through it is an
access to entry `i` of the directory, or to entry `j` of the table that entry `i` names,
and each function of the memory manager becomes a few writes to such entries.
-/

namespace Gummy

open CWord

/-! ### Entries as numbers -/

/-- The permissions in an entry. -/
def perm (entry : ℕ) : ℕ := entry &&& (vmmFlagsRw ||| vmmFlagsUser)

lemma frameAddr_eq {e : ℕ} (h : e < 2 ^ 32) : frameAddr e = e / pageSize * pageSize := by
  have halign := alignDown_two_pow (w := 32) (k := 12) (by norm_num) h
  rw [Nat.mul_comm] at halign
  exact halign

lemma frameAddr_dvd (e : ℕ) : pageSize ∣ frameAddr e := by
  refine Nat.dvd_of_mod_eq_zero ?_
  have hmod : (e &&& 0xFFFFF000) % 2 ^ 12 = (e % 2 ^ 12) &&& (0xFFFFF000 % 2 ^ 12) :=
    Nat.and_mod_two_pow
  exact hmod.trans (Nat.and_zero _)

lemma frameAddr_lt (e : ℕ) : frameAddr e < 2 ^ 32 :=
  Nat.and_le_right.trans_lt (by norm_num)

/-- Flags do not change the frame. -/
lemma frameAddr_or_flags {e flags : ℕ} (he : e < 2 ^ 32) (h : flags < pageSize) :
    frameAddr (e ||| flags) = frameAddr e := by
  have hdiv : (e ||| flags) / 2 ^ 12 = e / 2 ^ 12 ||| flags / 2 ^ 12 := Nat.or_div_two_pow
  have hzero : flags / 2 ^ 12 = 0 := Nat.div_eq_of_lt h
  rw [hzero, Nat.or_zero] at hdiv
  rw [frameAddr_eq (Nat.or_lt_two_pow he (h.trans (by norm_num))), frameAddr_eq he]
  exact congrArg (· * pageSize) hdiv

lemma frameAddr_or {f flags : ℕ} (hf : pageSize ∣ f) (hlt : f < 2 ^ 32) (h : flags < pageSize) :
    frameAddr (f ||| flags) = f := by
  rw [frameAddr_or_flags hlt h, frameAddr_eq hlt, Nat.div_mul_cancel hf]

lemma isPresent_iff (e : ℕ) : isPresent e = true ↔ e % 2 = 1 := by
  rw [isPresent, vmmFlagsPresent, Nat.and_one_is_mod, decide_eq_true_iff]
  omega

lemma isPresent_or (a b : ℕ) : isPresent (a ||| b) = (isPresent a || isPresent b) := by
  have hmod : (a ||| b) % 2 ^ 1 = a % 2 ^ 1 ||| b % 2 ^ 1 := Nat.or_mod_two_pow
  rw [Bool.eq_iff_iff, Bool.or_eq_true, isPresent_iff, isPresent_iff, isPresent_iff]
  rw [pow_one] at hmod
  rw [hmod]
  obtain ha | ha := Nat.mod_two_eq_zero_or_one a <;>
    obtain hb | hb := Nat.mod_two_eq_zero_or_one b <;>
    simp [ha, hb]

@[simp] lemma isPresent_zero : isPresent 0 = false := rfl

@[simp] lemma isPresent_present : isPresent vmmFlagsPresent = true := rfl

lemma perm_or (a b : ℕ) : perm (a ||| b) = perm a ||| perm b := Nat.and_or_distrib_right ..

lemma perm_aligned {f : ℕ} (h : pageSize ∣ f) : perm f = 0 := by
  have hmod : (f &&& 6) % 2 ^ 3 = (f % 2 ^ 3) &&& (6 % 2 ^ 3) := Nat.and_mod_two_pow
  have hlt : f &&& 6 < 2 ^ 3 := Nat.and_le_right.trans_lt (by norm_num)
  have hzero : f % 2 ^ 3 = 0 := by
    obtain ⟨k, rfl⟩ := h
    simp only [pageSize]
    omega
  rw [hzero, Nat.zero_and, Nat.mod_eq_of_lt hlt] at hmod
  exact hmod

@[simp] lemma perm_present : perm vmmFlagsPresent = 0 := rfl

/-! ### Frames -/

/-- Fill the frame at `f` with zeros. -/
def clearFrame (phys : ByteMem) (f : ℕ) : ByteMem := fun x =>
  if f ≤ x ∧ x < f + pageSize then 0 else phys x

lemma clearFrame_of_disjoint {phys : ByteMem} {f x : ℕ} (h : x < f ∨ f + pageSize ≤ x) :
    clearFrame phys f x = phys x := if_neg (by omega)

lemma read32_clearFrame {phys : ByteMem} {f j : ℕ} (hj : j < 1024) :
    (clearFrame phys f).read32 (f + 4 * j) = 0 := by
  have hzero : ∀ x, f ≤ x → x < f + 4096 → clearFrame phys f x = 0 := fun x h1 h2 => if_pos ⟨h1, h2⟩
  rw [ByteMem.read32, hzero _ (by omega) (by omega), hzero _ (by omega) (by omega),
    hzero _ (by omega) (by omega), hzero _ (by omega) (by omega)]
  rfl

/-- Distinct entries of aligned frames do not overlap. -/
lemma entry_disjoint {f g i j : ℕ} (hf : pageSize ∣ f) (hg : pageSize ∣ g) (hi : i < 1024)
    (hj : j < 1024) (h : f ≠ g ∨ i ≠ j) :
    f + 4 * i + 4 ≤ g + 4 * j ∨ g + 4 * j + 4 ≤ f + 4 * i := by
  obtain ⟨a, rfl⟩ := hf
  obtain ⟨b, rfl⟩ := hg
  simp only [pageSize] at h ⊢
  omega

/-- Writing zero to every entry of a frame clears it. -/
lemma foldl_write32_zero (phys : ByteMem) (f : ℕ) :
    (List.range 1024).foldl (fun p j => p.write32 (f + 4 * j) 0) phys = clearFrame phys f := by
  have hfold : ∀ n, (List.range n).foldl (fun p j => p.write32 (f + 4 * j) 0) phys =
      fun x => if f ≤ x ∧ x < f + 4 * n then 0 else phys x := by
    intro n
    induction n with
    | zero =>
      funext x
      rw [if_neg (by omega)]
      rfl
    | succ n ih =>
      rw [List.range_succ, List.foldl_append, ih, List.foldl_cons, List.foldl_nil]
      funext x
      by_cases hx : x < f + 4 * n ∨ f + 4 * n + 4 ≤ x
      · rw [ByteMem.write32_of_disjoint _ _ hx]
        by_cases hin : f ≤ x ∧ x < f + 4 * n
        · rw [if_pos hin, if_pos (by omega)]
        · rw [if_neg hin, if_neg (by omega)]
      · rw [if_pos (by omega)]
        unfold ByteMem.write32
        have h4 : x = f + 4 * n ∨ x = f + 4 * n + 1 ∨ x = f + 4 * n + 2 ∨ x = f + 4 * n + 3 := by
          omega
        obtain rfl | rfl | rfl | rfl := h4 <;> simp
  exact hfold 1024

/-! ### The tables of the active directory -/

namespace Machine

variable (m : Machine)

/-- Entry `i` of the directory. -/
def pde (i : ℕ) : ℕ := m.phys.read32 (m.cr3 + 4 * i)

/-- The page table that entry `i` names. -/
def table (i : ℕ) : ℕ := frameAddr (m.pde i)

/-- Entry `j` of page table `i`. -/
def pte (i j : ℕ) : ℕ := m.phys.read32 (m.table i + 4 * j)

def setPde (i v : ℕ) : Machine := { m with phys := m.phys.write32 (m.cr3 + 4 * i) v }

def setPte (i j v : ℕ) : Machine := { m with phys := m.phys.write32 (m.table i + 4 * j) v }

/-- Zero the frame at `f`. -/
def clear (f : ℕ) : Machine := { m with phys := clearFrame m.phys f }

@[simp] lemma setPde_cr3 (i v : ℕ) : (m.setPde i v).cr3 = m.cr3 := rfl
@[simp] lemma setPde_pmm (i v : ℕ) : (m.setPde i v).pmm = m.pmm := rfl
@[simp] lemma setPte_cr3 (i j v : ℕ) : (m.setPte i j v).cr3 = m.cr3 := rfl
@[simp] lemma setPte_pmm (i j v : ℕ) : (m.setPte i j v).pmm = m.pmm := rfl
@[simp] lemma clear_cr3 (f : ℕ) : (m.clear f).cr3 = m.cr3 := rfl
@[simp] lemma clear_pmm (f : ℕ) : (m.clear f).pmm = m.pmm := rfl
@[simp] lemma withPmm_table (pmm : Pmm) (i : ℕ) : { m with pmm }.table i = m.table i := rfl
@[simp] lemma withPmm_pte (pmm : Pmm) (i j : ℕ) : { m with pmm }.pte i j = m.pte i j := rfl

lemma pde_lt (i : ℕ) : m.pde i < 2 ^ 32 := ByteMem.read32_lt ..

lemma table_dvd (i : ℕ) : pageSize ∣ m.table i := frameAddr_dvd _

lemma table_lt (i : ℕ) : m.table i < 2 ^ 32 := frameAddr_lt _

/-- The directory appears at the end of its own address space. -/
structure SelfMapped (m : Machine) : Prop where
  cr3_dvd : pageSize ∣ m.cr3
  self : m.table 1023 = m.cr3
  present : isPresent (m.pde 1023) = true

/-! ### Reading what was written -/

section Write

variable {m} {i i' j j' v f : ℕ}

lemma pde_setPde_self (hv : v < 2 ^ 32) : (m.setPde i v).pde i = v :=
  ByteMem.read32_write32_same _ hv

lemma pde_setPde_of_ne (h : i' ≠ i) : (m.setPde i v).pde i' = m.pde i' :=
  ByteMem.read32_write32_of_disjoint _ _ (by simp only [setPde]; omega)

lemma table_setPde_of_ne (h : i' ≠ i) : (m.setPde i v).table i' = m.table i' :=
  congrArg frameAddr (pde_setPde_of_ne h)

lemma pte_setPde_of_ne (hcr3 : pageSize ∣ m.cr3) (hi : i < 1024) (hj : j < 1024) (h : i' ≠ i)
    (ht : m.table i' ≠ m.cr3) : (m.setPde i v).pte i' j = m.pte i' j := by
  rw [pte, table_setPde_of_ne h]
  exact ByteMem.read32_write32_of_disjoint _ _ (entry_disjoint (m.table_dvd i') hcr3 hj hi
    (Or.inl ht))

/-- A new entry for the same table. -/
lemma pte_setPde_self (hcr3 : pageSize ∣ m.cr3) (hi : i < 1024) (hj : j < 1024)
    (hv : v < 2 ^ 32) (hsame : frameAddr v = m.table i) (ht : m.table i ≠ m.cr3) :
    (m.setPde i v).pte i j = m.pte i j := by
  have htable : (m.setPde i v).table i = m.table i :=
    (congrArg frameAddr (pde_setPde_self hv)).trans hsame
  rw [pte, htable]
  exact ByteMem.read32_write32_of_disjoint _ _ (entry_disjoint (m.table_dvd i) hcr3 hj hi
    (Or.inl ht))

lemma pde_setPte (hcr3 : pageSize ∣ m.cr3) (hi' : i' < 1024) (hj : j < 1024)
    (ht : m.table i ≠ m.cr3) : (m.setPte i j v).pde i' = m.pde i' :=
  ByteMem.read32_write32_of_disjoint _ _
    (entry_disjoint hcr3 (m.table_dvd i) hi' hj (Or.inl ht.symm))

lemma table_setPte (hcr3 : pageSize ∣ m.cr3) (hi' : i' < 1024) (hj : j < 1024)
    (ht : m.table i ≠ m.cr3) : (m.setPte i j v).table i' = m.table i' :=
  congrArg frameAddr (pde_setPte hcr3 hi' hj ht)

lemma pte_setPte_self (hcr3 : pageSize ∣ m.cr3) (hi : i < 1024) (hj : j < 1024)
    (ht : m.table i ≠ m.cr3) (hv : v < 2 ^ 32) : (m.setPte i j v).pte i j = v := by
  rw [pte, table_setPte hcr3 hi hj ht]
  exact ByteMem.read32_write32_same _ hv

lemma pte_setPte_of_ne (hcr3 : pageSize ∣ m.cr3) (hi' : i' < 1024) (hj : j < 1024)
    (hj' : j' < 1024) (ht : m.table i ≠ m.cr3) (h : m.table i' ≠ m.table i ∨ j' ≠ j) :
    (m.setPte i j v).pte i' j' = m.pte i' j' := by
  rw [pte, table_setPte hcr3 hi' hj ht]
  exact ByteMem.read32_write32_of_disjoint _ _
    (entry_disjoint (m.table_dvd i') (m.table_dvd i) hj' hj h)

lemma read32_clear_of_ne {g : ℕ} (hf : pageSize ∣ f) (hg : pageSize ∣ g) (hj : j < 1024)
    (h : g ≠ f) : (m.clear f).phys.read32 (g + 4 * j) = m.phys.read32 (g + 4 * j) := by
  refine ByteMem.read32_congr fun x _ _ => clearFrame_of_disjoint ?_
  obtain ⟨a, rfl⟩ := hf
  obtain ⟨b, rfl⟩ := hg
  simp only [pageSize] at *
  omega

lemma pde_clear (hcr3 : pageSize ∣ m.cr3) (hf : pageSize ∣ f) (hi : i < 1024) (h : f ≠ m.cr3) :
    (m.clear f).pde i = m.pde i :=
  read32_clear_of_ne hf hcr3 hi h.symm

lemma table_clear (hcr3 : pageSize ∣ m.cr3) (hf : pageSize ∣ f) (hi : i < 1024) (h : f ≠ m.cr3) :
    (m.clear f).table i = m.table i :=
  congrArg frameAddr (pde_clear hcr3 hf hi h)

end Write

/-! ### The window -/

namespace SelfMapped

variable {m}

lemma withPmm (h : m.SelfMapped) (pmm : Pmm) : { m with pmm }.SelfMapped :=
  ⟨h.cr3_dvd, h.self, h.present⟩

lemma setPde (h : m.SelfMapped) {i : ℕ} (hi : i < 1023) (v : ℕ) : (m.setPde i v).SelfMapped where
  cr3_dvd := h.cr3_dvd
  self := by rw [table_setPde_of_ne (by omega), h.self, setPde_cr3]
  present := by rw [pde_setPde_of_ne (by omega), h.present]

lemma setPte (h : m.SelfMapped) {i j : ℕ} (hj : j < 1024) (ht : m.table i ≠ m.cr3) (v : ℕ) :
    (m.setPte i j v).SelfMapped where
  cr3_dvd := h.cr3_dvd
  self := by rw [table_setPte h.cr3_dvd (by norm_num) hj ht, h.self, setPte_cr3]
  present := by rw [pde_setPte h.cr3_dvd (by norm_num) hj ht, h.present]

lemma clear (h : m.SelfMapped) {f : ℕ} (hf : pageSize ∣ f) (hne : f ≠ m.cr3) :
    (m.clear f).SelfMapped where
  cr3_dvd := h.cr3_dvd
  self := by rw [table_clear h.cr3_dvd hf (by norm_num) hne, h.self, clear_cr3]
  present := by rw [pde_clear h.cr3_dvd hf (by norm_num) hne, h.present]

/-- The window on page table `i`; the last one is the directory. -/
lemma translate_window (h : m.SelfMapped) {i j : ℕ} (hi : i < 1024) (hj : j < 1024)
    (hp : isPresent (m.pde i) = true) :
    m.translate (0xFFC00000 + i * 0x1000 + 4 * j) = some (m.table i + 4 * j) := by
  have h1 : (0xFFC00000 + i * 0x1000 + 4 * j) / 2 ^ 22 = 1023 := by omega
  have h2 : (0xFFC00000 + i * 0x1000 + 4 * j) / 2 ^ 12 % 2 ^ 10 = i := by omega
  have h3 : (0xFFC00000 + i * 0x1000 + 4 * j) % 2 ^ 12 = 4 * j := by omega
  have hself : frameAddr (m.phys.read32 (m.cr3 + 4 * 1023)) = m.cr3 := h.self
  have hpresent : isPresent (m.phys.read32 (m.cr3 + 4 * 1023)) = true := h.present
  have hpde : isPresent (m.phys.read32 (m.cr3 + 4 * i)) = true := hp
  rw [translate, h1, h2, h3]
  dsimp only
  rw [if_pos hpresent, hself, if_pos hpde]
  rfl

lemma translate_pde (h : m.SelfMapped) {i : ℕ} (hi : i < 1024) :
    m.translate (0xFFFFF000 + 4 * i) = some (m.cr3 + 4 * i) := by
  have htrans := h.translate_window (i := 1023) (by norm_num) hi h.present
  rwa [h.self] at htrans

lemma load_pde (h : m.SelfMapped) {i : ℕ} (hi : i < 1024) :
    m.load (0xFFFFF000 + 4 * i) = m.pde i := by
  rw [load, h.translate_pde hi]
  rfl

lemma store_pde (h : m.SelfMapped) {i : ℕ} (hi : i < 1024) (v : ℕ) :
    m.store (0xFFFFF000 + 4 * i) v = m.setPde i v := by
  rw [store, h.translate_pde hi]
  rfl

lemma load_pte (h : m.SelfMapped) {i j : ℕ} (hi : i < 1024) (hj : j < 1024)
    (hp : isPresent (m.pde i) = true) :
    m.load (0xFFC00000 + i * 0x1000 + 4 * j) = m.pte i j := by
  rw [load, h.translate_window hi hj hp]
  rfl

lemma store_pte (h : m.SelfMapped) {i j : ℕ} (hi : i < 1024) (hj : j < 1024)
    (hp : isPresent (m.pde i) = true) (v : ℕ) :
    m.store (0xFFC00000 + i * 0x1000 + 4 * j) v = m.setPte i j v := by
  rw [store, h.translate_window hi hj hp]
  rfl

end SelfMapped

end Machine

end Gummy
