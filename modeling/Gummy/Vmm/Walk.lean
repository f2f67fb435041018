import Gummy.Lib.Transition
import Gummy.Pmm.Runs
import Gummy.Vmm.Tables

/-!
`vmm_map` and `vmm_unmap` as update and delete of a finite map.

One directory entry governs 1024 pages, so its permissions are those of all of them
together.  The invariant `Paging` says that they cover the permissions of every page
below, and that no two entries name the same table; then an entry of a table alone
decides what its page may be used for.
-/

namespace Gummy

open CWord
open Transition (Reachable)

/-! ### The two functions, entry by entry -/

lemma getPdeIndex_eq (virt : ℕ) : getPdeIndex virt = virt / 2 ^ 22 := Nat.shiftRight_eq_div_pow ..

lemma getPteIndex_eq (virt : ℕ) : getPteIndex virt = virt / 2 ^ 12 % 2 ^ 10 := by
  rw [getPteIndex, Nat.shiftRight_eq_div_pow]
  exact Nat.and_two_pow_sub_one_eq_mod _ 10

lemma getPteIndex_lt (virt : ℕ) : getPteIndex virt < 1024 := by
  rw [getPteIndex_eq]
  exact Nat.mod_lt _ (by norm_num)

lemma getPdeIndex_lt {virt : ℕ} (h : virt < 2 ^ 32) : getPdeIndex virt < 1024 := by
  rw [getPdeIndex_eq]
  omega

/-- The last directory entry is the window. -/
lemma getPdeIndex_lt_window {virt : ℕ} (h : virt < 0xFFC00000) : getPdeIndex virt < 1023 := by
  rw [getPdeIndex_eq]
  omega

/-- A page is given by its two indices. -/
lemma page_eq_iff {virt virt' : ℕ} : getPdeIndex virt = getPdeIndex virt' ∧
    getPteIndex virt = getPteIndex virt' ↔ virt / pageSize = virt' / pageSize := by
  simp only [getPdeIndex_eq, getPteIndex_eq, pageSize]
  omega

namespace Machine

/-- A new table for slot `i`, in frame `f`. -/
def addTable (m : Machine) (i f flags : ℕ) (pmm : Pmm) : Machine :=
  ({ m with pmm }.setPde i (f ||| flags ||| vmmFlagsPresent)).clear f

/-- Release the table of slot `i`. -/
def dropTable (m : Machine) (i : ℕ) : Machine :=
  { m with pmm := pmmFreePage m.pmm (m.table i) }.setPde i 0

/-- Nothing is mapped through the table of slot `i`. -/
def tableEmpty (m : Machine) (i : ℕ) : Bool :=
  (List.range 1024).all fun j => !isPresent (m.pte i j)

lemma tableEmpty_iff {m : Machine} {i : ℕ} :
    m.tableEmpty i = true ↔ ∀ j < 1024, ¬ isPresent (m.pte i j) = true := by
  simp [tableEmpty]

/-! ### A new table -/

section AddTable

variable {m : Machine} {i k f flags : ℕ} (p : Pmm)

@[simp] lemma addTable_cr3 : (m.addTable i f flags p).cr3 = m.cr3 := rfl
@[simp] lemma addTable_pmm : (m.addTable i f flags p).pmm = p := rfl

/-- The frame of a new table: aligned, and not the directory. -/
structure NewFrame (m : Machine) (f : ℕ) : Prop where
  dvd : pageSize ∣ f
  lt : f < 2 ^ 32
  ne_zero : f ≠ 0
  ne_cr3 : f ≠ m.cr3

lemma newEntry_lt (hf : f < 2 ^ 32) (hflags : flags < pageSize) :
    f ||| flags ||| vmmFlagsPresent < 2 ^ 32 := by
  have hlt : flags < 2 ^ 32 := hflags.trans (by norm_num)
  exact Nat.or_lt_two_pow (Nat.or_lt_two_pow hf hlt) (by norm_num)

lemma frameAddr_newEntry (hf : pageSize ∣ f) (hlt : f < 2 ^ 32) (hflags : flags < pageSize) :
    frameAddr (f ||| flags ||| vmmFlagsPresent) = f := by
  have hflags1 : flags ||| vmmFlagsPresent < 2 ^ 12 := Nat.or_lt_two_pow hflags (by norm_num)
  rw [Nat.or_assoc]
  exact frameAddr_or hf hlt hflags1

lemma pde_addTable_self (hcr3 : pageSize ∣ m.cr3) (hf : m.NewFrame f) (hi : i < 1024)
    (hflags : flags < pageSize) :
    (m.addTable i f flags p).pde i = f ||| flags ||| vmmFlagsPresent := by
  have hset := pde_setPde_self (m := { m with pmm := p }) (i := i) (newEntry_lt hf.lt hflags)
  exact (read32_clear_of_ne hf.dvd hcr3 hi hf.ne_cr3.symm).trans hset

lemma pde_addTable_of_ne (flags : ℕ) (p : Pmm) (hcr3 : pageSize ∣ m.cr3) (hf : m.NewFrame f)
    (hk : k < 1024)
    (h : k ≠ i) : (m.addTable i f flags p).pde k = m.pde k := by
  have hset := pde_setPde_of_ne (m := { m with pmm := p }) (v := f ||| flags ||| vmmFlagsPresent) h
  exact (read32_clear_of_ne hf.dvd hcr3 hk hf.ne_cr3.symm).trans hset

lemma isPresent_addTable (hcr3 : pageSize ∣ m.cr3) (hf : m.NewFrame f) (hi : i < 1024)
    (hflags : flags < pageSize) : isPresent ((m.addTable i f flags p).pde i) = true := by
  rw [pde_addTable_self p hcr3 hf hi hflags, isPresent_or, isPresent_present, Bool.or_true]

lemma table_addTable_self (hcr3 : pageSize ∣ m.cr3) (hf : m.NewFrame f) (hi : i < 1024)
    (hflags : flags < pageSize) : (m.addTable i f flags p).table i = f := by
  rw [table, pde_addTable_self p hcr3 hf hi hflags, frameAddr_newEntry hf.dvd hf.lt hflags]

lemma table_addTable_of_ne (flags : ℕ) (p : Pmm) (hcr3 : pageSize ∣ m.cr3) (hf : m.NewFrame f)
    (hk : k < 1024)
    (h : k ≠ i) : (m.addTable i f flags p).table k = m.table k :=
  congrArg frameAddr (pde_addTable_of_ne flags p hcr3 hf hk h)

lemma pte_addTable_self {j : ℕ} (hcr3 : pageSize ∣ m.cr3) (hf : m.NewFrame f) (hi : i < 1024)
    (hj : j < 1024) (hflags : flags < pageSize) : (m.addTable i f flags p).pte i j = 0 := by
  rw [pte, table_addTable_self p hcr3 hf hi hflags]
  exact read32_clearFrame hj

lemma pte_addTable_of_ne {j : ℕ} (flags : ℕ) (p : Pmm) (hcr3 : pageSize ∣ m.cr3) (hf : m.NewFrame f)
    (hi : i < 1024)
    (hk : k < 1024) (hj : j < 1024) (h : k ≠ i) (hcr3' : m.table k ≠ m.cr3)
    (ht : m.table k ≠ f) : (m.addTable i f flags p).pte k j = m.pte k j := by
  rw [pte, table_addTable_of_ne flags p hcr3 hf hk h]
  refine (read32_clear_of_ne hf.dvd (m.table_dvd k) hj ht).trans ?_
  exact ByteMem.read32_write32_of_disjoint _ _
    (entry_disjoint (m.table_dvd k) hcr3 hj hi (Or.inl hcr3'))

lemma SelfMapped.addTable (h : m.SelfMapped) (hf : m.NewFrame f) (hi : i < 1023) :
    (m.addTable i f flags p).SelfMapped :=
  ((h.withPmm p).setPde hi _).clear hf.dvd hf.ne_cr3

end AddTable

end Machine

variable {m : Machine} {virt phys flags : ℕ}

namespace Machine.SelfMapped

lemma load_getPde (h : m.SelfMapped) (hv : virt < 2 ^ 32) :
    m.load (getPde virt) = m.pde (getPdeIndex virt) := h.load_pde (getPdeIndex_lt hv)

lemma store_getPde (h : m.SelfMapped) (hv : virt < 2 ^ 32) (v : ℕ) :
    m.store (getPde virt) v = m.setPde (getPdeIndex virt) v := h.store_pde (getPdeIndex_lt hv) v

lemma getPt_eq (h : m.SelfMapped) (hv : virt < 2 ^ 32) : getPt m virt =
    if isPresent (m.pde (getPdeIndex virt)) then some (0xFFC00000 + getPdeIndex virt * 0x1000)
    else none := by
  rw [getPt, h.load_getPde hv]

lemma getPte_some (h : m.SelfMapped) (hv : virt < 2 ^ 32)
    (hp : isPresent (m.pde (getPdeIndex virt)) = true) :
    getPte m virt = some (0xFFC00000 + getPdeIndex virt * 0x1000 + 4 * getPteIndex virt) := by
  rw [getPte, h.getPt_eq hv, if_pos hp]
  rfl

lemma getPte_none (h : m.SelfMapped) (hv : virt < 2 ^ 32)
    (hp : ¬ isPresent (m.pde (getPdeIndex virt)) = true) : getPte m virt = none := by
  rw [getPte, h.getPt_eq hv, if_neg hp]
  rfl

/-- Zeroing a page table through the window. -/
lemma clearPage_table (h : m.SelfMapped) {i : ℕ} (hi : i < 1024)
    (hp : isPresent (m.pde i) = true) (ht : m.table i ≠ m.cr3) :
    clearPage m (0xFFC00000 + i * 0x1000) = m.clear (m.table i) := by
  have hfold : ∀ (l : List ℕ) (n : Machine), (∀ j ∈ l, j < 1024) → n.SelfMapped →
      isPresent (n.pde i) = true → n.table i = m.table i → n.cr3 = m.cr3 →
      n.storeAll (0xFFC00000 + i * 0x1000) l (fun _ _ => 0) =
        { n with phys := l.foldl (fun p j => p.write32 (m.table i + 4 * j) 0) n.phys } := by
    intro l
    induction l with
    | nil => intros; rfl
    | cons j l ih =>
      intro n hl hn hpn htn hcn
      have hj : j < 1024 := hl j List.mem_cons_self
      have htn' : n.table i ≠ n.cr3 := by rwa [htn, hcn]
      have hnext := ih (n.setPte i j 0) (fun k hk => hl k (List.mem_cons_of_mem j hk))
        (hn.setPte hj htn' 0) (by rw [pde_setPte hn.cr3_dvd hi hj htn', hpn])
        (by rw [table_setPte hn.cr3_dvd hi hj htn', htn]) hcn
      rw [storeAll, List.foldl_cons, hn.store_pte hi hj hpn]
      rw [storeAll] at hnext
      rw [hnext, List.foldl_cons, ← htn]
      rfl
  rw [clearPage, hfold _ m (fun j hj => List.mem_range.1 hj) h hp rfl rfl, foldl_write32_zero]
  rfl

end Machine.SelfMapped

open Machine

section Map

/-- With a page table, two entries are written. -/
lemma vmmMap_of_present (h : m.SelfMapped) (hv : virt < 0xFFC00000) (hflags : flags < 2 ^ 32)
    (hp : isPresent (m.pde (getPdeIndex virt)) = true) :
    vmmMap m virt phys flags = (true, (m.setPde (getPdeIndex virt)
      (m.pde (getPdeIndex virt) ||| flags)).setPte (getPdeIndex virt) (getPteIndex virt)
        (phys ||| flags ||| vmmFlagsPresent)) := by
  have hv32 : virt < 2 ^ 32 := hv.trans (by norm_num)
  have hi := getPdeIndex_lt_window hv
  have hor : m.pde (getPdeIndex virt) ||| flags < 2 ^ 32 := Nat.or_lt_two_pow (m.pde_lt _) hflags
  have hself := h.setPde hi (m.pde (getPdeIndex virt) ||| flags)
  have hpresent : isPresent ((m.setPde (getPdeIndex virt)
      (m.pde (getPdeIndex virt) ||| flags)).pde (getPdeIndex virt)) = true := by
    rw [pde_setPde_self hor, isPresent_or, hp, Bool.true_or]
  have hensure : ensurePt m virt flags = (true, m) := by
    rw [ensurePt, h.load_getPde hv32, if_pos hp]
  rw [vmmMap, hensure]
  dsimp only
  rw [h.load_getPde hv32, h.store_getPde hv32, hself.getPte_some hv32 hpresent]
  dsimp only
  rw [hself.store_pte (getPdeIndex_lt hv32) (getPteIndex_lt virt) hpresent]

/-- Without a page table and without a free frame, `vmm_map` fails. -/
lemma vmmMap_full (h : m.SelfMapped) (hv : virt < 2 ^ 32)
    (hp : ¬ isPresent (m.pde (getPdeIndex virt)) = true) (hfull : pmmAllocPage m.pmm = (0, m.pmm)) :
    vmmMap m virt phys flags = (false, m) := by
  have hensure : ensurePt m virt flags = (false, m) := by
    rw [ensurePt, h.load_getPde hv, if_neg hp, hfull]
    rfl
  rw [vmmMap, hensure]

/-- Without a page table, one is added first. -/
lemma vmmMap_new (h : m.SelfMapped) (hv : virt < 0xFFC00000) (hflags : flags < pageSize)
    (hp : ¬ isPresent (m.pde (getPdeIndex virt)) = true) {f : ℕ} {pmm : Pmm}
    (halloc : pmmAllocPage m.pmm = (f, pmm)) (hf : m.NewFrame f) : vmmMap m virt phys flags =
      vmmMap (m.addTable (getPdeIndex virt) f flags pmm) virt phys flags := by
  have hv32 : virt < 2 ^ 32 := hv.trans (by norm_num)
  have hi := getPdeIndex_lt hv32
  have hentry := newEntry_lt hf.lt hflags
  have hself := (h.withPmm pmm).setPde (getPdeIndex_lt_window hv) (f ||| flags ||| vmmFlagsPresent)
  have hpde := pde_setPde_self (m := { m with pmm }) (i := getPdeIndex virt) hentry
  have htable : ({ m with pmm }.setPde (getPdeIndex virt) (f ||| flags ||| vmmFlagsPresent)).table
      (getPdeIndex virt) = f := by
    rw [table, hpde, frameAddr_newEntry hf.dvd hf.lt hflags]
  have hpresent : isPresent (({ m with pmm }.setPde (getPdeIndex virt)
      (f ||| flags ||| vmmFlagsPresent)).pde (getPdeIndex virt)) = true := by
    rw [hpde, isPresent_or, isPresent_present, Bool.or_true]
  have hclear := hself.clearPage_table hi hpresent (by rw [htable]; exact hf.ne_cr3)
  have hensure : ensurePt m virt flags = (true, m.addTable (getPdeIndex virt) f flags pmm) := by
    rw [ensurePt, h.load_getPde hv32, if_neg hp, halloc]
    dsimp only
    rw [if_neg hf.ne_zero, (h.withPmm pmm).store_getPde hv32, hself.getPt_eq hv32,
      if_pos hpresent]
    dsimp only
    rw [hclear, htable]
    rfl
  -- the second call finds the table
  have hself' : (m.addTable (getPdeIndex virt) f flags pmm).SelfMapped :=
    h.addTable pmm hf (getPdeIndex_lt_window hv)
  have hensure' : ensurePt (m.addTable (getPdeIndex virt) f flags pmm) virt flags =
      (true, m.addTable (getPdeIndex virt) f flags pmm) := by
    rw [ensurePt, hself'.load_getPde hv32, if_pos (isPresent_addTable pmm h.cr3_dvd hf hi hflags)]
  rw [vmmMap, vmmMap, hensure, hensure']

end Map

section Unmap

lemma vmmUnmap_of_absent (h : m.SelfMapped) (hv : virt < 2 ^ 32)
    (hp : ¬ (isPresent (m.pde (getPdeIndex virt)) = true ∧
      isPresent (m.pte (getPdeIndex virt) (getPteIndex virt)) = true)) :
    vmmUnmap m virt = (false, m) := by
  by_cases hpde : isPresent (m.pde (getPdeIndex virt)) = true
  · rw [vmmUnmap, h.getPte_some hv hpde]
    dsimp only
    rw [h.load_pte (getPdeIndex_lt hv) (getPteIndex_lt virt) hpde,
      if_neg fun hpte => hp ⟨hpde, hpte⟩]
  · rw [vmmUnmap, h.getPte_none hv hpde]

/-- The entry is cleared, and an empty table of the lower half released. -/
lemma vmmUnmap_of_present (h : m.SelfMapped) (hv : virt < 2 ^ 32)
    (ht : m.table (getPdeIndex virt) ≠ m.cr3)
    (hpde : isPresent (m.pde (getPdeIndex virt)) = true)
    (hpte : isPresent (m.pte (getPdeIndex virt) (getPteIndex virt)) = true) :
    vmmUnmap m virt =
      if (m.setPte (getPdeIndex virt) (getPteIndex virt) 0).tableEmpty (getPdeIndex virt) = true ∧
          virt < 0xC0000000 then
        (true, (m.setPte (getPdeIndex virt) (getPteIndex virt) 0).dropTable (getPdeIndex virt))
      else (true, m.setPte (getPdeIndex virt) (getPteIndex virt) 0) := by
  have hi := getPdeIndex_lt hv
  have hj := getPteIndex_lt virt
  have hself := h.setPte hj ht 0
  have hpde' : isPresent ((m.setPte (getPdeIndex virt) (getPteIndex virt) 0).pde
      (getPdeIndex virt)) = true := by rw [pde_setPte h.cr3_dvd hi hj ht, hpde]
  have hcount : (List.range 1024).countP (fun k => isPresent
      ((m.setPte (getPdeIndex virt) (getPteIndex virt) 0).load
        (0xFFC00000 + getPdeIndex virt * 0x1000 + 4 * k))) = 0 ↔
      (m.setPte (getPdeIndex virt) (getPteIndex virt) 0).tableEmpty (getPdeIndex virt) = true := by
    rw [List.countP_eq_zero, tableEmpty_iff]
    simp only [List.mem_range]
    refine forall₂_congr fun k hk => ?_
    rw [hself.load_pte hi hk hpde']
  rw [vmmUnmap, h.getPte_some hv hpde]
  dsimp only
  rw [h.load_pte hi hj hpde, if_pos hpte, h.store_pte hi hj hpde, hself.getPt_eq hv, if_pos hpde']
  dsimp only
  rw [hself.load_getPde hv]
  simp only [hcount]
  split_ifs
  · rw [(hself.withPmm _).store_getPde hv]
    rfl
  · rfl

end Unmap

/-! ### The invariant -/

/-- The permissions `a` include the permissions `b`. -/
def Covers (a b : ℕ) : Prop := perm a &&& perm b = perm b

lemma Covers.refl (a : ℕ) : Covers a a := Nat.and_self _

lemma Covers.or_left {a b : ℕ} (h : Covers a b) (c : ℕ) : Covers (a ||| c) b := by
  rw [Covers] at h ⊢
  rw [perm_or, Nat.and_or_distrib_right, h]
  refine Nat.eq_of_testBit_eq fun k => ?_
  rw [Nat.testBit_or, Nat.testBit_and]
  cases (perm b).testBit k <;> simp

/-- What makes the tables of the active directory a map from pages to frames. -/
structure Paging (m : Machine) : Prop where
  self : m.SelfMapped
  valid : m.pmm.Valid
  table_ne : ∀ i < 1023, isPresent (m.pde i) = true → m.table i ≠ m.cr3
  table_inj : ∀ i < 1023, ∀ k < 1023, isPresent (m.pde i) = true → isPresent (m.pde k) = true →
    m.table i = m.table k → i = k
  table_pos : ∀ i < 1023, isPresent (m.pde i) = true → m.table i ≠ 0
  used : ∀ i < 1024, isPresent (m.pde i) = true → ¬ m.pmm.Free (m.table i / pageSize)
  covers : ∀ i < 1023, ∀ j < 1024, isPresent (m.pde i) = true → isPresent (m.pte i j) = true →
    Covers (m.pde i) (m.pte i j)

namespace Machine

/-- The entry that decides about page `j` of slot `i`. -/
def entryOf (m : Machine) (i j : ℕ) : Option ℕ :=
  if isPresent (m.pde i) ∧ isPresent (m.pte i j) then some (m.pte i j) else none

/-- The two-level walk: the frame of a page, and what both entries permit. -/
def walk (m : Machine) (virt : ℕ) : Option (ℕ × ℕ) :=
  let i := getPdeIndex virt
  let j := getPteIndex virt
  if isPresent (m.pde i) ∧ isPresent (m.pte i j) then
    some (frameAddr (m.pte i j), perm (m.pde i) &&& perm (m.pte i j))
  else none

/-- The processor finds the frame that the walk finds. -/
lemma translate_eq_walk (m : Machine) (virt : ℕ) :
    m.translate virt = (m.walk virt).map fun w => w.1 + virt % pageSize := by
  rw [translate, walk, getPdeIndex_eq, getPteIndex_eq]
  change (if isPresent (m.pde (virt / 2 ^ 22)) = true then
    if isPresent (m.pte (virt / 2 ^ 22) (virt / 2 ^ 12 % 2 ^ 10)) = true then _ else none
      else none) = _
  by_cases h1 : isPresent (m.pde (virt / 2 ^ 22)) = true
  · by_cases h2 : isPresent (m.pte (virt / 2 ^ 22) (virt / 2 ^ 12 % 2 ^ 10)) = true
    · rw [if_pos h1, if_pos h2, if_pos ⟨h1, h2⟩]
      rfl
    · rw [if_pos h1, if_neg h2, if_neg fun h => h2 h.2]
      rfl
  · rw [if_neg h1, if_neg fun h => h1 h.1]
    rfl

lemma entryOf_of_absent {m : Machine} {i j : ℕ} (h : ¬ isPresent (m.pde i) = true) :
    m.entryOf i j = none := if_neg fun h' => h h'.1

lemma entryOf_of_present {m : Machine} {i j : ℕ} (h : isPresent (m.pde i) = true) :
    m.entryOf i j = if isPresent (m.pte i j) = true then some (m.pte i j) else none := by
  simp [entryOf, h]

end Machine

namespace Paging

/-- The entry of the page alone decides. -/
lemma walk_eq (h : Paging m) (hv : virt < 0xFFC00000) :
    m.walk virt = (m.entryOf (getPdeIndex virt) (getPteIndex virt)).map
      fun e => (frameAddr e, perm e) := by
  rw [walk, entryOf]
  split_ifs with hp
  · rw [h.covers _ (getPdeIndex_lt_window hv) _ (getPteIndex_lt virt) hp.1 hp.2]
    rfl
  · rfl

/-- A free frame is neither the directory nor a table of it. -/
lemma newFrame (h : Paging m) {f : ℕ} (hpos : 0 < f) (hfree : m.pmm.Free f) :
    m.NewFrame (f * pageSize) where
  dvd := Nat.dvd_mul_left ..
  lt := by
    have hlt := hfree.1.trans_le h.valid.bits_le
    simp only [pageSize]
    omega
  ne_zero := by
    simp only [pageSize]
    omega
  ne_cr3 heq := by
    refine h.used 1023 (by norm_num) h.self.present ?_
    rw [h.self.self, ← heq, Nat.mul_div_cancel f (by norm_num)]
    exact hfree

lemma table_ne_newFrame (h : Paging m) {f i : ℕ} (hfree : m.pmm.Free f) (hi : i < 1024)
    (hp : isPresent (m.pde i) = true) : m.table i ≠ f * pageSize := by
  intro heq
  refine h.used i hi hp ?_
  rw [heq, Nat.mul_div_cancel f (by norm_num)]
  exact hfree

/-! ### What each write keeps -/

section Write

variable {i j k l f v : ℕ} {pmm : Pmm}

lemma addTable (h : Paging m) (hi : i < 1023) (hflags : flags < pageSize) (hpos : 0 < f)
    (hfree : m.pmm.Free f)
    (hbits : pmm.bitmapBits = m.pmm.bitmapBits)
    (hpmm : ∀ g, pmm.Free g ↔ m.pmm.Free g ∧ g ≠ f) :
    Paging (m.addTable i (f * pageSize) flags pmm) := by
  have hf := h.newFrame hpos hfree
  have hcr3 := h.self.cr3_dvd
  have hself := table_addTable_self pmm hcr3 hf (hi.trans (by norm_num)) hflags
  have hpde : ∀ {k}, k < 1024 → k ≠ i → (m.addTable i (f * pageSize) flags pmm).pde k = m.pde k :=
    fun hk hne => pde_addTable_of_ne flags pmm hcr3 hf hk hne
  have htable : ∀ {k}, k < 1024 → k ≠ i →
      (m.addTable i (f * pageSize) flags pmm).table k = m.table k :=
    fun hk hne => table_addTable_of_ne flags pmm hcr3 hf hk hne
  refine ⟨h.self.addTable pmm hf hi, ⟨hbits.trans_le h.valid.bits_le, fun h0 => ?_⟩,
    fun k hk hpk => ?_,
    fun k hk l hl hpk hpl heq => ?_, fun k hk hpk => ?_, fun k hk hpk => ?_,
    fun k hk j hj hpk hpj => ?_⟩
  · exact h.valid.zero_used ((hpmm 0).1 h0).1
  · by_cases hki : k = i
    · rw [hki, hself]
      exact hf.ne_cr3
    · rw [hpde (hk.trans (by norm_num)) hki] at hpk
      rw [htable (hk.trans (by norm_num)) hki]
      exact h.table_ne k hk hpk
  · -- the new frame is that of no other table
    by_cases hki : k = i <;> by_cases hli : l = i
    · rw [hki, hli]
    · rw [hpde (hl.trans (by norm_num)) hli] at hpl
      rw [hki, hself, htable (hl.trans (by norm_num)) hli] at heq
      exact absurd heq.symm (h.table_ne_newFrame hfree (hl.trans (by norm_num)) hpl)
    · rw [hpde (hk.trans (by norm_num)) hki] at hpk
      rw [hli, hself, htable (hk.trans (by norm_num)) hki] at heq
      exact absurd heq (h.table_ne_newFrame hfree (hk.trans (by norm_num)) hpk)
    · rw [hpde (hk.trans (by norm_num)) hki] at hpk
      rw [hpde (hl.trans (by norm_num)) hli] at hpl
      rw [htable (hk.trans (by norm_num)) hki, htable (hl.trans (by norm_num)) hli] at heq
      exact h.table_inj k hk l hl hpk hpl heq
  · by_cases hki : k = i
    · rw [hki, hself]
      exact hf.ne_zero
    · rw [hpde (hk.trans (by norm_num)) hki] at hpk
      rw [htable (hk.trans (by norm_num)) hki]
      exact h.table_pos k hk hpk
  · rw [addTable_pmm, hpmm]
    by_cases hki : k = i
    · rw [hki, hself, Nat.mul_div_cancel f (by norm_num)]
      exact fun hg => hg.2 rfl
    · rw [hpde hk hki] at hpk
      rw [htable hk hki]
      exact fun hg => h.used k hk hpk hg.1
  · have hk' : k < 1024 := hk.trans (by norm_num)
    by_cases hki : k = i
    · rw [hki, pte_addTable_self pmm hcr3 hf (hi.trans (by norm_num)) hj hflags] at hpj
      simp at hpj
    · rw [hpde hk' hki] at hpk
      have hpte := pte_addTable_of_ne flags pmm hcr3 hf
        (hi.trans (by norm_num)) hk' hj hki (h.table_ne k hk hpk)
        (h.table_ne_newFrame hfree hk' hpk)
      rw [hpte] at hpj ⊢
      rw [hpde hk' hki]
      exact h.covers k hk j hj hpk hpj

lemma entryOf_addTable (h : Paging m) (hi : i < 1023) (hp : ¬ isPresent (m.pde i) = true)
    (hflags : flags < pageSize) (hpos : 0 < f) (hfree : m.pmm.Free f) (hk : k < 1023)
    (hl : l < 1024) : (m.addTable i (f * pageSize) flags pmm).entryOf k l = m.entryOf k l := by
  have hf := h.newFrame hpos hfree
  have hcr3 := h.self.cr3_dvd
  have hi' : i < 1024 := hi.trans (by norm_num)
  by_cases hki : k = i
  · subst hki
    rw [entryOf_of_absent hp, entryOf, pte_addTable_self pmm hcr3 hf hi' hl hflags]
    simp
  · have hpde := pde_addTable_of_ne flags pmm hcr3 hf
      (hk.trans (by norm_num)) hki
    by_cases hpk : isPresent (m.pde k) = true
    · rw [entryOf, entryOf, hpde, pte_addTable_of_ne flags pmm hcr3 hf hi' (hk.trans (by norm_num))
        hl hki
        (h.table_ne k hk hpk) (h.table_ne_newFrame hfree (hk.trans (by norm_num)) hpk)]
    · rw [entryOf_of_absent hpk, entryOf_of_absent (by rwa [hpde])]

/-- More permissions in a directory entry. -/
lemma setPde_or (h : Paging m) (hi : i < 1023) (hp : isPresent (m.pde i) = true)
    (hflags : flags < pageSize) : Paging (m.setPde i (m.pde i ||| flags)) ∧
      ∀ k < 1023, ∀ l < 1024,
        (m.setPde i (m.pde i ||| flags)).entryOf k l = m.entryOf k l := by
  have hcr3 := h.self.cr3_dvd
  have hlt : m.pde i ||| flags < 2 ^ 32 :=
    Nat.or_lt_two_pow (m.pde_lt i) (hflags.trans (by norm_num))
  have hframe : frameAddr (m.pde i ||| flags) = m.table i := frameAddr_or_flags (m.pde_lt i) hflags
  have hpresent : ∀ k,
      isPresent ((m.setPde i (m.pde i ||| flags)).pde k) = isPresent (m.pde k) := by
    intro k
    by_cases hki : k = i
    · rw [hki, pde_setPde_self hlt, isPresent_or, hp, Bool.true_or]
    · rw [pde_setPde_of_ne hki]
  have htable : ∀ k, (m.setPde i (m.pde i ||| flags)).table k = m.table k := by
    intro k
    by_cases hki : k = i
    · rw [hki, table, pde_setPde_self hlt, hframe]
    · exact table_setPde_of_ne hki
  have hpte : ∀ k < 1023, ∀ l < 1024, isPresent (m.pde k) = true →
      (m.setPde i (m.pde i ||| flags)).pte k l = m.pte k l := by
    intro k hk l hl hpk
    by_cases hki : k = i
    · subst hki
      exact pte_setPde_self hcr3 (hk.trans (by norm_num)) hl hlt hframe (h.table_ne k hk hpk)
    · exact pte_setPde_of_ne hcr3 (hi.trans (by norm_num)) hl hki (h.table_ne k hk hpk)
  refine ⟨⟨h.self.setPde hi _, h.valid, fun k hk hpk => ?_, fun k hk l hl hpk hpl heq => ?_,
    fun k hk hpk => ?_, fun k hk hpk => ?_, fun k hk l hl hpk hpl => ?_⟩, fun k hk l hl => ?_⟩
  · rw [hpresent] at hpk
    rw [htable]
    exact h.table_ne k hk hpk
  · rw [hpresent] at hpk hpl
    rw [htable, htable] at heq
    exact h.table_inj k hk l hl hpk hpl heq
  · rw [hpresent] at hpk
    rw [htable]
    exact h.table_pos k hk hpk
  · rw [hpresent] at hpk
    rw [htable]
    exact h.used k hk hpk
  · rw [hpresent] at hpk
    rw [hpte k hk l hl hpk] at hpl ⊢
    have hcovers := h.covers k hk l hl hpk hpl
    by_cases hki : k = i
    · rw [hki, pde_setPde_self hlt]
      rw [hki] at hcovers
      exact hcovers.or_left flags
    · rw [pde_setPde_of_ne hki]
      exact hcovers
  · by_cases hpk : isPresent (m.pde k) = true
    · rw [entryOf, entryOf, hpresent, hpte k hk l hl hpk]
    · rw [entryOf_of_absent hpk, entryOf_of_absent (by rwa [hpresent])]

/-- An entry of a table, with permissions that the directory grants. -/
lemma setPte (h : Paging m) (hi : i < 1023) (hj : j < 1024) (hp : isPresent (m.pde i) = true)
    (hv : v < 2 ^ 32) (hcovers : isPresent v = true → Covers (m.pde i) v) :
    Paging (m.setPte i j v) ∧ ∀ k < 1023, ∀ l < 1024, (m.setPte i j v).entryOf k l =
      if k = i ∧ l = j then (if isPresent v = true then some v else none) else m.entryOf k l := by
  have hcr3 := h.self.cr3_dvd
  have ht := h.table_ne i hi hp
  have hpde : ∀ k < 1024, (m.setPte i j v).pde k = m.pde k := fun k hk =>
    pde_setPte hcr3 hk hj ht
  have htable : ∀ k < 1024, (m.setPte i j v).table k = m.table k := fun k hk =>
    table_setPte hcr3 hk hj ht
  have hsame : (m.setPte i j v).pte i j = v :=
    pte_setPte_self hcr3 (hi.trans (by norm_num)) hj ht hv
  have hpte : ∀ k < 1023, ∀ l < 1024, isPresent (m.pde k) = true → ¬ (k = i ∧ l = j) →
      (m.setPte i j v).pte k l = m.pte k l := by
    intro k hk l hl hpk hne
    refine pte_setPte_of_ne hcr3 (hk.trans (by norm_num)) hj hl ht ?_
    by_cases hki : k = i
    · exact Or.inr fun hlj => hne ⟨hki, hlj⟩
    · exact Or.inl fun heq => hki (h.table_inj k hk i hi hpk hp heq)
  refine ⟨⟨h.self.setPte hj ht v, h.valid, fun k hk hpk => ?_, fun k hk l hl hpk hpl heq => ?_,
    fun k hk hpk => ?_, fun k hk hpk => ?_, fun k hk l hl hpk hpl => ?_⟩, fun k hk l hl => ?_⟩
  · rw [hpde k (hk.trans (by norm_num))] at hpk
    rw [htable k (hk.trans (by norm_num))]
    exact h.table_ne k hk hpk
  · rw [hpde k (hk.trans (by norm_num))] at hpk
    rw [hpde l (hl.trans (by norm_num))] at hpl
    rw [htable k (hk.trans (by norm_num)), htable l (hl.trans (by norm_num))] at heq
    exact h.table_inj k hk l hl hpk hpl heq
  · rw [hpde k (hk.trans (by norm_num))] at hpk
    rw [htable k (hk.trans (by norm_num))]
    exact h.table_pos k hk hpk
  · rw [hpde k hk] at hpk
    rw [htable k hk]
    exact h.used k hk hpk
  · rw [hpde k (hk.trans (by norm_num))] at hpk ⊢
    by_cases hkl : k = i ∧ l = j
    · obtain ⟨rfl, rfl⟩ := hkl
      rw [hsame] at hpl ⊢
      exact hcovers hpl
    · rw [hpte k hk l hl hpk hkl] at hpl ⊢
      exact h.covers k hk l hl hpk hpl
  · split_ifs with hkl hpv
    · obtain ⟨rfl, rfl⟩ := hkl
      rw [entryOf, hpde k (hk.trans (by norm_num)), hsame, if_pos ⟨hp, hpv⟩]
    · obtain ⟨rfl, rfl⟩ := hkl
      rw [entryOf, hsame, if_neg fun hpp => hpv hpp.2]
    · by_cases hpk : isPresent (m.pde k) = true
      · rw [entryOf, entryOf, hpde k (hk.trans (by norm_num)), hpte k hk l hl hpk hkl]
      · rw [entryOf_of_absent hpk, entryOf_of_absent]
        rwa [hpde k (hk.trans (by norm_num))]

/-- An empty table can go. -/
lemma dropTable (h : Paging m) (hi : i < 1023) (hp : isPresent (m.pde i) = true)
    (hempty : m.tableEmpty i = true) : Paging (m.dropTable i) ∧
      ∀ k < 1023, ∀ l < 1024, (m.dropTable i).entryOf k l = m.entryOf k l := by
  have hcr3 := h.self.cr3_dvd
  have hsame : (m.dropTable i).pde i = 0 := pde_setPde_self (by norm_num)
  have hpde : ∀ {k}, k ≠ i → (m.dropTable i).pde k = m.pde k := fun hki => pde_setPde_of_ne hki
  have htable : ∀ {k}, k ≠ i → (m.dropTable i).table k = m.table k := fun hki =>
    table_setPde_of_ne hki
  have hpte : ∀ k < 1023, ∀ l < 1024, k ≠ i → isPresent (m.pde k) = true →
      (m.dropTable i).pte k l = m.pte k l := fun k hk l hl hki hpk =>
    pte_setPde_of_ne (m := { m with pmm := _ }) hcr3 (hi.trans (by norm_num)) hl hki
      (h.table_ne k hk hpk)
  -- the entry of the slot is absent afterwards
  have hne : ∀ {k}, isPresent ((m.dropTable i).pde k) = true → k ≠ i := by
    rintro k hpk rfl
    rw [hsame, isPresent_zero] at hpk
    exact Bool.false_ne_true hpk
  obtain ⟨f, hf⟩ := m.table_dvd i
  have hfree : ∀ g, (m.dropTable i).pmm.Free g ↔
      m.pmm.Free g ∨ (g = f ∧ f < m.pmm.bitmapBits) := fun g => by
    rw [Machine.dropTable, setPde_pmm, hf, Nat.mul_comm]
    exact pmmFreePage_free_iff m.pmm f g
  have hbits : (m.dropTable i).pmm.bitmapBits = m.pmm.bitmapBits := pmmFreePage_bits ..
  refine ⟨⟨(h.self.withPmm _).setPde hi 0, ⟨hbits.trans_le h.valid.bits_le, fun h0 => ?_⟩,
    fun k hk hpk => ?_, fun k hk l hl hpk hpl heq => ?_, fun k hk hpk => ?_, fun k hk hpk => ?_,
    fun k hk l hl hpk hpl => ?_⟩, fun k hk l hl => ?_⟩
  · obtain h0 | ⟨rfl, -⟩ := (hfree 0).1 h0
    · exact h.valid.zero_used h0
    · exact h.table_pos i hi hp hf
  · have hki := hne hpk
    rw [hpde hki] at hpk
    rw [htable hki]
    exact h.table_ne k hk hpk
  · have hki := hne hpk
    have hli := hne hpl
    rw [hpde hki] at hpk
    rw [hpde hli] at hpl
    rw [htable hki, htable hli] at heq
    exact h.table_inj k hk l hl hpk hpl heq
  · have hki := hne hpk
    rw [hpde hki] at hpk
    rw [htable hki]
    exact h.table_pos k hk hpk
  · have hki := hne hpk
    rw [hpde hki] at hpk
    rw [htable hki, hfree]
    rintro (hg | ⟨hg, -⟩)
    · exact h.used k hk hpk hg
    · -- the freed frame was that of no other table
      obtain ⟨g, hkg⟩ := m.table_dvd k
      rw [hkg, Nat.mul_div_cancel_left g (by norm_num)] at hg
      have heq : m.table k = m.table i := by rw [hkg, hf, hg]
      by_cases hk' : k < 1023
      · exact hki (h.table_inj k hk' i hi hpk hp heq)
      · obtain rfl : k = 1023 := by omega
        exact h.table_ne i hi hp (heq.symm.trans h.self.self)
  · have hki := hne hpk
    rw [hpde hki] at hpk ⊢
    rw [hpte k hk l hl hki hpk] at hpl ⊢
    exact h.covers k hk l hl hpk hpl
  · by_cases hki : k = i
    · rw [hki, entryOf_of_absent (by rw [hsame]; simp), entryOf_of_present hp,
        if_neg (tableEmpty_iff.1 hempty l hl)]
    · by_cases hpk : isPresent (m.pde k) = true
      · rw [entryOf, entryOf, hpde hki, hpte k hk l hl hki hpk]
      · rw [entryOf_of_absent hpk, entryOf_of_absent (by rwa [hpde hki])]

end Write

/-! ### The two functions -/

/-- `vmm_map` sets the entry of one page, or fails for want of a frame. -/
lemma map (h : Paging m) (hv : virt < 0xFFC00000) (hphys : pageSize ∣ phys) (hlt : phys < 2 ^ 32)
    (hflags : flags < pageSize) :
    (∃ m', vmmMap m virt phys flags = (true, m') ∧ Paging m' ∧
      ∀ k < 1023, ∀ l < 1024, m'.entryOf k l =
        if k = getPdeIndex virt ∧ l = getPteIndex virt then
          some (phys ||| flags ||| vmmFlagsPresent) else m.entryOf k l) ∨
    (vmmMap m virt phys flags = (false, m) ∧
      ¬ isPresent (m.pde (getPdeIndex virt)) = true ∧ ∀ f, ¬ m.pmm.Free f) := by
  have hi := getPdeIndex_lt_window hv
  have hflags32 : flags < 2 ^ 32 := hflags.trans (by norm_num)
  -- the case of a present table, which the other one comes down to
  have hcase : ∀ n : Machine, Paging n → isPresent (n.pde (getPdeIndex virt)) = true →
      ∃ m', vmmMap n virt phys flags = (true, m') ∧ Paging m' ∧
        ∀ k < 1023, ∀ l < 1024, m'.entryOf k l =
          if k = getPdeIndex virt ∧ l = getPteIndex virt then
            some (phys ||| flags ||| vmmFlagsPresent) else n.entryOf k l := by
    intro n hn hp
    have hor : n.pde (getPdeIndex virt) ||| flags < 2 ^ 32 := Nat.or_lt_two_pow (n.pde_lt _)
        hflags32
    obtain ⟨hn', hentry⟩ := hn.setPde_or hi hp hflags
    have hpde := pde_setPde_self (m := n) (i := getPdeIndex virt) hor
    have hp' : isPresent ((n.setPde (getPdeIndex virt)
        (n.pde (getPdeIndex virt) ||| flags)).pde (getPdeIndex virt)) = true := by
      rw [hpde, isPresent_or, hp, Bool.true_or]
    have hcovers : Covers ((n.setPde (getPdeIndex virt)
        (n.pde (getPdeIndex virt) ||| flags)).pde (getPdeIndex virt))
        (phys ||| flags ||| vmmFlagsPresent) := by
      rw [hpde, Covers, perm_or (phys ||| flags), perm_or phys, perm_aligned hphys, perm_present,
        Nat.zero_or, Nat.or_zero, Nat.or_comm]
      exact (Covers.refl flags).or_left _
    have hpresent : isPresent (phys ||| flags ||| vmmFlagsPresent) = true := by
      rw [isPresent_or, isPresent_present, Bool.or_true]
    obtain ⟨hn'', hset⟩ := hn'.setPte hi (getPteIndex_lt virt) hp' (newEntry_lt hlt hflags)
      fun _ => hcovers
    refine ⟨_, vmmMap_of_present hn.self hv hflags32 hp, hn'', fun k hk l hl => ?_⟩
    rw [hset k hk l hl, if_pos hpresent, hentry k hk l hl]
  by_cases hp : isPresent (m.pde (getPdeIndex virt)) = true
  · exact Or.inl (hcase m h hp)
  · obtain ⟨halloc, hnone⟩ | ⟨f, pmm, halloc, hpos, hfree, -, hbits, hpmm⟩ :=
      pmmAllocPage_spec h.valid
    · exact Or.inr ⟨vmmMap_full h.self (hv.trans (by norm_num)) hp halloc, hp, hnone⟩
    · have hf := h.newFrame hpos hfree
      obtain ⟨m', hmap, hm', hentry⟩ := hcase _
        (h.addTable hi hflags hpos hfree hbits hpmm)
        (isPresent_addTable pmm h.self.cr3_dvd hf (hi.trans (by norm_num)) hflags)
      refine Or.inl ⟨m', ?_, hm', fun k hk l hl => ?_⟩
      · rw [vmmMap_new h.self hv hflags hp halloc hf, hmap]
      · rw [hentry k hk l hl, h.entryOf_addTable hi hp hflags hpos hfree hk hl]

/-- `vmm_unmap` deletes the entry of one page, if there is one. -/
lemma unmap (h : Paging m) (hv : virt < 0xFFC00000) :
    (∃ e m', m.entryOf (getPdeIndex virt) (getPteIndex virt) = some e ∧
      vmmUnmap m virt = (true, m') ∧ Paging m' ∧
      ∀ k < 1023, ∀ l < 1024, m'.entryOf k l =
        if k = getPdeIndex virt ∧ l = getPteIndex virt then none else m.entryOf k l) ∨
    (m.entryOf (getPdeIndex virt) (getPteIndex virt) = none ∧
      vmmUnmap m virt = (false, m)) := by
  have hi := getPdeIndex_lt_window hv
  have hj := getPteIndex_lt virt
  have hv32 : virt < 2 ^ 32 := hv.trans (by norm_num)
  by_cases hp : isPresent (m.pde (getPdeIndex virt)) = true ∧
      isPresent (m.pte (getPdeIndex virt) (getPteIndex virt)) = true
  · have ht := h.table_ne _ hi hp.1
    obtain ⟨hm', hset⟩ := h.setPte hi hj hp.1 (v := 0) (by norm_num) (by simp)
    simp only [isPresent_zero, Bool.false_eq_true, if_false] at hset
    have hunmap := vmmUnmap_of_present h.self hv32 ht hp.1 hp.2
    refine Or.inl ⟨_, _, if_pos hp, Prod.ext ?_ rfl, ?_⟩
    · rw [hunmap]
      split_ifs <;> rfl
    · rw [hunmap]
      split_ifs with hempty
      · have hp' : isPresent ((m.setPte (getPdeIndex virt) (getPteIndex virt) 0).pde
            (getPdeIndex virt)) = true := by
          rw [pde_setPte h.self.cr3_dvd (hi.trans (by norm_num)) hj ht, hp.1]
        obtain ⟨hm'', hdrop⟩ := hm'.dropTable hi hp' hempty.1
        refine ⟨hm'', fun k hk l hl => ?_⟩
        rw [hdrop k hk l hl, hset k hk l hl]
      · exact ⟨hm', hset⟩
  · exact Or.inr ⟨if_neg hp, vmmUnmap_of_absent h.self hv32 hp⟩

end Paging

/-! ### The tables of the boot loader -/

/-- What the boot loader lays out and `vmm_init` leaves of it: the first MiB at the start of
the upper half, and the window. -/
structure BootTables (m : Machine) : Prop where
  valid : m.pmm.Valid
  low_used : ∀ f < 16, ¬ m.pmm.Free f
  cr3_dvd : pageSize ∣ m.cr3
  cr3_lt : m.cr3 < 16 * pageSize
  window : m.pde 1023 = m.cr3 ||| 3
  table_lt : m.table 768 < 16 * pageSize
  table_pos : m.table 768 ≠ 0
  table_ne : m.table 768 ≠ m.cr3
  kernel : m.pde 768 = m.table 768 ||| 3
  pages : ∀ j < 1024, m.pte 768 j = if j < 256 then j * pageSize ||| 3 else 0
  others : ∀ i < 1023, i ≠ 768 → m.pde i = 0

lemma BootTables.paging (h : BootTables m) : Paging m := by
  have hpresent : ∀ {i}, i < 1023 → isPresent (m.pde i) = true → i = 768 := by
    intro i hi hp
    by_contra hne
    rw [h.others i hi hne, isPresent_zero] at hp
    exact Bool.false_ne_true hp
  have hself : m.table 1023 = m.cr3 := by
    rw [table, h.window, frameAddr_or h.cr3_dvd (h.cr3_lt.trans (by norm_num)) (by norm_num)]
  have hlow : ∀ {f}, f < 16 * pageSize → ¬ m.pmm.Free (f / pageSize) := fun hf =>
    h.low_used _ (Nat.div_lt_of_lt_mul (by rwa [Nat.mul_comm]))
  refine ⟨⟨h.cr3_dvd, hself, by rw [h.window, isPresent_or]; simp [isPresent]⟩, h.valid,
    fun i hi hp => ?_, fun i hi k hk hpi hpk _ => ?_, fun i hi hp => ?_, fun i hi hp => ?_,
    fun i hi j hj hp hpj => ?_⟩
  · rw [hpresent hi hp]
    exact h.table_ne
  · rw [hpresent hi hpi, hpresent hk hpk]
  · rw [hpresent hi hp]
    exact h.table_pos
  · by_cases hi' : i < 1023
    · rw [hpresent hi' hp]
      exact hlow h.table_lt
    · obtain rfl : i = 1023 := by omega
      rw [hself]
      exact hlow h.cr3_lt
  · obtain rfl := hpresent hi hp
    rw [h.pages j hj] at hpj ⊢
    have hdvd : pageSize ∣ j * pageSize := Nat.dvd_mul_left ..
    split_ifs at hpj ⊢ with hj'
    · rw [Covers, h.kernel, perm_or, perm_or, perm_aligned (m.table_dvd 768), perm_aligned hdvd]
      rfl
    · rw [isPresent_zero] at hpj
      exact absurd hpj Bool.false_ne_true

/-! ### Runs -/

/-- A call of `vmm_map` or of `vmm_unmap`. -/
inductive MapCall
  | map (virt phys flags : ℕ)
  | unmap (virt : ℕ)

/-- The page lies outside the window, the frame is aligned, and the flags are `PRESENT`,
`RW` and `USER`. -/
def MapCall.Ok : MapCall → Prop
  | map virt phys flags => virt < 0xFFC00000 ∧ pageSize ∣ phys ∧ phys < 2 ^ 32 ∧ flags < 8
  | unmap virt => virt < 0xFFC00000

/-- Whether the call succeeded, and the machine afterwards. -/
def MapCall.run (m : Machine) : MapCall → Bool × Machine
  | map virt phys flags => vmmMap m virt phys flags
  | unmap virt => vmmUnmap m virt

def MapStep (m : Machine) (c : MapCall) (m' : Machine) : Prop := c.Ok ∧ m' = (c.run m).2

lemma Paging.step {m' : Machine} {c : MapCall} (h : Paging m) (hs : MapStep m c m') :
    Paging m' := by
  obtain ⟨hok, rfl⟩ := hs
  cases c with
  | map virt phys flags =>
    obtain ⟨hv, hphys, hlt, hflags⟩ := hok
    obtain ⟨m', hmap, hm', -⟩ | ⟨hmap, -⟩ := h.map hv hphys hlt (hflags.trans (by norm_num))
    · rw [MapCall.run, hmap]
      exact hm'
    · rw [MapCall.run, hmap]
      exact h
  | unmap virt =>
    obtain ⟨e, m', -, hunmap, hm', -⟩ | ⟨-, hunmap⟩ := h.unmap hok
    · rw [MapCall.run, hunmap]
      exact hm'
    · rw [MapCall.run, hunmap]
      exact h

/-- **`vmm_map` updates a map from pages to frames and permissions, `vmm_unmap` deletes from
it.**  After any calls, from any tables that do not share frames: a successful `vmm_map` makes
the walk of the page give the frame with the permissions asked for, a successful `vmm_unmap`
makes it give nothing, neither changes what the walk of any other page gives, and a call that
fails changes nothing at all. -/
theorem map_unmap_update (h : Reachable Paging MapStep m) {c : MapCall} (hc : c.Ok) :
    ((c.run m).1 = true → ∀ virt' < 0xFFC00000, (c.run m).2.walk virt' =
      match c with
      | .map virt phys flags =>
        if virt' / pageSize = virt / pageSize then some (phys, perm flags) else m.walk virt'
      | .unmap virt => if virt' / pageSize = virt / pageSize then none else m.walk virt') ∧
    ((c.run m).1 = false → (c.run m).2 = m) := by
  have hm : Paging m := h.invariant (fun _ h => h) fun _ _ _ h hs => h.step hs
  cases c with
  | map virt phys flags =>
    obtain ⟨hv, hphys, hlt, hflags⟩ := hc
    have hflags' : flags < pageSize := hflags.trans (by norm_num)
    obtain ⟨m', hmap, hm', hentry⟩ | ⟨hmap, -⟩ := hm.map hv hphys hlt hflags'
    · rw [MapCall.run, hmap]
      refine ⟨fun _ virt' hv' => ?_, fun hf => absurd hf (by simp)⟩
      rw [hm'.walk_eq hv', hentry _ (getPdeIndex_lt_window hv') _ (getPteIndex_lt virt'),
        hm.walk_eq hv']
      simp only [page_eq_iff]
      split_ifs
      · rw [Option.map_some, frameAddr_newEntry hphys hlt hflags', perm_or, perm_or,
          perm_aligned hphys, perm_present, Nat.zero_or, Nat.or_zero]
      · rfl
    · rw [MapCall.run, hmap]
      exact ⟨fun hf => absurd hf (by simp), fun _ => rfl⟩
  | unmap virt =>
    obtain ⟨e, m', -, hunmap, hm', hentry⟩ | ⟨-, hunmap⟩ := hm.unmap hc
    · rw [MapCall.run, hunmap]
      refine ⟨fun _ virt' hv' => ?_, fun hf => absurd hf (by simp)⟩
      rw [hm'.walk_eq hv', hentry _ (getPdeIndex_lt_window hv') _ (getPteIndex_lt virt'),
        hm.walk_eq hv']
      simp only [page_eq_iff]
      split_ifs <;> rfl
    · rw [MapCall.run, hunmap]
      exact ⟨fun hf => absurd hf (by simp), fun _ => rfl⟩

/-- The words of `bootMachine`: a directory at `0x1000` and a table at `0x2000`. -/
def bootWords (a : ℕ) : ℕ :=
  if a = 0x400 + 768 then 0x2003
  else if a = 0x400 + 1023 then 0x1003
  else if 0x800 ≤ a ∧ a < 0x800 + 256 then (a - 0x800) * pageSize ||| 3
  else 0

/-- The allocator of half a MiB of memory. -/
def bootPmm : Pmm := pmmInit (fun _ => 0) [⟨0, 0x80000, 1, 0⟩] 0xC0011000

lemma bootPmm_free_iff (f : ℕ) : bootPmm.Free f ↔ 0x12 ≤ f ∧ f < 0x80 := by
  have hend : kernelEndPage [⟨0, 0x80000, 1, 0⟩] 0xC0011000 = 0x12 := by decide
  have hlow : E820Entry.Low ⟨0, 0x80000, 1, 0⟩ := by decide
  have hstop : E820Entry.stop ⟨0, 0x80000, 1, 0⟩ = 0x80000 := by decide
  rw [bootPmm, pmmInit_free_iff _ _ (by norm_num) (by norm_num)]
  simp only [List.mem_singleton, exists_eq_left, hend, hlow, hstop, pageSize, true_and]
  omega

lemma bootPmm_valid : bootPmm.Valid := by
  unfold bootPmm
  exact pmmInit_valid _ _ _

def bootMachine : Machine where
  phys := ByteMem.ofWords bootWords
  pmm := bootPmm
  cr3 := 0x1000

lemma bootTables_bootMachine : BootTables bootMachine := by
  have hlt : ∀ a, bootWords a < 2 ^ 32 := by
    intro a
    unfold bootWords
    split_ifs with h1 h2 h3
    · norm_num
    · norm_num
    · refine Nat.or_lt_two_pow ?_ (by norm_num)
      simp only [pageSize]
      omega
    · norm_num
  have hread : ∀ a, bootMachine.phys.read32 (4 * a) = bootWords a := fun a =>
    ByteMem.read32_ofWords (hlt a)
  have hpde : ∀ i, bootMachine.pde i = bootWords (0x400 + i) := by
    intro i
    rw [← hread, pde]
    congr 1
    simp only [bootMachine]
    omega
  have htable : bootMachine.table 768 = 0x2000 := by
    rw [table, hpde]
    decide
  refine ⟨bootPmm_valid, fun f hf => ?_, by decide, by decide, ?_, ?_, ?_, ?_, ?_,
    fun j hj => ?_, fun i hi hne => ?_⟩
  · change ¬ bootPmm.Free f
    rw [bootPmm_free_iff]
    omega
  · rw [hpde]
    decide
  · rw [htable]
    decide
  · rw [htable]
    decide
  · rw [htable]
    decide
  · rw [hpde, htable]
    decide
  · have ha : 0x2000 + 4 * j = 4 * (0x800 + j) := by ring
    rw [pte, htable, ha, hread, bootWords, if_neg (by omega), if_neg (by omega)]
    by_cases hj' : j < 256
    · rw [if_pos (by omega), if_pos hj', Nat.add_sub_cancel_left]
    · rw [if_neg (by omega), if_neg hj']
  · rw [hpde, bootWords, if_neg (by omega), if_neg (by omega), if_neg (by omega)]

theorem map_unmap_update_boot :
    (vmmMap bootMachine 0x400000 0x12000 7).2.walk 0x400000 = some (0x12000, 6) := by
  have hm := bootTables_bootMachine.paging
  have hok : MapCall.Ok (.map 0x400000 0x12000 7) := by
    refine ⟨by norm_num, by decide, by norm_num, by norm_num⟩
  have hsucceeds : (vmmMap bootMachine 0x400000 0x12000 7).1 = true := by
    obtain ⟨m', hmap, -⟩ | ⟨-, -, hnone⟩ := hm.map hok.1 hok.2.1 hok.2.2.1
      (show 7 < pageSize by norm_num)
    · rw [hmap]
    · exact absurd ((bootPmm_free_iff 0x12).2 (by norm_num)) (hnone 0x12)
  exact (map_unmap_update (.start hm) hok).1 hsucceeds 0x400000 (by norm_num)

end Gummy
