import Gummy.Vmm.Regions
import Mathlib.Logic.Relation
import Mathlib.Data.Set.Insert

/-!
All address spaces at once.

Each frame that is spoken for plays one role: it belongs to the kernel image, or it is the
directory of a space, the table of a slot, or the page that an entry maps.  The tables of the
upper half are shared, so that their roles do not say in which space.  `Spaces` says that no
frame plays two roles and that no frame with a role is free.
-/

namespace Gummy

open CWord

/-! ### Entries -/

namespace Machine

/-- Entry `k` of the directory or table in frame `f`. -/
def entry (m : Machine) (f k : ℕ) : ℕ := m.phys.read32 (f + 4 * k)

/-- The machine with the directory in frame `d` active. -/
def space (m : Machine) (d : ℕ) : Machine := { m with cr3 := d }

section Entry

variable {m : Machine} {d f i j k v : ℕ}

@[simp] lemma space_pde : (m.space d).pde i = m.entry d i := rfl
@[simp] lemma space_table : (m.space d).table i = frameAddr (m.entry d i) := rfl
@[simp] lemma space_pte : (m.space d).pte i j = m.entry (frameAddr (m.entry d i)) j := rfl
@[simp] lemma space_cr3 : m.space m.cr3 = m := rfl
@[simp] lemma space_entry : (m.space d).entry f k = m.entry f k := rfl
@[simp] lemma withPmm_entry (pmm : Pmm) : { m with pmm }.entry f k = m.entry f k := rfl

lemma entry_lt : m.entry f k < 2 ^ 32 := ByteMem.read32_lt ..

lemma entry_setPde (hcr3 : pageSize ∣ m.cr3) (hf : pageSize ∣ f) (hi : i < 1024) (hk : k < 1024)
    (hv : v < 2 ^ 32) :
    (m.setPde i v).entry f k = if f = m.cr3 ∧ k = i then v else m.entry f k := by
  split_ifs with h
  · rw [h.1, h.2]
    exact pde_setPde_self hv
  · refine ByteMem.read32_write32_of_disjoint _ _ (entry_disjoint hf hcr3 hk hi ?_)
    by_cases hfm : f = m.cr3
    · exact Or.inr fun hki => h ⟨hfm, hki⟩
    · exact Or.inl hfm

lemma entry_setPte (hf : pageSize ∣ f) (hj : j < 1024) (hk : k < 1024) (hv : v < 2 ^ 32) :
    (m.setPte i j v).entry f k = if f = m.table i ∧ k = j then v else m.entry f k := by
  split_ifs with h
  · rw [h.1, h.2]
    exact ByteMem.read32_write32_same _ hv
  · refine ByteMem.read32_write32_of_disjoint _ _ (entry_disjoint hf (m.table_dvd i) hk hj ?_)
    by_cases hfm : f = m.table i
    · exact Or.inr fun hki => h ⟨hfm, hki⟩
    · exact Or.inl hfm

lemma entry_clear {g : ℕ} (hg : pageSize ∣ g) (hf : pageSize ∣ f) (hk : k < 1024) :
    (m.clear g).entry f k = if f = g then 0 else m.entry f k := by
  split_ifs with h
  · rw [h]
    exact read32_clearFrame hk
  · exact read32_clear_of_ne hg hf hk h

lemma entry_addTable {g flags : ℕ} (p : Pmm) (hcr3 : pageSize ∣ m.cr3) (hg : pageSize ∣ g)
    (hlt : g < 2 ^ 32) (hflags : flags < pageSize) (hf : pageSize ∣ f) (hi : i < 1024)
    (hk : k < 1024) : (m.addTable i g flags p).entry f k =
      if f = g then 0
      else if f = m.cr3 ∧ k = i then g ||| flags ||| vmmFlagsPresent else m.entry f k := by
  have hset : ({ m with pmm := p }.setPde i (g ||| flags ||| vmmFlagsPresent)).entry f k = _ :=
    entry_setPde hcr3 hf hi hk (newEntry_lt hlt hflags)
  rw [addTable, entry_clear hg hf hk, hset]
  rfl

lemma entry_dropTable (hcr3 : pageSize ∣ m.cr3) (hf : pageSize ∣ f) (hi : i < 1024)
    (hk : k < 1024) :
    (m.dropTable i).entry f k = if f = m.cr3 ∧ k = i then 0 else m.entry f k := by
  rw [dropTable]
  exact entry_setPde hcr3 hf hi hk (by norm_num)

end Entry

end Machine

open Machine

/-! ### Roles -/

/-- The directories of the address spaces, and the frames that hold the kernel image and the
bitmap. -/
structure Owners where
  dirs : Set ℕ
  kernel : Set ℕ

instance : Membership ℕ Owners := ⟨fun D d => d ∈ D.dirs⟩

/-- What a frame is used for. -/
inductive Role
  | kernel
  | dir (d : ℕ)
  | table (d i : ℕ)
  | page (d i j : ℕ)
  | kernelTable (i : ℕ)
  | kernelPage (i j : ℕ)

/-- The role of the table of slot `i` in space `d`. -/
def tableRole (d i : ℕ) : Role := if i < 768 then .table d i else .kernelTable i

/-- The role of page `j` of slot `i` in space `d`. -/
def pageRole (d i j : ℕ) : Role := if i < 768 then .page d i j else .kernelPage i j

lemma tableRole_inj {d d' i i' : ℕ} (h : tableRole d i = tableRole d' i') :
    i = i' ∧ (i < 768 → d = d') := by
  unfold tableRole at h
  split_ifs at h with h1 h2 h2
  · injection h with hd hi
    exact ⟨hi, fun _ => hd⟩
  · injection h with hi
    exact ⟨hi, fun hlt => absurd hlt h1⟩

lemma pageRole_inj {d d' i i' j j' : ℕ} (h : pageRole d i j = pageRole d' i' j') :
    i = i' ∧ j = j' ∧ (i < 768 → d = d') := by
  unfold pageRole at h
  split_ifs at h with h1 h2 h2
  · injection h with hd hi hj
    exact ⟨hi, hj, fun _ => hd⟩
  · injection h with hi hj
    exact ⟨hi, hj, fun hlt => absurd hlt h1⟩

@[simp] lemma tableRole_ne_kernel (d i : ℕ) : tableRole d i ≠ .kernel := by
  unfold tableRole
  split_ifs <;> simp

@[simp] lemma pageRole_ne_kernel (d i j : ℕ) : pageRole d i j ≠ .kernel := by
  unfold pageRole
  split_ifs <;> simp

@[simp] lemma tableRole_ne_dir (d i d' : ℕ) : tableRole d i ≠ .dir d' := by
  unfold tableRole
  split_ifs <;> simp

@[simp] lemma pageRole_ne_dir (d i j d' : ℕ) : pageRole d i j ≠ .dir d' := by
  unfold pageRole
  split_ifs <;> simp

@[simp] lemma pageRole_ne_tableRole (d i j d' i' : ℕ) : pageRole d i j ≠ tableRole d' i' := by
  unfold pageRole tableRole
  split_ifs <;> simp

/-- The pages of the upper half with a role: those of the heap.  Below the heap lies the
mapping of low memory, which shows directories and tables as well. -/
def HasPages (i : ℕ) : Prop := i < 768 ∨ 896 ≤ i

/-- The frame `f` plays a role in the spaces `D`. -/
inductive Machine.Plays (m : Machine) (D : Owners) : ℕ → Role → Prop
  | kernel {f : ℕ} (hf : f ∈ D.kernel) : Plays m D f .kernel
  | dir {d : ℕ} (hd : d ∈ D) : Plays m D d (.dir d)
  | table {d i : ℕ} (hd : d ∈ D) (hi : i < 1023) (hp : isPresent (m.entry d i) = true) :
      Plays m D (frameAddr (m.entry d i)) (tableRole d i)
  | page {d i j : ℕ} (hd : d ∈ D) (hi : i < 1023) (hpages : HasPages i) (hj : j < 1024)
      (hp : isPresent (m.entry d i) = true)
      (hpj : isPresent (m.entry (frameAddr (m.entry d i)) j) = true) :
      Plays m D (frameAddr (m.entry (frameAddr (m.entry d i)) j)) (pageRole d i j)

/-- The address spaces with the directories `D` share nothing but the upper half. -/
structure Spaces (m : Machine) (D : Owners) : Prop where
  valid : m.pmm.Valid
  active : m.cr3 ∈ D
  dir_dvd : ∀ d ∈ D, pageSize ∣ d
  kernel_dvd : ∀ f ∈ D.kernel, pageSize ∣ f
  self : ∀ d ∈ D, frameAddr (m.entry d 1023) = d
  self_present : ∀ d ∈ D, isPresent (m.entry d 1023) = true
  nonzero : ∀ f r, m.Plays D f r → f ≠ 0
  used : ∀ f r, m.Plays D f r → ¬ m.pmm.Free (f / pageSize)
  unique : ∀ f r r', m.Plays D f r → m.Plays D f r' → r = r'
  covers : ∀ d ∈ D, ∀ i < 768, ∀ j < 1024, isPresent (m.entry d i) = true →
    isPresent (m.entry (frameAddr (m.entry d i)) j) = true →
      Covers (m.entry d i) (m.entry (frameAddr (m.entry d i)) j)
  kernel_pde : ∀ d ∈ D, ∀ i, 768 ≤ i → i < 1023 → isPresent (m.entry d i) = true →
    perm (m.entry d i) = vmmFlagsRw
  kernel_pte : ∀ d ∈ D, ∀ i, 768 ≤ i → i < 1023 → ∀ j < 1024, isPresent (m.entry d i) = true →
    isPresent (m.entry (frameAddr (m.entry d i)) j) = true →
      perm (m.entry (frameAddr (m.entry d i)) j) = vmmFlagsRw

namespace Spaces

variable {m : Machine} {D : Owners} {d d' f i i' j : ℕ}

lemma table_ne_dir (h : Spaces m D) (hd : d ∈ D) (hi : i < 1023)
    (hp : isPresent (m.entry d i) = true) (hd' : d' ∈ D) : frameAddr (m.entry d i) ≠ d' := by
  intro heq
  have htable := Plays.table hd hi hp
  rw [heq] at htable
  exact tableRole_ne_dir _ _ _ (h.unique _ _ _ htable (.dir hd'))

lemma table_inj (h : Spaces m D) (hd : d ∈ D) (hd' : d' ∈ D) (hi : i < 1023) (hi' : i' < 1023)
    (hp : isPresent (m.entry d i) = true) (hp' : isPresent (m.entry d' i') = true)
    (heq : frameAddr (m.entry d i) = frameAddr (m.entry d' i')) :
    i = i' ∧ (i < 768 → d = d') := by
  have htable := Plays.table hd hi hp
  rw [heq] at htable
  exact tableRole_inj (h.unique _ _ _ htable (.table hd' hi' hp'))

/-- Each space on its own. -/
lemma paging (h : Spaces m D) (hd : d ∈ D) : Paging (m.space d) where
  self := ⟨h.dir_dvd d hd, h.self d hd, h.self_present d hd⟩
  valid := h.valid
  table_ne i hi hp := h.table_ne_dir hd hi hp hd
  table_inj i hi k hk hp hpk heq := (h.table_inj hd hd hi hk hp hpk heq).1
  table_pos i hi hp := h.nonzero _ _ (.table hd hi hp)
  used i hi hp := by
    by_cases hi' : i < 1023
    · exact h.used _ _ (.table hd hi' hp)
    · obtain rfl : i = 1023 := by omega
      have hself : (m.space d).table 1023 = d := h.self d hd
      rw [hself]
      exact h.used _ _ (.dir hd)
  covers i hi j hj hp hpj := by
    by_cases hi' : i < 768
    · exact h.covers d hd i hi' j hj hp hpj
    · have hpde : perm ((m.space d).pde i) = vmmFlagsRw :=
        h.kernel_pde d hd i (not_lt.1 hi') hi hp
      have hpte : perm ((m.space d).pte i j) = vmmFlagsRw :=
        h.kernel_pte d hd i (not_lt.1 hi') hi j hj hp hpj
      rw [Covers, hpde, hpte]
      rfl

end Spaces

/-! ### Changes that keep the tables -/

/-- The directories and tables of the spaces hold the same entries. -/
structure SameTables (D : Owners) (m m' : Machine) : Prop where
  pde : ∀ d ∈ D, ∀ k < 1024, m'.entry d k = m.entry d k
  pte : ∀ d ∈ D, ∀ k < 1023, isPresent (m.entry d k) = true → ∀ l < 1024,
    m'.entry (frameAddr (m.entry d k)) l = m.entry (frameAddr (m.entry d k)) l

namespace SameTables

variable {m m' m'' : Machine} {D : Owners}

lemma symm (h : SameTables D m m') : SameTables D m' m where
  pde d hd k hk := (h.pde d hd k hk).symm
  pte d hd k hk hp l hl := by
    rw [h.pde d hd k (hk.trans (by norm_num))] at hp ⊢
    exact (h.pte d hd k hk hp l hl).symm

lemma trans (h : SameTables D m m') (h' : SameTables D m' m'') : SameTables D m m'' where
  pde d hd k hk := (h'.pde d hd k hk).trans (h.pde d hd k hk)
  pte d hd k hk hp l hl := by
    have hpde := h.pde d hd k (hk.trans (by norm_num))
    have hpte := h'.pte d hd k hk (by rwa [hpde]) l hl
    rw [hpde] at hpte
    rw [hpte, h.pte d hd k hk hp l hl]

lemma space (D : Owners) (m : Machine) (d : ℕ) : SameTables D m (m.space d) :=
  ⟨fun _ _ _ _ => rfl, fun _ _ _ _ _ _ _ => rfl⟩

lemma plays (h : SameTables D m m') {f : ℕ} {r : Role} (hr : m.Plays D f r) : m'.Plays D f r := by
  cases hr with
  | kernel hf => exact .kernel hf
  | dir hd => exact .dir hd
  | @table d i hd hi hp =>
    have hpde := h.pde d hd i (hi.trans (by norm_num))
    rw [← hpde] at hp ⊢
    exact .table hd hi hp
  | @page d i j hd hi hpages hj hp hpj =>
    have hpde := h.pde d hd i (hi.trans (by norm_num))
    rw [← h.pte d hd i hi hp j hj] at hpj ⊢
    rw [← hpde] at hp hpj ⊢
    exact .page hd hi hpages hj hp hpj

lemma spaces (h : SameTables D m m') (hs : Spaces m D) (hpmm : m'.pmm = m.pmm)
    (hactive : m'.cr3 ∈ D) : Spaces m' D := by
  have hpde := h.pde
  have hpte := h.pte
  refine ⟨by rw [hpmm]; exact hs.valid, hactive, hs.dir_dvd, hs.kernel_dvd, fun d hd => ?_,
    fun d hd => ?_, fun f r hr => hs.nonzero f r (h.symm.plays hr), fun f r hr => ?_,
    fun f r r' hr hr' => hs.unique f r r' (h.symm.plays hr) (h.symm.plays hr'),
    fun d hd i hi j hj hp hpj => ?_, fun d hd i hi hi' hp => ?_,
    fun d hd i hi hi' j hj hp hpj => ?_⟩
  · rw [hpde d hd 1023 (by norm_num), hs.self d hd]
  · rw [hpde d hd 1023 (by norm_num), hs.self_present d hd]
  · rw [hpmm]
    exact hs.used f r (h.symm.plays hr)
  · rw [hpde d hd i (hi.trans (by norm_num))] at hp hpj ⊢
    rw [hpte d hd i (hi.trans (by norm_num)) hp j hj] at hpj ⊢
    exact hs.covers d hd i hi j hj hp hpj
  · rw [hpde d hd i (hi'.trans (by norm_num))] at hp ⊢
    exact hs.kernel_pde d hd i hi hi' hp
  · rw [hpde d hd i (hi'.trans (by norm_num))] at hp hpj ⊢
    rw [hpte d hd i hi' hp j hj] at hpj ⊢
    exact hs.kernel_pte d hd i hi hi' j hj hp hpj

end SameTables

namespace Spaces

variable {m : Machine} {D D' : Owners} {d : ℕ}

/-- Another of the spaces becomes active. -/
lemma space (h : Spaces m D) (hd : d ∈ D) : Spaces (m.space d) D :=
  (SameTables.space D m d).spaces h rfl hd

/-! ### More and fewer spaces -/

/-- With fewer spaces fewer frames play a role. -/
lemma plays_mono (hdirs : D'.dirs ⊆ D.dirs) (hkernel : D'.kernel ⊆ D.kernel) {f : ℕ} {r : Role}
    (hr : m.Plays D' f r) : m.Plays D f r := by
  cases hr with
  | kernel hf => exact .kernel (hkernel hf)
  | dir hd => exact .dir (hdirs hd)
  | table hd hi hp => exact .table (hdirs hd) hi hp
  | page hd hi hpages hj hp hpj => exact .page (hdirs hd) hi hpages hj hp hpj

lemma mono (h : Spaces m D) (hdirs : D'.dirs ⊆ D.dirs) (hkernel : D'.kernel ⊆ D.kernel)
    (hactive : m.cr3 ∈ D') : Spaces m D' where
  valid := h.valid
  active := hactive
  dir_dvd d hd := h.dir_dvd d (hdirs hd)
  kernel_dvd f hf := h.kernel_dvd f (hkernel hf)
  self d hd := h.self d (hdirs hd)
  self_present d hd := h.self_present d (hdirs hd)
  nonzero f r hr := h.nonzero f r (plays_mono hdirs hkernel hr)
  used f r hr := h.used f r (plays_mono hdirs hkernel hr)
  unique f r r' hr hr' := h.unique f r r' (plays_mono hdirs hkernel hr)
    (plays_mono hdirs hkernel hr')
  covers d hd := h.covers d (hdirs hd)
  kernel_pde d hd := h.kernel_pde d (hdirs hd)
  kernel_pte d hd := h.kernel_pte d (hdirs hd)

/-- One more directory: the lower half is empty, the upper half is that of the active space. -/
structure NewDirectory (m : Machine) (d : ℕ) : Prop where
  low : ∀ k < 768, m.entry d k = 0
  high : ∀ k, 768 ≤ k → k < 1023 → m.entry d k = m.pde k
  self : frameAddr (m.entry d 1023) = d
  self_present : isPresent (m.entry d 1023) = true

lemma plays_insert (h : Spaces m D) (hnew : NewDirectory m d) {f : ℕ} {r : Role}
    (hr : m.Plays { D with dirs := insert d D.dirs } f r) :
    m.Plays D f r ∨ (f = d ∧ r = .dir d) := by
  have hupper : ∀ {i}, i < 1023 → isPresent (m.entry d i) = true → 768 ≤ i := by
    intro i hi hp
    by_contra hlt
    rw [hnew.low i (not_le.1 hlt), isPresent_zero] at hp
    exact Bool.false_ne_true hp
  cases hr with
  | kernel hf => exact Or.inl (.kernel hf)
  | @dir d' hd =>
    rcases Set.mem_insert_iff.1 hd with rfl | hd
    · exact Or.inr ⟨rfl, rfl⟩
    · exact Or.inl (.dir hd)
  | @table d' i hd hi hp =>
    refine Or.inl ?_
    rcases Set.mem_insert_iff.1 hd with rfl | hd
    · -- the tables of the upper half are those of the active space
      have hi' := hupper hi hp
      have hrole : tableRole d' i = tableRole m.cr3 i := by
        rw [tableRole, tableRole, if_neg (by omega), if_neg (by omega)]
      rw [hnew.high i hi' hi] at hp ⊢
      rw [hrole]
      exact .table h.active hi hp
    · exact .table hd hi hp
  | @page d' i j hd hi hpages hj hp hpj =>
    refine Or.inl ?_
    rcases Set.mem_insert_iff.1 hd with rfl | hd
    · have hi' := hupper hi hp
      have hrole : pageRole d' i j = pageRole m.cr3 i j := by
        rw [pageRole, pageRole, if_neg (by omega), if_neg (by omega)]
      rw [hnew.high i hi' hi] at hp hpj ⊢
      rw [hrole]
      exact .page h.active hi hpages hj hp hpj
    · exact .page hd hi hpages hj hp hpj

lemma insert (h : Spaces m D) (hnew : NewDirectory m d) (hdvd : pageSize ∣ d) (h0 : d ≠ 0)
    (hused : ¬ m.pmm.Free (d / pageSize)) (hunplayed : ∀ r, ¬ m.Plays D d r) :
    Spaces m { D with dirs := Insert.insert d D.dirs } := by
  have hold : ∀ {d'}, d' ∈ ({ D with dirs := Insert.insert d D.dirs } : Owners) → d' = d ∨ d' ∈ D :=
    fun hd => Set.mem_insert_iff.1 hd
  have habsent : ∀ {i}, i < 768 → ¬ isPresent (m.entry d i) = true := by
    intro i hi hp
    rw [hnew.low i hi, isPresent_zero] at hp
    exact Bool.false_ne_true hp
  refine ⟨h.valid, Or.inr h.active, fun d' hd => ?_, h.kernel_dvd, fun d' hd => ?_, fun d' hd => ?_,
    fun f r hr => ?_, fun f r hr => ?_, fun f r r' hr hr' => ?_, fun d' hd i hi j hj hp hpj => ?_,
    fun d' hd i hi hi' hp => ?_, fun d' hd i hi hi' j hj hp hpj => ?_⟩
  · rcases hold hd with rfl | hd
    · exact hdvd
    · exact h.dir_dvd d' hd
  · rcases hold hd with rfl | hd
    · exact hnew.self
    · exact h.self d' hd
  · rcases hold hd with rfl | hd
    · exact hnew.self_present
    · exact h.self_present d' hd
  · rcases h.plays_insert hnew hr with hr | ⟨rfl, -⟩
    · exact h.nonzero f r hr
    · exact h0
  · rcases h.plays_insert hnew hr with hr | ⟨rfl, -⟩
    · exact h.used f r hr
    · exact hused
  · rcases h.plays_insert hnew hr with hr₁ | ⟨rfl, rfl⟩
    · rcases h.plays_insert hnew hr' with hr₂ | ⟨rfl, -⟩
      · exact h.unique f r r' hr₁ hr₂
      · exact absurd hr₁ (hunplayed r)
    · rcases h.plays_insert hnew hr' with hr₂ | ⟨-, rfl⟩
      · exact absurd hr₂ (hunplayed r')
      · rfl
  · rcases hold hd with rfl | hd
    · exact absurd hp (habsent hi)
    · exact h.covers d' hd i hi j hj hp hpj
  · rcases hold hd with rfl | hd
    · rw [hnew.high i hi hi'] at hp ⊢
      exact h.kernel_pde m.cr3 h.active i hi hi' hp
    · exact h.kernel_pde d' hd i hi hi' hp
  · rcases hold hd with rfl | hd
    · rw [hnew.high i hi hi'] at hp hpj ⊢
      exact h.kernel_pte m.cr3 h.active i hi hi' j hj hp hpj
    · exact h.kernel_pte d' hd i hi hi' j hj hp hpj

end Spaces

end Gummy
