import Gummy.Vmm.Spaces

/-!
The edits that the memory manager is made of.

All functions of `vmm.c` that work on the active directory come down to seven kinds of
edits.  An edit keeps the roles of the frames apart, and leaves alone all that does not
belong to the slots it is about.
-/

namespace Gummy

open CWord Machine
open Relation (ReflTransGen)

/-! ### Frames without a role -/

/-- A frame in use that plays no role. -/
structure Spare (m : Machine) (D : Owners) (f : ℕ) : Prop where
  dvd : pageSize ∣ f
  lt : f < 2 ^ 32
  ne_zero : f ≠ 0
  used : ¬ m.pmm.Free (f / pageSize)
  unplayed : ∀ r, ¬ m.Plays D f r

namespace Spare

variable {m : Machine} {D : Owners} {f d i : ℕ}

lemma ne_dir (hf : Spare m D f) (hd : d ∈ D) : d ≠ f := by
  rintro rfl
  exact hf.unplayed _ (.dir hd)

lemma ne_table (hf : Spare m D f) (hd : d ∈ D) (hi : i < 1023)
    (hp : isPresent (m.entry d i) = true) : frameAddr (m.entry d i) ≠ f := by
  rintro rfl
  exact hf.unplayed _ (.table hd hi hp)

end Spare

namespace Spaces

variable {m m' : Machine} {D : Owners} {f₀ : ℕ} {r₀ : Role}

/-- One frame takes a new role. -/
lemma unique_of (h : Spaces m D) (hunplayed : ∀ r, ¬ m.Plays D f₀ r)
    (hplays : ∀ f r, m'.Plays D f r → m.Plays D f r ∨ (f = f₀ ∧ r = r₀)) {f : ℕ} {r r' : Role}
    (hr : m'.Plays D f r) (hr' : m'.Plays D f r') : r = r' := by
  obtain hold | ⟨rfl, rfl⟩ := hplays f r hr
  · obtain hold' | ⟨rfl, rfl⟩ := hplays f r' hr'
    · exact h.unique f r r' hold hold'
    · exact absurd hold (hunplayed r)
  · obtain hold' | ⟨-, rfl⟩ := hplays f r' hr'
    · exact absurd hold' (hunplayed r')
    · rfl

/-- No frame takes a new role. -/
lemma unique_of_subset (h : Spaces m D) (hplays : ∀ f r, m'.Plays D f r → m.Plays D f r) {f : ℕ}
    {r r' : Role} (hr : m'.Plays D f r) (hr' : m'.Plays D f r') : r = r' :=
  h.unique f r r' (hplays f r hr) (hplays f r' hr')

lemma plays_dvd (h : Spaces m D) {f : ℕ} {r : Role} (hr : m.Plays D f r) : pageSize ∣ f := by
  cases hr with
  | kernel hf => exact h.kernel_dvd _ hf
  | dir hd => exact h.dir_dvd _ hd
  | table hd hi hp => exact frameAddr_dvd _
  | page hd hi hpages hj hp hpj => exact frameAddr_dvd _

lemma page_ne_dir (h : Spaces m D) {f d d' k l : ℕ} (hr : m.Plays D f (pageRole d k l))
    (hd' : d' ∈ D) : f ≠ d' := by
  rintro rfl
  exact pageRole_ne_dir _ _ _ _ (h.unique _ _ _ hr (.dir hd'))

lemma page_ne_table (h : Spaces m D) {f d d' i k l : ℕ} (hr : m.Plays D f (pageRole d k l))
    (hd' : d' ∈ D) (hi : i < 1023) (hp : isPresent (m.entry d' i) = true) :
    f ≠ frameAddr (m.entry d' i) := by
  rintro rfl
  exact pageRole_ne_tableRole _ _ _ _ _ (h.unique _ _ _ hr (.table hd' hi hp))

lemma pde_ne (h : Spaces m D) {d : ℕ} (hd : d ∈ D) {i : ℕ} (hi : i < 1023)
    (hp : isPresent (m.pde i) = true) : d ≠ m.table i :=
  (h.table_ne_dir h.active hi hp hd).symm

end Spaces

/-! ### Edits -/

/-- One edit of the active directory, about one of the slots `S`. -/
inductive Edit (D : Owners) (S : Set ℕ) (m : Machine) : Machine → Prop
  | take {pmm : Pmm} (hvalid : pmm.Valid) (hfree : ∀ f, pmm.Free f → m.pmm.Free f) :
      Edit D S m { m with pmm }
  | free {f : ℕ} (hf : Spare m D f) : Edit D S m { m with pmm := pmmFreePage m.pmm f }
  | newTable {i f flags : ℕ} (hS : i ∈ S) (hi : i < 1023) (hp : ¬ isPresent (m.pde i) = true)
      (hflags : flags < pageSize) (hkernel : 768 ≤ i → perm flags = vmmFlagsRw)
      (hf : Spare m D f) : Edit D S m (m.addTable i f flags m.pmm)
  | allow {i flags : ℕ} (hS : i ∈ S) (hi : i < 1023) (hp : isPresent (m.pde i) = true)
      (hflags : flags < pageSize) (hkernel : 768 ≤ i → perm flags = vmmFlagsRw) :
      Edit D S m (m.setPde i (m.pde i ||| flags))
  | map {i j f flags : ℕ} (hS : i ∈ S) (hi : i < 1023) (hj : j < 1024)
      (hp : isPresent (m.pde i) = true) (hflags : flags < pageSize)
      (hkernel : 768 ≤ i → perm flags = vmmFlagsRw)
      (hcovers : Covers (m.pde i) (f ||| flags ||| vmmFlagsPresent)) (hf : Spare m D f) :
      Edit D S m (m.setPte i j (f ||| flags ||| vmmFlagsPresent))
  | unmap {i j : ℕ} (hS : i ∈ S) (hi : i < 1023) (hj : j < 1024)
      (hp : isPresent (m.pde i) = true) : Edit D S m (m.setPte i j 0)
  | dropTable {i : ℕ} (hS : i ∈ S) (hi : i < 768) (hp : isPresent (m.pde i) = true)
      (hempty : m.tableEmpty i = true) : Edit D S m (m.dropTable i)

namespace Spaces

variable {m : Machine} {D : Owners} {i j f flags : ℕ}

/-! ### What an edit does to the entries -/

lemma plays_withPmm {pmm : Pmm} {g : ℕ} {r : Role} (hr : { m with pmm }.Plays D g r) :
    m.Plays D g r := by
  cases hr with
  | kernel hk => exact .kernel hk
  | dir hd => exact .dir hd
  | table hd hk hp => exact .table hd hk hp
  | page hd hk hpages hl hp hpl => exact .page hd hk hpages hl hp hpl

lemma entry_newTable (h : Spaces m D) (hi : i < 1023) (hflags : flags < pageSize)
    (hf : Spare m D f) {g k : ℕ} (hg : pageSize ∣ g) (hk : k < 1024) :
    (m.addTable i f flags m.pmm).entry g k =
      if g = f then 0
      else if g = m.cr3 ∧ k = i then f ||| flags ||| vmmFlagsPresent else m.entry g k :=
  entry_addTable m.pmm (h.dir_dvd _ h.active) hf.dvd hf.lt hflags hg (hi.trans (by norm_num)) hk

lemma pde_newTable (h : Spaces m D) (hi : i < 1023) (hflags : flags < pageSize)
    (hf : Spare m D f) {d k : ℕ} (hd : d ∈ D) (hk : k < 1024) :
    (m.addTable i f flags m.pmm).entry d k =
      if d = m.cr3 ∧ k = i then f ||| flags ||| vmmFlagsPresent else m.entry d k := by
  rw [h.entry_newTable hi hflags hf (h.dir_dvd d hd) hk, if_neg (hf.ne_dir hd)]

lemma pte_newTable (h : Spaces m D) (hi : i < 1023) (hflags : flags < pageSize)
    (hf : Spare m D f) {d k l : ℕ} (hd : d ∈ D) (hk : k < 1023) (hl : l < 1024)
    (hp : isPresent (m.entry d k) = true) :
    (m.addTable i f flags m.pmm).entry (frameAddr (m.entry d k)) l =
      m.entry (frameAddr (m.entry d k)) l := by
  rw [h.entry_newTable hi hflags hf (frameAddr_dvd _) hl, if_neg (hf.ne_table hd hk hp), if_neg]
  exact fun heq => h.table_ne_dir hd hk hp h.active heq.1

lemma plays_newTable (h : Spaces m D) (hi : i < 1023) (hflags : flags < pageSize)
    (hf : Spare m D f) {g : ℕ} {r : Role} (hr : (m.addTable i f flags m.pmm).Plays D g r) :
    m.Plays D g r ∨ (g = f ∧ r = tableRole m.cr3 i) := by
  cases hr with
  | kernel hk => exact Or.inl (.kernel hk)
  | dir hd => exact Or.inl (.dir hd)
  | @table d k hd hk hp =>
    rw [h.pde_newTable hi hflags hf hd (hk.trans (by norm_num))] at hp ⊢
    split_ifs at hp ⊢ with heq
    · rw [frameAddr_newEntry hf.dvd hf.lt hflags, heq.1, heq.2]
      exact Or.inr ⟨rfl, rfl⟩
    · exact Or.inl (.table hd hk hp)
  | @page d k l hd hk hpages hl hp hpl =>
    rw [h.pde_newTable hi hflags hf hd (hk.trans (by norm_num))] at hp hpl ⊢
    split_ifs at hp hpl ⊢ with heq
    · rw [frameAddr_newEntry hf.dvd hf.lt hflags, h.entry_newTable hi hflags hf hf.dvd hl,
        if_pos rfl, isPresent_zero] at hpl
      cases hpl
    · rw [h.pte_newTable hi hflags hf hd hk hl hp] at hpl ⊢
      exact Or.inl (.page hd hk hpages hl hp hpl)

lemma pde_allow (h : Spaces m D) (hi : i < 1023) (hflags : flags < pageSize) {d k : ℕ}
    (hd : d ∈ D) (hk : k < 1024) : (m.setPde i (m.pde i ||| flags)).entry d k =
      if d = m.cr3 ∧ k = i then m.entry d k ||| flags else m.entry d k := by
  have hor : m.pde i ||| flags < 2 ^ 32 :=
    Nat.or_lt_two_pow (m.pde_lt i) (hflags.trans (by norm_num))
  rw [entry_setPde (h.dir_dvd _ h.active) (h.dir_dvd d hd) (hi.trans (by norm_num)) hk hor]
  split_ifs with heq
  · rw [heq.1, heq.2]
    rfl
  · rfl

lemma pte_allow (h : Spaces m D) (hi : i < 1023) (hflags : flags < pageSize) {d k l : ℕ}
    (hd : d ∈ D) (hk : k < 1023) (hl : l < 1024) (hp : isPresent (m.entry d k) = true) :
    (m.setPde i (m.pde i ||| flags)).entry (frameAddr (m.entry d k)) l =
      m.entry (frameAddr (m.entry d k)) l := by
  have hor : m.pde i ||| flags < 2 ^ 32 :=
    Nat.or_lt_two_pow (m.pde_lt i) (hflags.trans (by norm_num))
  rw [entry_setPde (h.dir_dvd _ h.active) (frameAddr_dvd _) (hi.trans (by norm_num)) hl hor, if_neg]
  exact fun heq => h.table_ne_dir hd hk hp h.active heq.1

/-- More permissions: the same frames play the same roles. -/
lemma frame_allow (h : Spaces m D) (hi : i < 1023) (hp : isPresent (m.pde i) = true)
    (hflags : flags < pageSize) {d k : ℕ} (hd : d ∈ D) (hk : k < 1024) :
    frameAddr ((m.setPde i (m.pde i ||| flags)).entry d k) = frameAddr (m.entry d k) ∧
      isPresent ((m.setPde i (m.pde i ||| flags)).entry d k) = isPresent (m.entry d k) := by
  rw [h.pde_allow hi hflags hd hk]
  split_ifs with heq
  · have hpresent : isPresent (m.entry d k) = true := by
      rw [heq.1, heq.2]
      exact hp
    rw [frameAddr_or_flags entry_lt hflags, isPresent_or, hpresent, Bool.true_or]
    exact ⟨rfl, rfl⟩
  · exact ⟨rfl, rfl⟩

lemma plays_allow (h : Spaces m D) (hi : i < 1023) (hp : isPresent (m.pde i) = true)
    (hflags : flags < pageSize) {g : ℕ} {r : Role}
    (hr : (m.setPde i (m.pde i ||| flags)).Plays D g r) : m.Plays D g r := by
  cases hr with
  | kernel hk => exact .kernel hk
  | dir hd => exact .dir hd
  | @table d k hd hk hpk =>
    obtain ⟨hframe, hpresent⟩ := h.frame_allow hi hp hflags hd (hk.trans (by norm_num))
    rw [hpresent] at hpk
    rw [hframe]
    exact .table hd hk hpk
  | @page d k l hd hk hpages hl hpk hpl =>
    obtain ⟨hframe, hpresent⟩ := h.frame_allow hi hp hflags hd (hk.trans (by norm_num))
    rw [hpresent] at hpk
    rw [hframe, h.pte_allow hi hflags hd hk hl hpk] at hpl ⊢
    exact .page hd hk hpages hl hpk hpl

lemma pde_setPte (h : Spaces m D) (hi : i < 1023) (hj : j < 1024)
    (hp : isPresent (m.pde i) = true) {v : ℕ} (hv : v < 2 ^ 32) {d k : ℕ} (hd : d ∈ D)
    (hk : k < 1024) : (m.setPte i j v).entry d k = m.entry d k := by
  rw [entry_setPte (h.dir_dvd d hd) hj hk hv, if_neg]
  exact fun heq => h.pde_ne hd hi hp heq.1

lemma pte_setPte (h : Spaces m D) (hi : i < 1023) (hj : j < 1024)
    (hp : isPresent (m.pde i) = true) {v : ℕ} (hv : v < 2 ^ 32) {d k l : ℕ} (hd : d ∈ D)
    (hk : k < 1023) (hl : l < 1024) (hpk : isPresent (m.entry d k) = true) :
    (m.setPte i j v).entry (frameAddr (m.entry d k)) l = v ∧ pageRole d k l = pageRole m.cr3 i j ∨
      (m.setPte i j v).entry (frameAddr (m.entry d k)) l = m.entry (frameAddr (m.entry d k)) l := by
  rw [entry_setPte (frameAddr_dvd _) hj hl hv]
  split_ifs with heq
  · obtain ⟨rfl, hdd⟩ := h.table_inj hd h.active hk hi hpk hp heq.1
    refine Or.inl ⟨rfl, ?_⟩
    rw [heq.2]
    unfold pageRole
    split_ifs with hlt
    · rw [hdd hlt]
    · rfl
  · exact Or.inr rfl

lemma plays_setPte (h : Spaces m D) (hi : i < 1023) (hj : j < 1024)
    (hp : isPresent (m.pde i) = true) {v : ℕ} (hv : v < 2 ^ 32) {g : ℕ} {r : Role}
    (hr : (m.setPte i j v).Plays D g r) :
    m.Plays D g r ∨ (isPresent v = true ∧ g = frameAddr v ∧ r = pageRole m.cr3 i j) := by
  cases hr with
  | kernel hk => exact Or.inl (.kernel hk)
  | dir hd => exact Or.inl (.dir hd)
  | @table d k hd hk hpk =>
    rw [h.pde_setPte hi hj hp hv hd (hk.trans (by norm_num))] at hpk ⊢
    exact Or.inl (.table hd hk hpk)
  | @page d k l hd hk hpages hl hpk hpl =>
    rw [h.pde_setPte hi hj hp hv hd (hk.trans (by norm_num))] at hpk hpl ⊢
    obtain ⟨hnew, hrole⟩ | hold := h.pte_setPte hi hj hp hv hd hk hl hpk
    · rw [hnew] at hpl ⊢
      exact Or.inr ⟨hpl, rfl, hrole⟩
    · rw [hold] at hpl ⊢
      exact Or.inl (.page hd hk hpages hl hpk hpl)

lemma pde_dropTable (h : Spaces m D) (hi : i < 1023) {d k : ℕ} (hd : d ∈ D) (hk : k < 1024) :
    (m.dropTable i).entry d k = if d = m.cr3 ∧ k = i then 0 else m.entry d k :=
  entry_dropTable (h.dir_dvd _ h.active) (h.dir_dvd d hd) (hi.trans (by norm_num)) hk

lemma pte_dropTable (h : Spaces m D) (hi : i < 1023) {d k l : ℕ} (hd : d ∈ D) (hk : k < 1023)
    (hl : l < 1024) (hp : isPresent (m.entry d k) = true) :
    (m.dropTable i).entry (frameAddr (m.entry d k)) l = m.entry (frameAddr (m.entry d k)) l := by
  rw [entry_dropTable (h.dir_dvd _ h.active) (frameAddr_dvd _) (hi.trans (by norm_num)) hl, if_neg]
  exact fun heq => h.table_ne_dir hd hk hp h.active heq.1

/-- The roles that stay are those that do not belong to the slot. -/
lemma plays_dropTable (h : Spaces m D) (hi : i < 1023) {g : ℕ} {r : Role}
    (hr : (m.dropTable i).Plays D g r) : m.Plays D g r ∧ (i < 768 → r ≠ tableRole m.cr3 i) := by
  cases hr with
  | kernel hk => exact ⟨.kernel hk, fun _ => (tableRole_ne_kernel _ _).symm⟩
  | dir hd => exact ⟨.dir hd, fun _ => (tableRole_ne_dir _ _ _).symm⟩
  | @table d k hd hk hp =>
    rw [h.pde_dropTable hi hd (hk.trans (by norm_num))] at hp ⊢
    split_ifs at hp ⊢ with heq
    · cases hp
    · refine ⟨.table hd hk hp, fun hlt hrole => ?_⟩
      obtain ⟨rfl, hdd⟩ := tableRole_inj hrole
      exact heq ⟨hdd hlt, rfl⟩
  | @page d k l hd hk hpages hl hp hpl =>
    rw [h.pde_dropTable hi hd (hk.trans (by norm_num))] at hp hpl ⊢
    split_ifs at hp hpl ⊢ with heq
    · cases hp
    · rw [h.pte_dropTable hi hd hk hl hp] at hpl ⊢
      exact ⟨.page hd hk hpages hl hp hpl, fun _ => pageRole_ne_tableRole _ _ _ _ _⟩

end Spaces

/-! ### Edits keep the roles apart -/

section

variable {m m' : Machine} {D : Owners} {S : Set ℕ}

lemma Edit.cr3 (he : Edit D S m m') : m'.cr3 = m.cr3 := by
  cases he <;> rfl

/-- Only a frame without a role is freed. -/
lemma not_free_of_free {g f : ℕ} {r : Role} {n : Machine} (h : Spaces m D) (hg : pageSize ∣ g)
    (hr : m.Plays D f r) (hpmm : n.pmm = pmmFreePage m.pmm g) (hne : f ≠ g) :
    ¬ n.pmm.Free (f / pageSize) := by
  intro hfree
  obtain ⟨k, rfl⟩ := hg
  rw [hpmm, Nat.mul_comm pageSize k] at hfree
  obtain hold | ⟨hk, -⟩ := (pmmFreePage_free_iff ..).1 hfree
  · exact h.used f r hr hold
  · obtain ⟨l, rfl⟩ := h.plays_dvd hr
    rw [Nat.mul_div_cancel_left l (by norm_num)] at hk
    exact hne (by rw [hk])

/-- Frames are freed only once they have no role. -/
lemma Edit.used (h : Spaces m D) (he : Edit D S m m') {f : ℕ} {r : Role}
    (hr : m'.Plays D f r) : ¬ m'.pmm.Free (f / pageSize) := by
  cases he with
  | take hvalid hfree => exact fun hf => h.used f r (Spaces.plays_withPmm hr) (hfree _ hf)
  | free hg =>
    have hold := Spaces.plays_withPmm hr
    refine not_free_of_free h hg.dvd hold rfl ?_
    rintro rfl
    exact hg.unplayed r hold
  | newTable hS hi hp hflags hkernel hg =>
    obtain hold | ⟨rfl, -⟩ := h.plays_newTable hi hflags hg hr
    · exact h.used f r hold
    · exact hg.used
  | allow hS hi hp hflags hkernel => exact h.used f r (h.plays_allow hi hp hflags hr)
  | map hS hi hj hp hflags hkernel hcovers hg =>
    obtain hold | ⟨-, rfl, -⟩ := h.plays_setPte hi hj hp (newEntry_lt hg.lt hflags) hr
    · exact h.used f r hold
    · rw [frameAddr_newEntry hg.dvd hg.lt hflags]
      exact hg.used
  | unmap hS hi hj hp =>
    obtain hold | ⟨hpresent, -⟩ := h.plays_setPte hi hj hp (by norm_num) hr
    · exact h.used f r hold
    · cases hpresent
  | dropTable hS hi hp hempty =>
    obtain ⟨hold, hne⟩ := h.plays_dropTable (hi.trans (by norm_num)) hr
    refine not_free_of_free h (m.table_dvd _) hold rfl ?_
    rintro rfl
    exact hne hi (h.unique _ _ _ hold (.table h.active (hi.trans (by norm_num)) hp))

lemma valid_free {p : Pmm} {f : ℕ} (h : p.Valid) (hf : pageSize ∣ f) (h0 : f ≠ 0) :
    (pmmFreePage p f).Valid := by
  obtain ⟨k, rfl⟩ := hf
  rw [Nat.mul_comm] at h0 ⊢
  refine ⟨(pmmFreePage_bits ..).trans_le h.bits_le, fun hfree => ?_⟩
  obtain hfree | ⟨rfl, -⟩ := (pmmFreePage_free_iff ..).1 hfree
  · exact h.zero_used hfree
  · exact h0 (Nat.zero_mul _)

lemma Edit.valid (h : Spaces m D) (he : Edit D S m m') : m'.pmm.Valid := by
  cases he with
  | take hvalid hfree => exact hvalid
  | free hg => exact valid_free h.valid hg.dvd hg.ne_zero
  | dropTable hS hi hp hempty =>
    exact valid_free h.valid (m.table_dvd _)
      (h.nonzero _ _ (.table h.active (hi.trans (by norm_num)) hp))
  | _ => exact h.valid

/-- Writing an entry of a table: none, or one for a frame without a role. -/
lemma Spaces.setPte (h : Spaces m D) {i j v : ℕ} (hi : i < 1023) (hj : j < 1024)
    (hp : isPresent (m.pde i) = true) (hv : v < 2 ^ 32)
    (hnew : isPresent v = true → Spare m D (frameAddr v) ∧ Covers (m.pde i) v ∧
      (768 ≤ i → perm v = vmmFlagsRw)) : Spaces (m.setPte i j v) D := by
  have hpde := fun d hd k hk => h.pde_setPte hi hj hp hv (d := d) (k := k) hd hk
  have hpte := fun d hd k hk l hl hpk =>
    h.pte_setPte hi hj hp hv (d := d) (k := k) (l := l) hd hk hl hpk
  have hplays := fun f r hr => h.plays_setPte hi hj hp hv (g := f) (r := r) hr
  refine ⟨h.valid, h.active, h.dir_dvd, h.kernel_dvd, fun d hd => ?_, fun d hd => ?_,
    fun f r hr => ?_,
    fun f r hr => ?_, fun f r r' hr hr' => ?_, fun d hd k hk l hl hpk hpl => ?_,
    fun d hd k hk hk' hpk => ?_, fun d hd k hk hk' l hl hpk hpl => ?_⟩
  · rw [hpde d hd 1023 (by norm_num), h.self d hd]
  · rw [hpde d hd 1023 (by norm_num), h.self_present d hd]
  · obtain hold | ⟨hpresent, rfl, -⟩ := hplays f r hr
    · exact h.nonzero f r hold
    · exact (hnew hpresent).1.ne_zero
  · obtain hold | ⟨hpresent, rfl, -⟩ := hplays f r hr
    · exact h.used f r hold
    · exact (hnew hpresent).1.used
  · by_cases hpresent : isPresent v = true
    · exact h.unique_of (hnew hpresent).1.unplayed
        (fun f r hr => (hplays f r hr).imp_right fun hn => hn.2) hr hr'
    · exact h.unique_of_subset
        (fun f r hr => (hplays f r hr).resolve_right fun hn => hpresent hn.1) hr hr'
  · rw [hpde d hd k (hk.trans (by norm_num))] at hpk hpl ⊢
    obtain ⟨hval, hrole⟩ | hold := hpte d hd k (hk.trans (by norm_num)) l hl hpk
    · obtain ⟨rfl, -, hdd⟩ := pageRole_inj hrole
      rw [hval] at hpl ⊢
      rw [hdd hk]
      exact (hnew hpl).2.1
    · rw [hold] at hpl ⊢
      exact h.covers d hd k hk l hl hpk hpl
  · rw [hpde d hd k (hk'.trans (by norm_num))] at hpk ⊢
    exact h.kernel_pde d hd k hk hk' hpk
  · rw [hpde d hd k (hk'.trans (by norm_num))] at hpk hpl ⊢
    obtain ⟨hval, hrole⟩ | hold := hpte d hd k hk' l hl hpk
    · obtain ⟨rfl, -, -⟩ := pageRole_inj hrole
      rw [hval] at hpl ⊢
      exact (hnew hpl).2.2 hk
    · rw [hold] at hpl ⊢
      exact h.kernel_pte d hd k hk hk' l hl hpk hpl

/-- An edit keeps the roles of the frames apart. -/
lemma Edit.spaces (h : Spaces m D) (he : Edit D S m m') : Spaces m' D := by
  have hvalid := he.valid h
  have hactive : m'.cr3 ∈ D := by
    rw [he.cr3]
    exact h.active
  have hused := fun f r hr => he.used h (f := f) (r := r) hr
  cases he with
  | take hv hfree =>
    exact { h with
      valid := hvalid
      nonzero := fun f r hr => h.nonzero f r (Spaces.plays_withPmm hr)
      used := hused
      unique := fun f r r' hr hr' => h.unique_of_subset (fun _ _ => Spaces.plays_withPmm) hr hr' }
  | free hg =>
    exact { h with
      valid := hvalid
      nonzero := fun f r hr => h.nonzero f r (Spaces.plays_withPmm hr)
      used := hused
      unique := fun f r r' hr hr' => h.unique_of_subset (fun _ _ => Spaces.plays_withPmm) hr hr' }
  | @newTable i g flags hS hi hp hflags hkernel hg =>
    have hpde := fun d hd k hk => h.pde_newTable hi hflags hg (d := d) (k := k) hd hk
    have hzero : ∀ l < 1024, (m.addTable i g flags m.pmm).entry g l = 0 := fun l hl => by
      rw [h.entry_newTable hi hflags hg hg.dvd hl, if_pos rfl]
    have hframe := frameAddr_newEntry hg.dvd hg.lt hflags
    refine ⟨hvalid, hactive, h.dir_dvd, h.kernel_dvd, fun d hd => ?_, fun d hd => ?_,
        fun f r hr => ?_, hused,
      fun f r r' hr hr' => h.unique_of hg.unplayed (fun _ _ => h.plays_newTable hi hflags hg)
        hr hr', fun d hd k hk l hl hpk hpl => ?_, fun d hd k hk hk' hpk => ?_,
      fun d hd k hk hk' l hl hpk hpl => ?_⟩
    · rw [hpde d hd 1023 (by norm_num), if_neg (by omega), h.self d hd]
    · rw [hpde d hd 1023 (by norm_num), if_neg (by omega), h.self_present d hd]
    · obtain hold | ⟨rfl, -⟩ := h.plays_newTable hi hflags hg hr
      · exact h.nonzero f r hold
      · exact hg.ne_zero
    · rw [hpde d hd k (hk.trans (by norm_num))] at hpk hpl ⊢
      split_ifs at hpk hpl ⊢ with heq
      · rw [hframe, hzero l hl] at hpl
        cases hpl
      · rw [h.pte_newTable hi hflags hg hd (hk.trans (by norm_num)) hl hpk] at hpl ⊢
        exact h.covers d hd k hk l hl hpk hpl
    · rw [hpde d hd k (hk'.trans (by norm_num))] at hpk ⊢
      split_ifs at hpk ⊢ with heq
      · rw [perm_or, perm_or, perm_aligned hg.dvd, hkernel (heq.2 ▸ hk)]
        rfl
      · exact h.kernel_pde d hd k hk hk' hpk
    · rw [hpde d hd k (hk'.trans (by norm_num))] at hpk hpl ⊢
      split_ifs at hpk hpl ⊢ with heq
      · rw [hframe, hzero l hl] at hpl
        cases hpl
      · rw [h.pte_newTable hi hflags hg hd hk' hl hpk] at hpl ⊢
        exact h.kernel_pte d hd k hk hk' l hl hpk hpl
  | @allow i flags hS hi hp hflags hkernel =>
    have hpde := fun d hd k hk => h.pde_allow hi hflags (d := d) (k := k) hd hk
    have hsame := fun d hd k hk => h.frame_allow hi hp hflags (d := d) (k := k) hd hk
    have hplays := fun f r hr => h.plays_allow hi hp hflags (g := f) (r := r) hr
    refine ⟨hvalid, hactive, h.dir_dvd, h.kernel_dvd, fun d hd => ?_, fun d hd => ?_,
      fun f r hr => h.nonzero f r (hplays f r hr), hused,
      fun f r r' hr hr' => h.unique_of_subset hplays hr hr', fun d hd k hk l hl hpk hpl => ?_,
      fun d hd k hk hk' hpk => ?_, fun d hd k hk hk' l hl hpk hpl => ?_⟩
    · rw [(hsame d hd 1023 (by norm_num)).1, h.self d hd]
    · rw [(hsame d hd 1023 (by norm_num)).2, h.self_present d hd]
    · obtain ⟨hf, hpr⟩ := hsame d hd k (hk.trans (by norm_num))
      rw [hpr] at hpk
      rw [hf, h.pte_allow hi hflags hd (hk.trans (by norm_num)) hl hpk] at hpl ⊢
      have hcovers := h.covers d hd k hk l hl hpk hpl
      rw [hpde d hd k (hk.trans (by norm_num))]
      split_ifs
      · exact hcovers.or_left flags
      · exact hcovers
    · rw [(hsame d hd k (hk'.trans (by norm_num))).2] at hpk
      have hperm := h.kernel_pde d hd k hk hk' hpk
      rw [hpde d hd k (hk'.trans (by norm_num))]
      split_ifs with heq
      · rw [perm_or, hperm, hkernel (heq.2 ▸ hk)]
        rfl
      · exact hperm
    · obtain ⟨hf, hpr⟩ := hsame d hd k (hk'.trans (by norm_num))
      rw [hpr] at hpk
      rw [hf, h.pte_allow hi hflags hd hk' hl hpk] at hpl ⊢
      exact h.kernel_pte d hd k hk hk' l hl hpk hpl
  | map hS hi hj hp hflags hkernel hcovers hg =>
    refine h.setPte hi hj hp (newEntry_lt hg.lt hflags) fun _ => ⟨?_, hcovers, fun hi' => ?_⟩
    · rwa [frameAddr_newEntry hg.dvd hg.lt hflags]
    · rw [perm_or, perm_or, perm_aligned hg.dvd, hkernel hi']
      rfl
  | unmap hS hi hj hp =>
    exact h.setPte hi hj hp (by norm_num) fun hpresent => absurd hpresent (by simp)
  | @dropTable i hS hi hp hempty =>
    have hi' : i < 1023 := hi.trans (by norm_num)
    have hpde := fun d hd k hk => h.pde_dropTable hi' (d := d) (k := k) hd hk
    have hplays := fun f r hr => (h.plays_dropTable hi' (g := f) (r := r) hr).1
    refine ⟨hvalid, hactive, h.dir_dvd, h.kernel_dvd, fun d hd => ?_, fun d hd => ?_,
      fun f r hr => h.nonzero f r (hplays f r hr), hused,
      fun f r r' hr hr' => h.unique_of_subset hplays hr hr', fun d hd k hk l hl hpk hpl => ?_,
      fun d hd k hk hk' hpk => ?_, fun d hd k hk hk' l hl hpk hpl => ?_⟩
    · rw [hpde d hd 1023 (by norm_num), if_neg (by omega), h.self d hd]
    · rw [hpde d hd 1023 (by norm_num), if_neg (by omega), h.self_present d hd]
    · rw [hpde d hd k (hk.trans (by norm_num))] at hpk hpl ⊢
      split_ifs at hpk hpl ⊢ with heq
      · cases hpk
      · rw [h.pte_dropTable hi' hd (hk.trans (by norm_num)) hl hpk] at hpl ⊢
        exact h.covers d hd k hk l hl hpk hpl
    · rw [hpde d hd k (hk'.trans (by norm_num)), if_neg (by omega)] at hpk ⊢
      exact h.kernel_pde d hd k hk hk' hpk
    · rw [hpde d hd k (hk'.trans (by norm_num)), if_neg (by omega)] at hpk hpl ⊢
      rw [h.pte_dropTable hi' hd hk' hl hpk] at hpl ⊢
      exact h.kernel_pte d hd k hk hk' l hl hpk hpl

end

/-! ### What edits leave alone -/

/-- Nothing has changed outside the slots `S` of the active directory; tables of the upper half
are shared, so that these slots are meant in all spaces there. -/
structure Elsewhere (D : Owners) (S : Set ℕ) (m m' : Machine) : Prop where
  cr3 : m'.cr3 = m.cr3
  pde : ∀ d ∈ D, ∀ k < 1024, d ≠ m.cr3 ∨ k ∉ S → m'.entry d k = m.entry d k
  pte : ∀ d ∈ D, ∀ k < 1023, k < 768 ∧ d ≠ m.cr3 ∨ k ∉ S → isPresent (m.entry d k) = true →
    ∀ l < 1024, m'.entry (frameAddr (m.entry d k)) l = m.entry (frameAddr (m.entry d k)) l
  bytes : ∀ d ∈ D, ∀ k < 1023, HasPages k → k < 768 ∧ d ≠ m.cr3 ∨ k ∉ S →
    isPresent (m.entry d k) = true → ∀ l < 1024,
      isPresent (m.entry (frameAddr (m.entry d k)) l) = true → ∀ x < pageSize,
        m'.phys (frameAddr (m.entry (frameAddr (m.entry d k)) l) + x) =
          m.phys (frameAddr (m.entry (frameAddr (m.entry d k)) l) + x)

lemma Elsewhere.refl (D : Owners) (S : Set ℕ) (m : Machine) : Elsewhere D S m m :=
  ⟨rfl, fun _ _ _ _ _ => rfl, fun _ _ _ _ _ _ _ _ => rfl, fun _ _ _ _ _ _ _ _ _ _ _ _ => rfl⟩

lemma Elsewhere.trans {D : Owners} {S : Set ℕ} {m m' m'' : Machine} (h : Elsewhere D S m m')
    (h' : Elsewhere D S m' m'') : Elsewhere D S m m'' where
  cr3 := h'.cr3.trans h.cr3
  pde d hd k hk hout := by
    rw [h'.pde d hd k hk (by rwa [h.cr3]), h.pde d hd k hk hout]
  pte d hd k hk hout hp l hl := by
    have hpde := h.pde d hd k (hk.trans (by norm_num)) (hout.imp_left fun ho => ho.2)
    have hpte' := h'.pte d hd k hk (by rwa [h.cr3]) (by rwa [hpde]) l hl
    rw [hpde] at hpte'
    rw [hpte', h.pte d hd k hk hout hp l hl]
  bytes d hd k hk hpages hout hp l hl hpl x hx := by
    have hpde := h.pde d hd k (hk.trans (by norm_num)) (hout.imp_left fun ho => ho.2)
    have hpte := h.pte d hd k hk hout hp l hl
    have hbytes' := h'.bytes d hd k hk hpages (by rwa [h.cr3]) (by rwa [hpde]) l hl
    rw [hpde, hpte] at hbytes'
    rw [hbytes' hpl x hx, h.bytes d hd k hk hpages hout hp l hl hpl x hx]

section

variable {m m' : Machine} {D : Owners} {S : Set ℕ} {f g i j v x : ℕ}

/-- Bytes of one frame are not written with an entry of another one. -/
lemma write32_frame (phys : ByteMem) (hf : pageSize ∣ f) (hg : pageSize ∣ g) (hne : g ≠ f)
    (hj : j < 1024) (hx : x < pageSize) : phys.write32 (f + 4 * j) v (g + x) = phys (g + x) := by
  obtain ⟨a, rfl⟩ := hf
  obtain ⟨b, rfl⟩ := hg
  refine ByteMem.write32_of_disjoint _ _ ?_
  simp only [pageSize] at *
  omega

lemma clearFrame_frame (phys : ByteMem) (hf : pageSize ∣ f) (hg : pageSize ∣ g) (hne : g ≠ f)
    (hx : x < pageSize) : clearFrame phys f (g + x) = phys (g + x) := by
  obtain ⟨a, rfl⟩ := hf
  obtain ⟨b, rfl⟩ := hg
  refine clearFrame_of_disjoint ?_
  simp only [pageSize] at *
  omega

lemma Spaces.elsewhere_setPte (h : Spaces m D) (hS : i ∈ S) (hi : i < 1023) (hj : j < 1024)
    (hp : isPresent (m.pde i) = true) (hv : v < 2 ^ 32) : Elsewhere D S m (m.setPte i j v) := by
  refine ⟨rfl, fun d hd k hk _ => h.pde_setPte hi hj hp hv hd hk,
    fun d hd k hk hout hpk l hl => ?_, fun d hd k hk hpages hout hpk l hl hpl x hx => ?_⟩
  · -- the entry that is written is that of a slot in `S`
    refine (h.pte_setPte hi hj hp hv hd hk hl hpk).resolve_left fun hnew => ?_
    obtain ⟨rfl, -, hdd⟩ := pageRole_inj hnew.2
    exact hout.elim (fun ho => ho.2 (hdd ho.1)) (fun hnot => hnot hS)
  · exact write32_frame _ (m.table_dvd i) (frameAddr_dvd _)
      (h.page_ne_table (.page hd hk hpages hl hpk hpl) h.active hi hp) hj hx

/-- An edit is about slots in `S` only. -/
lemma Edit.elsewhere (h : Spaces m D) (he : Edit D S m m') : Elsewhere D S m m' := by
  have hdir := h.dir_dvd m.cr3 h.active
  cases he with
  | take hvalid hfree =>
    exact ⟨rfl, fun _ _ _ _ _ => rfl, fun _ _ _ _ _ _ _ _ => rfl,
      fun _ _ _ _ _ _ _ _ _ _ _ _ => rfl⟩
  | free hf =>
    exact ⟨rfl, fun _ _ _ _ _ => rfl, fun _ _ _ _ _ _ _ _ => rfl,
      fun _ _ _ _ _ _ _ _ _ _ _ _ => rfl⟩
  | @newTable i f flags hS hi hp hflags hkernel hf =>
    refine ⟨rfl, fun d hd k hk hout => ?_, fun d hd k hk hout hpk l hl =>
      h.pte_newTable hi hflags hf hd hk hl hpk,
      fun d hd k hk hpages hout hpk l hl hpl x hx => ?_⟩
    · rw [h.pde_newTable hi hflags hf hd hk, if_neg]
      rintro ⟨rfl, rfl⟩
      exact hout.elim (fun hne => hne rfl) (fun hnot => hnot hS)
    · have hplays := Plays.page hd hk hpages hl hpk hpl
      have hne : frameAddr (m.entry (frameAddr (m.entry d k)) l) ≠ f := by
        intro heq
        exact hf.unplayed _ (heq ▸ hplays)
      exact (clearFrame_frame _ hf.dvd (frameAddr_dvd _) hne hx).trans (write32_frame _ hdir
        (frameAddr_dvd _) (h.page_ne_dir hplays h.active) (hi.trans (by norm_num)) hx)
  | @allow i flags hS hi hp hflags hkernel =>
    refine ⟨rfl, fun d hd k hk hout => ?_, fun d hd k hk hout hpk l hl =>
      h.pte_allow hi hflags hd hk hl hpk, fun d hd k hk hpages hout hpk l hl hpl x hx => ?_⟩
    · rw [h.pde_allow hi hflags hd hk, if_neg]
      rintro ⟨rfl, rfl⟩
      exact hout.elim (fun hne => hne rfl) (fun hnot => hnot hS)
    · exact write32_frame _ hdir (frameAddr_dvd _)
        (h.page_ne_dir (.page hd hk hpages hl hpk hpl) h.active) (hi.trans (by norm_num)) hx
  | map hS hi hj hp hflags hkernel hcovers hf =>
    exact h.elsewhere_setPte hS hi hj hp (newEntry_lt hf.lt hflags)
  | unmap hS hi hj hp => exact h.elsewhere_setPte hS hi hj hp (by norm_num)
  | @dropTable i hS hi hp hempty =>
    have hi' : i < 1023 := hi.trans (by norm_num)
    refine ⟨rfl, fun d hd k hk hout => ?_, fun d hd k hk hout hpk l hl =>
      h.pte_dropTable hi' hd hk hl hpk, fun d hd k hk hpages hout hpk l hl hpl x hx => ?_⟩
    · rw [h.pde_dropTable hi' hd hk, if_neg]
      rintro ⟨rfl, rfl⟩
      exact hout.elim (fun hne => hne rfl) (fun hnot => hnot hS)
    · exact write32_frame _ hdir (frameAddr_dvd _)
        (h.page_ne_dir (.page hd hk hpages hl hpk hpl) h.active) (hi'.trans (by norm_num)) hx

end

/-! ### Any number of edits -/

/-- Edits about the slots `S` of the active directory. -/
abbrev Edits (D : Owners) (S : Set ℕ) : Machine → Machine → Prop := ReflTransGen (Edit D S)

namespace Edits

variable {m m' : Machine} {D : Owners} {S : Set ℕ}

lemma spaces (h : Spaces m D) (he : Edits D S m m') : Spaces m' D := by
  induction he with
  | refl => exact h
  | tail _ he ih => exact he.spaces ih

lemma elsewhere (h : Spaces m D) (he : Edits D S m m') : Elsewhere D S m m' := by
  induction he with
  | refl => exact .refl D S m
  | tail hs he ih => exact ih.trans (he.elsewhere (spaces h hs))

lemma cr3 (he : Edits D S m m') : m'.cr3 = m.cr3 := by
  induction he with
  | refl => rfl
  | tail _ he ih => rw [he.cr3, ih]

lemma mono {S' : Set ℕ} (hS : S ⊆ S') (he : Edits D S m m') : Edits D S' m m' := by
  refine ReflTransGen.mono ?_ _ _ he
  intro m m' he
  cases he with
  | take hvalid hfree => exact .take hvalid hfree
  | free hf => exact .free hf
  | newTable hi hlt hp hflags hkernel hf => exact .newTable (hS hi) hlt hp hflags hkernel hf
  | allow hi hlt hp hflags hkernel => exact .allow (hS hi) hlt hp hflags hkernel
  | map hi hlt hj hp hflags hkernel hcovers hf =>
    exact .map (hS hi) hlt hj hp hflags hkernel hcovers hf
  | unmap hi hlt hj hp => exact .unmap (hS hi) hlt hj hp
  | dropTable hi hlt hp hempty => exact .dropTable (hS hi) hlt hp hempty

end Edits

end Gummy
