import Gummy.Bitmap
import Gummy.Defs

/-!
The physical frame allocator of `pmm.c`.

One bit of the bitmap stands for one 4 KiB frame, set when the frame is used.
`Pmm.Free` is the abstract view, the set of frames that may be handed out, and
the lemmas about the two calls are stated in it.  `pmmInit_free_iff` describes
the set that `pmm_init` leaves behind, for any memory map.
-/

namespace Gummy

open CWord

/-! ### The allocator -/

/-- The variables of `pmm.c` once `pmm_init` has set the bitmap pointer. -/
structure Pmm where
  bitmap : ByteMem
  bitmapBits : ℕ
  bitmapBytes : ℕ
  physTop : ℕ
  usableMem : ℕ

/-- `pmm_alloc_page`: the frame's address, `0` for failure. -/
def pmmAllocPage (p : Pmm) : ℕ × Pmm :=
  if p.bitmapBits = 0 then (0, p)
  else
    let page := bitmapFindFreeBit p.bitmap p.bitmapBits
    if page = 0 then (0, p)
    else (u32 (page * pageSize), { p with bitmap := bitmapSetBit p.bitmap page })

/-- `pmm_free_page`. -/
def pmmFreePage (p : Pmm) (page : ℕ) : Pmm :=
  if p.bitmapBits = 0 then p
  else { p with bitmap := bitmapClearBit p.bitmap (page / pageSize) }

namespace Pmm

/-- Frame `f` may be handed out. -/
def Free (p : Pmm) (f : ℕ) : Prop := f < p.bitmapBits ∧ isFree p.bitmap f = true

/-- What `pmm_init` establishes and every call relies on: the bitmap covers at
most 4 GiB, and frame 0, whose number doubles as the failure value, is used. -/
structure Valid (p : Pmm) : Prop where
  bits_le : p.bitmapBits ≤ 2 ^ 20
  zero_used : ¬ p.Free 0

end Pmm

/-- Either there is no free frame and nothing changes, or the bit of the lowest one is
set and its address returned. -/
lemma pmmAllocPage_cases {p : Pmm} (hp : p.Valid) :
    (pmmAllocPage p = (0, p) ∧ ∀ f, ¬ p.Free f) ∨
      ∃ f, pmmAllocPage p = (f * pageSize, { p with bitmap := bitmapSetBit p.bitmap f }) ∧
        0 < f ∧ p.Free f ∧ ∀ g < f, ¬ p.Free g := by
  have hbits := hp.bits_le
  have hfind := bitmapFindFreeBit_eq p.bitmap (show p.bitmapBits < 2 ^ 32 by omega)
  unfold pmmAllocPage
  by_cases h0 : p.bitmapBits = 0
  · exact Or.inl ⟨if_pos h0, fun f hf => by have := hf.1; omega⟩
  rw [if_neg h0, hfind]
  cases hres : (List.range p.bitmapBits).find? (isFree p.bitmap) with
  | none =>
    refine Or.inl ⟨rfl, fun f hf => ?_⟩
    rw [List.find?_eq_none] at hres
    exact hres f (List.mem_range.2 hf.1) hf.2
  | some f =>
    have hmem : f < p.bitmapBits := List.mem_range.1 (List.mem_of_find?_eq_some hres)
    have hfree : p.Free f := ⟨hmem, List.find?_some hres⟩
    have hpos : 0 < f := Nat.pos_of_ne_zero fun h => hp.zero_used (h ▸ hfree)
    refine Or.inr ⟨f, ?_, hpos, hfree, ?_⟩
    · simp only [Option.getD_some, hpos.ne', if_false, pageSize]
      rw [u32_of_lt (by omega)]
    · rintro g hg ⟨hg1, hg2⟩
      have hlt := List.find?_range_eq_some.1 hres
      simpa [hg2] using hlt.2.2 g hg

/-- Either there is no free frame and nothing changes, or the lowest one is
returned and is the only one to become used. -/
lemma pmmAllocPage_spec {p : Pmm} (hp : p.Valid) :
    (pmmAllocPage p = (0, p) ∧ ∀ f, ¬ p.Free f) ∨
      ∃ f p', pmmAllocPage p = (f * pageSize, p') ∧ 0 < f ∧ p.Free f ∧ (∀ g < f, ¬ p.Free g) ∧
        p'.bitmapBits = p.bitmapBits ∧ ∀ g, p'.Free g ↔ p.Free g ∧ g ≠ f := by
  obtain hnone | ⟨f, heq, hpos, hfree, hlow⟩ := pmmAllocPage_cases hp
  · exact Or.inl hnone
  · refine Or.inr ⟨f, _, heq, hpos, hfree, hlow, rfl, fun g => ?_⟩
    simp only [Pmm.Free, isFree, bitmapTestBit_setBit]
    by_cases hgf : f = g
    · simp [hgf]
    · simp [hgf, Ne.symm hgf]

lemma pmmFreePage_bits (p : Pmm) (page : ℕ) :
    (pmmFreePage p page).bitmapBits = p.bitmapBits := by
  unfold pmmFreePage
  split_ifs <;> rfl

lemma pmmFreePage_free_iff (p : Pmm) (f g : ℕ) :
    (pmmFreePage p (f * pageSize)).Free g ↔ p.Free g ∨ (g = f ∧ f < p.bitmapBits) := by
  unfold pmmFreePage
  by_cases h0 : p.bitmapBits = 0
  · rw [if_pos h0]
    exact ⟨Or.inl, fun h => h.elim id fun h => absurd h.2 (by omega)⟩
  · rw [if_neg h0]
    simp only [Pmm.Free, isFree, bitmapTestBit_clearBit, pageSize,
      Nat.mul_div_cancel f (show 0 < 4096 by norm_num)]
    by_cases hgf : f = g
    · subst hgf
      simpa using And.left
    · simp [hgf, Ne.symm hgf]

/-! ### Initialisation -/

/-- `e820_entry_t`: 64-bit base and length, 32-bit type and attributes. -/
structure E820Entry where
  base : ℕ
  length : ℕ
  type : ℕ
  acpiExtended : ℕ

/-- The entry starts below the last byte of the 4 GiB the kernel can address;
`pmm_init` skips the others. -/
def E820Entry.Low (e : E820Entry) : Prop := e.base < 0xFFFFFFFF

instance (e : E820Entry) : Decidable e.Low := inferInstanceAs (Decidable (_ < _))

/-- `MIN(entry.base + entry.length, 0xFFFFFFFF)`, a sum of `uint64_t`. -/
def E820Entry.stop (e : E820Entry) : ℕ := min ((e.base + e.length) % 2 ^ 64) 0xFFFFFFFF

/-- The first loop of `pmm_init`: `phys_top` and `usable_mem`. -/
def scanE820 (entries : List E820Entry) : ℕ × ℕ :=
  entries.foldl
    (fun (physTop, usableMem) e =>
      if ¬ e.Low then (physTop, usableMem)
      else
        (max physTop e.stop,
          if e.type = 1 then u32 (usableMem + (e.stop + 2 ^ 64 - e.base) % 2 ^ 64)
          else usableMem))
    (0, 0)

/-- `for (page = lo; page < hi; page++) bitmap_clear_bit(bitmap, page);` -/
def clearPages (bmp : ByteMem) (lo hi : ℕ) : ByteMem :=
  (List.range' lo (hi - lo)).foldl bitmapClearBit bmp

/-- `for (page = lo; page < hi; page++) bitmap_set_bit(bitmap, page);` -/
def setPages (bmp : ByteMem) (lo hi : ℕ) : ByteMem :=
  (List.range' lo (hi - lo)).foldl bitmapSetBit bmp

/-- The first whole page of an entry. -/
def E820Entry.startPage (e : E820Entry) : ℕ := u32 (alignUp 64 e.base pageSize / pageSize)

/-- The page after the last whole page of an entry. -/
def E820Entry.endPage (e : E820Entry) : ℕ := alignDown 32 e.stop pageSize / pageSize

/-- The second loop of `pmm_init`: whole pages of usable ranges become free. -/
def freeE820 (bmp : ByteMem) (entries : List E820Entry) : ByteMem :=
  entries.foldl
    (fun bmp e =>
      if e.type ≠ 1 then bmp
      else if ¬ e.Low then bmp
      else clearPages bmp e.startPage e.endPage)
    bmp

/-- `&__kernel_start`, fixed by the linker script. -/
abbrev kernelStartVirt : ℕ := 0xC0010000

/-- The distance between the kernel's virtual and physical addresses. -/
abbrev kernelOffset : ℕ := 0xC0000000

/-- `pmm_init`, for the memory map `entries`, with `__kernel_end` at the virtual
address `kernelEnd` and the bytes `mem` there before. -/
def pmmInit (mem : ByteMem) (entries : List E820Entry) (kernelEnd : ℕ) : Pmm :=
  let (physTop, usableMem) := scanE820 entries
  let bitmapBits := physTop / pageSize
  let bitmapBytes := alignUp 32 bitmapBits 8 / 8
  let bitmap : ByteMem := fun i => if i < bitmapBytes then 0xFF else mem i
  let bitmap := freeE820 bitmap entries
  let kendVirt := u32 (kernelEnd + bitmapBytes)
  let kernelStartPhys := sub32 kernelStartVirt kernelOffset
  let kernelEndPhys := sub32 kendVirt kernelOffset
  let kernelStartPage := alignDown 32 kernelStartPhys pageSize / pageSize
  let kernelEndPage := alignUp 32 kernelEndPhys pageSize / pageSize
  let bitmap := setPages bitmap kernelStartPage (min kernelEndPage bitmapBits)
  -- the E820 table lies below 64 KiB
  let bitmap := setPages bitmap 0 16
  { bitmap, bitmapBits, bitmapBytes, physTop, usableMem }

lemma isFree_clearPages (bmp : ByteMem) (lo hi f : ℕ) :
    isFree (clearPages bmp lo hi) f = (decide (lo ≤ f ∧ f < hi) || isFree bmp f) := by
  have hfold : ∀ (l : List ℕ) (b : ByteMem),
      isFree (l.foldl bitmapClearBit b) f = (decide (f ∈ l) || isFree b f) := by
    intro l
    induction l with
    | nil => simp
    | cons a l ih =>
      intro b
      rw [List.foldl_cons, ih, isFree, bitmapTestBit_clearBit]
      by_cases haf : a = f
      · simp [haf]
      · simp [haf, Ne.symm haf, isFree]
  rw [clearPages, hfold]
  congr 1
  simp only [List.mem_range'_1, decide_eq_decide]
  omega

lemma isFree_setPages (bmp : ByteMem) (lo hi f : ℕ) :
    isFree (setPages bmp lo hi) f = (!decide (lo ≤ f ∧ f < hi) && isFree bmp f) := by
  have hfold : ∀ (l : List ℕ) (b : ByteMem),
      isFree (l.foldl bitmapSetBit b) f = (!decide (f ∈ l) && isFree b f) := by
    intro l
    induction l with
    | nil => simp
    | cons a l ih =>
      intro b
      rw [List.foldl_cons, ih, isFree, bitmapTestBit_setBit]
      by_cases haf : a = f
      · simp [haf]
      · simp [haf, Ne.symm haf, isFree]
  rw [setPages, hfold]
  congr 2
  simp only [List.mem_range'_1, decide_eq_decide]
  omega

lemma isFree_freeE820 (bmp : ByteMem) (entries : List E820Entry) (f : ℕ) :
    isFree (freeE820 bmp entries) f = true ↔
      (∃ e ∈ entries, e.type = 1 ∧ e.Low ∧ e.startPage ≤ f ∧ f < e.endPage) ∨
        isFree bmp f = true := by
  unfold freeE820
  induction entries generalizing bmp with
  | nil => simp
  | cons e es ih =>
    rw [List.foldl_cons, ih]
    simp only [List.mem_cons, exists_eq_or_imp]
    by_cases ht : e.type = 1
    · by_cases hl : e.Low
      · simp only [ht, hl, ne_eq, not_true_eq_false, if_false, true_and, isFree_clearPages,
          Bool.or_eq_true, decide_eq_true_eq]
        exact or_left_comm.trans or_assoc.symm
      · simp [ht, hl]
    · simp [ht]

/-- `phys_top` is the highest end of the low entries. -/
lemma scanE820_fst (entries : List E820Entry) :
    (scanE820 entries).1 = ((entries.filter (·.Low)).map E820Entry.stop).foldl max 0 := by
  have hfold : ∀ (l : List E820Entry) (a b : ℕ),
      (l.foldl
        (fun (p : ℕ × ℕ) e =>
          if ¬ e.Low then (p.1, p.2)
          else
            (max p.1 e.stop,
              if e.type = 1 then u32 (p.2 + (e.stop + 2 ^ 64 - e.base) % 2 ^ 64) else p.2))
        (a, b)).1 = ((l.filter (·.Low)).map E820Entry.stop).foldl max a := by
    intro l
    induction l with
    | nil => simp
    | cons e l ih =>
      intro a b
      by_cases hl : e.Low
      · simp only [List.foldl_cons, hl, not_true_eq_false, if_false, ih, decide_true,
          List.filter_cons_of_pos, List.map_cons]
      · simp only [List.foldl_cons, hl, not_false_eq_true, if_true, ih, decide_false,
          Bool.false_eq_true, List.filter_cons_of_neg]
  exact hfold entries 0 0

/-- The address after the highest byte of the low entries, which sizes the
bitmap. -/
def e820Top (entries : List E820Entry) : ℕ :=
  ((entries.filter (·.Low)).map E820Entry.stop).foldl max 0

lemma le_foldl_max (l : List ℕ) (a : ℕ) : a ≤ l.foldl max a ∧ ∀ x ∈ l, x ≤ l.foldl max a := by
  induction l generalizing a with
  | nil => simp
  | cons x l ih =>
    obtain ⟨h1, h2⟩ := ih (max a x)
    refine ⟨le_trans (le_max_left a x) h1, ?_⟩
    rintro y (_ | ⟨_, hy⟩)
    · exact le_trans (le_max_right a x) h1
    · exact h2 y hy

lemma foldl_max_le {l : List ℕ} {a b : ℕ} (ha : a ≤ b) (hl : ∀ x ∈ l, x ≤ b) :
    l.foldl max a ≤ b := by
  induction l generalizing a with
  | nil => exact ha
  | cons x l ih =>
    exact ih (max_le ha (hl x List.mem_cons_self)) fun y hy => hl y (List.mem_cons_of_mem x hy)

lemma stop_le_e820Top {entries : List E820Entry} {e : E820Entry} (he : e ∈ entries)
    (hlow : e.Low) : e.stop ≤ e820Top entries :=
  (le_foldl_max _ 0).2 _ (List.mem_map_of_mem (List.mem_filter.2 ⟨he, by simpa using hlow⟩))

lemma e820Top_lt (entries : List E820Entry) : e820Top entries < 2 ^ 32 := by
  have h : e820Top entries ≤ 0xFFFFFFFF := by
    refine foldl_max_le (by norm_num) fun x hx => ?_
    obtain ⟨e, -, rfl⟩ := List.mem_map.1 hx
    exact min_le_right _ _
  omega

/-- The pages `pmm_init` frees for an entry are those that lie inside it. -/
lemma E820Entry.pages_iff {e : E820Entry} (h : e.Low) (f : ℕ) :
    e.startPage ≤ f ∧ f < e.endPage ↔ e.base ≤ f * pageSize ∧ (f + 1) * pageSize ≤ e.stop := by
  have hbase : e.base < 0xFFFFFFFF := h
  have hstop : e.stop ≤ 0xFFFFFFFF := min_le_right _ _
  have hs : e.startPage = (e.base + 4095) / 4096 := by
    rw [startPage, pageSize, show (4096 : ℕ) = 2 ^ 12 by norm_num, alignUp_two_pow (by norm_num),
      u32_of_lt (by omega)]
    omega
  have he : e.endPage = e.stop / 4096 := by
    rw [endPage, pageSize, show (4096 : ℕ) = 2 ^ 12 by norm_num,
      alignDown_two_pow (by norm_num) (by omega)]
    omega
  rw [hs, he, pageSize]
  omega

section Init

variable (mem : ByteMem) (entries : List E820Entry)

lemma pmmInit_bitmapBits (kernelEnd : ℕ) :
    (pmmInit mem entries kernelEnd).bitmapBits = e820Top entries / pageSize := by
  rw [e820Top, ← scanE820_fst]
  rfl

lemma pmmInit_bitmapBytes (kernelEnd : ℕ) :
    (pmmInit mem entries kernelEnd).bitmapBytes = (e820Top entries / pageSize + 7) / 8 := by
  have hbytes : (pmmInit mem entries kernelEnd).bitmapBytes
      = alignUp 32 ((scanE820 entries).1 / pageSize) 8 / 8 := rfl
  have hlt := e820Top_lt entries
  rw [hbytes, scanE820_fst, ← e820Top, pageSize, show (8 : ℕ) = 2 ^ 3 by norm_num,
    alignUp_two_pow (by norm_num)]
  omega

variable {kernelEnd : ℕ}

/-- The page after the kernel image and the bitmap. -/
def kernelEndPage (kernelEnd : ℕ) : ℕ :=
  (kernelEnd - kernelOffset + (e820Top entries / pageSize + 7) / 8 + 4095) / 4096

lemma kernelEndPage_eq (hk : kernelOffset ≤ kernelEnd) (hfit : kernelEnd + 0x20000 < 2 ^ 32) :
    alignUp 32 (sub32 (u32 (kernelEnd + (pmmInit mem entries kernelEnd).bitmapBytes))
      kernelOffset) pageSize / pageSize = kernelEndPage entries kernelEnd := by
  have htop := e820Top_lt entries
  rw [pmmInit_bitmapBytes, kernelEndPage]
  simp only [pageSize, kernelOffset] at *
  rw [u32_of_lt (by omega), sub32_of_le (by omega) (by omega),
    show (4096 : ℕ) = 2 ^ 12 by norm_num, alignUp_two_pow (by norm_num)]
  omega

lemma pmmInit_bitmap (hk : kernelOffset ≤ kernelEnd) (hfit : kernelEnd + 0x20000 < 2 ^ 32) :
    (pmmInit mem entries kernelEnd).bitmap = setPages (setPages
      (freeE820 (fun i => if i < (e820Top entries / pageSize + 7) / 8 then 0xFF else mem i)
        entries) 16 (min (kernelEndPage entries kernelEnd) (e820Top entries / pageSize))) 0 16 := by
  rw [← kernelEndPage_eq mem entries hk hfit, ← pmmInit_bitmapBytes mem entries kernelEnd,
    ← pmmInit_bitmapBits mem entries kernelEnd]
  rfl

/-- **The frames `pmm_init` leaves free**: those that lie inside a usable range,
above the first 64 KiB and above the kernel and the bitmap. -/
theorem pmmInit_free_iff (hk : kernelOffset ≤ kernelEnd) (hfit : kernelEnd + 0x20000 < 2 ^ 32)
    (f : ℕ) :
    (pmmInit mem entries kernelEnd).Free f ↔
      (∃ e ∈ entries, e.type = 1 ∧ e.Low ∧ e.base ≤ f * pageSize ∧
        (f + 1) * pageSize ≤ e.stop) ∧ 16 ≤ f ∧ kernelEndPage entries kernelEnd ≤ f := by
  unfold Pmm.Free
  rw [pmmInit_bitmapBits, pmmInit_bitmap mem entries hk hfit, isFree_setPages, isFree_setPages]
  generalize kernelEndPage entries kernelEnd = k
  have hfull : f < e820Top entries / pageSize →
      isFree (fun i => if i < (e820Top entries / pageSize + 7) / 8 then 0xFF else mem i) f
        = false := by
    intro hf
    rw [show f = f / 8 * 8 + f % 8 by omega]
    exact isFree_full (if_pos (by omega)) (Nat.mod_lt _ (by norm_num))
  constructor
  · rintro ⟨hf, hfree⟩
    simp only [Bool.and_eq_true, Bool.not_eq_true', decide_eq_false_iff_not, isFree_freeE820,
      hfull hf, Bool.false_eq_true, or_false] at hfree
    obtain ⟨h16, hker, e, he, ht, hl, hlo, hhi⟩ := hfree
    exact ⟨⟨e, he, ht, hl, (E820Entry.pages_iff hl f).1 ⟨hlo, hhi⟩⟩, by omega, by omega⟩
  · rintro ⟨⟨e, he, ht, hl, hpages⟩, h16, hker⟩
    have hstop := stop_le_e820Top he hl
    have hf : f < e820Top entries / pageSize := by
      simp only [pageSize] at hpages ⊢
      omega
    refine ⟨hf, ?_⟩
    simp only [Bool.and_eq_true, Bool.not_eq_true', decide_eq_false_iff_not, isFree_freeE820,
      hfull hf, Bool.false_eq_true, or_false]
    exact ⟨by omega, by omega, e, he, ht, hl, (E820Entry.pages_iff hl f).2 hpages⟩

end Init

end Gummy
