import Gummy.Pmm
import Mathlib

/-!
Which memory `pmm_init` leaves free.

Ranges are taken as exact numbers, so that an entry whose base and length add up to more
than `2 ^ 64` reaches past every address.  `pmm_init` looks at the usable entries only: a
range of another type is not carved out of a usable one that it overlaps.
-/

namespace Gummy

open CWord

/-- The addresses of an entry. -/
def E820Entry.range (e : E820Entry) : Set ℕ := Set.Ico e.base (e.base + e.length)

/-- The addresses of a frame. -/
def frameRange (f : ℕ) : Set ℕ := Set.Ico (f * pageSize) ((f + 1) * pageSize)

/-- The kernel image and the bitmap behind it. -/
def kernelRange (p : Pmm) (kernelEnd : ℕ) : Set ℕ :=
  Set.Ico (kernelStartVirt - kernelOffset) (kernelEnd - kernelOffset + p.bitmapBytes)

/-! ### Writes to the bitmap -/

lemma bitmapSetBit_off (bmp : ByteMem) {i bit : ℕ} (h : bit / 8 ≠ i) :
    bitmapSetBit bmp bit i = bmp i :=
  ByteMem.write8_of_ne bmp _ h.symm

lemma bitmapClearBit_off (bmp : ByteMem) {i bit : ℕ} (h : bit / 8 ≠ i) :
    bitmapClearBit bmp bit i = bmp i :=
  ByteMem.write8_of_ne bmp _ h.symm

lemma setPages_off (bmp : ByteMem) {lo hi i : ℕ} (h : ∀ page < hi, page / 8 ≠ i) :
    setPages bmp lo hi i = bmp i := by
  have hfold : ∀ (l : List ℕ) (b : ByteMem), (∀ page ∈ l, page / 8 ≠ i) →
      l.foldl bitmapSetBit b i = b i := by
    intro l
    induction l with
    | nil => exact fun b _ => rfl
    | cons page l ih =>
      intro b hl
      rw [List.foldl_cons, ih _ fun q hq => hl q (List.mem_cons_of_mem page hq)]
      exact bitmapSetBit_off b (hl page List.mem_cons_self)
  refine hfold _ bmp fun page hpage => h page ?_
  have := List.mem_range'_1.1 hpage
  omega

lemma clearPages_off (bmp : ByteMem) {lo hi i : ℕ} (h : ∀ page < hi, page / 8 ≠ i) :
    clearPages bmp lo hi i = bmp i := by
  have hfold : ∀ (l : List ℕ) (b : ByteMem), (∀ page ∈ l, page / 8 ≠ i) →
      l.foldl bitmapClearBit b i = b i := by
    intro l
    induction l with
    | nil => exact fun b _ => rfl
    | cons page l ih =>
      intro b hl
      rw [List.foldl_cons, ih _ fun q hq => hl q (List.mem_cons_of_mem page hq)]
      exact bitmapClearBit_off b (hl page List.mem_cons_self)
  refine hfold _ bmp fun page hpage => h page ?_
  have := List.mem_range'_1.1 hpage
  omega

/-- The pages of an entry have a bit in the bitmap. -/
lemma endPage_le {entries : List E820Entry} {e : E820Entry} (he : e ∈ entries) (hlow : e.Low) :
    e.endPage ≤ e820Top entries / pageSize := by
  have hstop := stop_le_e820Top he hlow
  have hlt : e.stop ≤ 0xFFFFFFFF := min_le_right _ _
  rw [E820Entry.endPage, pageSize, show (4096 : ℕ) = 2 ^ 12 by norm_num,
    alignDown_two_pow (by norm_num) (by omega)]
  omega

lemma freeE820_off {entries : List E820Entry} {bits i : ℕ}
    (hpages : ∀ e ∈ entries, e.Low → e.endPage ≤ bits) (hi : ∀ page < bits, page / 8 ≠ i)
    (bmp : ByteMem) : freeE820 bmp entries i = bmp i := by
  unfold freeE820
  induction entries generalizing bmp with
  | nil => rfl
  | cons e es ih =>
    rw [List.foldl_cons, ih fun e' he' => hpages e' (List.mem_cons_of_mem e he')]
    split_ifs with htype hlow
    · rfl
    · have hend := hpages e List.mem_cons_self hlow
      exact clearPages_off bmp fun page hpage => hi page (hpage.trans_le hend)
    · rfl

section

variable {mem : ByteMem} {entries : List E820Entry} {kernelEnd : ℕ}

/-- A bit that is left clear belongs to a frame below the top of memory. -/
lemma pmmInit_clear_free (hk : kernelOffset ≤ kernelEnd) (hfit : kernelEnd + 0x20000 < 2 ^ 32)
    {f : ℕ} (hf : f < 8 * (pmmInit mem entries kernelEnd).bitmapBytes)
    (hclear : isFree (pmmInit mem entries kernelEnd).bitmap f = true) :
    (pmmInit mem entries kernelEnd).Free f := by
  refine ⟨?_, hclear⟩
  rw [pmmInit_bitmapBytes] at hf
  rw [pmmInit_bitmapBits]
  rw [pmmInit_bitmap mem entries hk hfit, isFree_setPages, isFree_setPages] at hclear
  simp only [Bool.and_eq_true, isFree_freeE820] at hclear
  obtain ⟨-, -, ⟨e, he, -, hlow, -, hend⟩ | hfull⟩ := hclear
  · exact hend.trans_le (endPage_le he hlow)
  · rw [show f = f / 8 * 8 + f % 8 by omega] at hfull
    rw [isFree_full (if_pos (by omega)) (Nat.mod_lt _ (by norm_num))] at hfull
    exact absurd hfull (by simp)

/-- Where the bitmap has two bytes, no byte behind it is written. -/
lemma pmmInit_bitmap_off (hk : kernelOffset ≤ kernelEnd) (hfit : kernelEnd + 0x20000 < 2 ^ 32)
    (htwo : 2 ≤ (pmmInit mem entries kernelEnd).bitmapBytes) {i : ℕ}
    (hi : (pmmInit mem entries kernelEnd).bitmapBytes ≤ i) :
    (pmmInit mem entries kernelEnd).bitmap i = mem i := by
  rw [pmmInit_bitmapBytes] at htwo hi
  have hbits : ∀ page < e820Top entries / pageSize, page / 8 ≠ i := by
    intro page hpage
    omega
  rw [pmmInit_bitmap mem entries hk hfit, setPages_off _ (by omega),
    setPages_off _ fun page hpage => hbits page (hpage.trans_le (min_le_right _ _)),
    freeE820_off (fun e he hlow => endPage_le he hlow) hbits, if_neg (by omega)]

/-- A free frame lies inside the usable entry that `pmm_init` took it from. -/
lemma frameRange_subset {e : E820Entry} {f : ℕ} (hlo : e.base ≤ f * pageSize)
    (hhi : (f + 1) * pageSize ≤ e.stop) : frameRange f ⊆ e.range := by
  have hstop : e.stop ≤ e.base + e.length := by
    exact (min_le_left _ _).trans (Nat.mod_le _ _)
  exact Set.Ico_subset_Ico hlo (hhi.trans hstop)

lemma disjoint_of_le_frame {f lo hi : ℕ} (h : hi ≤ f * pageSize) :
    Disjoint (frameRange f) (Set.Ico lo hi) := by
  refine Set.disjoint_left.2 fun x hx hx' => ?_
  exact absurd (hx'.2.trans_le h) (not_lt.2 hx.1)

/-- Whatever the memory map, a frame that `pmm_init` leaves free lies inside one usable
range, above the first 64 KiB, and holds no part of the kernel or the bitmap; an entry of
another type can meet it only by overlapping a usable one.  Where the bitmap has at least
two bytes, nothing behind it is written. -/
theorem pmmInit_clear_usable (mem : ByteMem) (entries : List E820Entry)
    (hk : kernelStartVirt ≤ kernelEnd) (hfit : kernelEnd + 0x20000 < 2 ^ 32) :
    (∀ f < 8 * (pmmInit mem entries kernelEnd).bitmapBytes,
      isFree (pmmInit mem entries kernelEnd).bitmap f = true →
        (∃ e ∈ entries, e.type = 1 ∧ frameRange f ⊆ e.range) ∧
        (∀ e' ∈ entries, e'.type ≠ 1 →
          (∀ e ∈ entries, e.type = 1 → Disjoint e.range e'.range) →
            Disjoint (frameRange f) e'.range) ∧
        Disjoint (frameRange f) (Set.Ico 0 0x10000) ∧
        Disjoint (frameRange f) (kernelRange (pmmInit mem entries kernelEnd) kernelEnd)) ∧
    (2 ≤ (pmmInit mem entries kernelEnd).bitmapBytes →
      ∀ i, (pmmInit mem entries kernelEnd).bitmapBytes ≤ i →
        (pmmInit mem entries kernelEnd).bitmap i = mem i) := by
  have hk' : kernelOffset ≤ kernelEnd := le_trans (by norm_num) hk
  refine ⟨fun f hf hclear => ?_, fun htwo i hi => pmmInit_bitmap_off hk' hfit htwo hi⟩
  obtain ⟨⟨e, he, htype, -, hlo, hhi⟩, h16, hker⟩ :=
    (pmmInit_free_iff mem entries hk' hfit f).1 (pmmInit_clear_free hk' hfit hf hclear)
  have hsub := frameRange_subset hlo hhi
  refine ⟨⟨e, he, htype, hsub⟩, fun e' _ _ hall => (hall e he htype).mono_left hsub, ?_, ?_⟩
  · exact disjoint_of_le_frame (by simp only [pageSize]; omega)
  · refine disjoint_of_le_frame ?_
    rw [pmmInit_bitmapBytes]
    rw [kernelEndPage] at hker
    simp only [pageSize] at *
    omega

/-- One usable range and a reserved page inside it. -/
def overlapping : List E820Entry :=
  [⟨0x100000, 0x100000, 1, 1⟩, ⟨0x180000, 0x1000, 2, 1⟩]

lemma e820Top_overlapping : e820Top overlapping = 0x200000 := by decide

lemma pmmInit_clear_usable_overlapping :
    (∀ f < 8 * (pmmInit (fun _ => 0) overlapping 0xC0048000).bitmapBytes,
      isFree (pmmInit (fun _ => 0) overlapping 0xC0048000).bitmap f = true →
        (∃ e ∈ overlapping, e.type = 1 ∧ frameRange f ⊆ e.range) ∧
        (∀ e' ∈ overlapping, e'.type ≠ 1 →
          (∀ e ∈ overlapping, e.type = 1 → Disjoint e.range e'.range) →
            Disjoint (frameRange f) e'.range) ∧
        Disjoint (frameRange f) (Set.Ico 0 0x10000) ∧
        Disjoint (frameRange f) (kernelRange (pmmInit (fun _ => 0) overlapping 0xC0048000)
          0xC0048000)) ∧
    (2 ≤ (pmmInit (fun _ => 0) overlapping 0xC0048000).bitmapBytes →
      ∀ i, (pmmInit (fun _ => 0) overlapping 0xC0048000).bitmapBytes ≤ i →
        (pmmInit (fun _ => 0) overlapping 0xC0048000).bitmap i = 0) :=
  pmmInit_clear_usable (fun _ => 0) overlapping (by norm_num) (by norm_num)

/-- The reserved page inside the usable range is left free. -/
lemma pmmInit_clear_reserved :
    ∃ (entries : List E820Entry) (kernelEnd f : ℕ), kernelStartVirt ≤ kernelEnd ∧
      kernelEnd + 0x20000 < 2 ^ 32 ∧ (pmmInit (fun _ => 0) entries kernelEnd).Free f ∧
      ∃ e' ∈ entries, e'.type ≠ 1 ∧ ¬ Disjoint (frameRange f) e'.range := by
  refine ⟨overlapping, 0xC0048000, 0x180, by norm_num, by norm_num, ?_, _,
    List.mem_cons_of_mem _ List.mem_cons_self, by decide, ?_⟩
  · refine (pmmInit_free_iff _ overlapping (by norm_num) (by norm_num) _).2 ⟨?_, by norm_num, ?_⟩
    · exact ⟨_, List.mem_cons_self, rfl, by decide, by decide, by decide⟩
    · rw [kernelEndPage, e820Top_overlapping]
      decide
  · refine Set.not_disjoint_iff.2 ⟨0x180000, ⟨?_, ?_⟩, ?_, ?_⟩ <;> decide

end

end Gummy
