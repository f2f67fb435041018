import Gummy.Pmm
import Mathlib

/-!
The physical memory layout at boot.

Stage 2 puts the kernel at `0x10000`, the initrd at `0x50000` and the E820 table at
`0x500`; `pmm_init` puts its bitmap right after the kernel's BSS and decides which
frames may be handed out.  `kmain` reads the initrd only after the heap has been
set up, so the question is whether anything can take its memory before that.
-/

namespace Gummy

open CWord

/-! ### The loader -/

/-- `KERNEL_LOC` -/
abbrev kernelLoc : ℕ := 0x10000

/-- `INITRD_LOC` -/
abbrev initrdLoc : ℕ := 0x50000

/-- Where `e820_init` stores the number of entries; the entries follow it. -/
abbrev e820Loc : ℕ := 0x500

/-- The size check of `fat_read_file`, on 32-bit registers. -/
def FatReadFileAccepts (dest fileSize : ℕ) : Prop :=
  fileSize ≠ 0 ∧ u32 (dest + fileSize) < 0x90000

instance (dest fileSize : ℕ) : Decidable (FatReadFileAccepts dest fileSize) :=
  inferInstanceAs (Decidable (_ ∧ _))

/-- What one boot finds: the memory map of the firmware, the sizes of the two
files, and the size of the BSS that the linker put after the image. -/
structure BootLayout where
  entries : List E820Entry
  imageSize : ℕ
  bssSize : ℕ
  initrdSize : ℕ

namespace BootLayout

/-- `__kernel_end`, as a physical address. -/
def kernelEndPhys (l : BootLayout) : ℕ := kernelLoc + l.imageSize + l.bssSize

/-- `bitmap_bytes` -/
def bitmapBytes (l : BootLayout) : ℕ := (e820Top l.entries / pageSize + 7) / 8

/-- The loader takes both files, their sizes are 32-bit, and the kernel is linked
with room for the largest bitmap below the end of the address space. -/
structure Accepted (l : BootLayout) : Prop where
  image : FatReadFileAccepts kernelLoc l.imageSize
  initrd : FatReadFileAccepts initrdLoc l.initrdSize
  linked : kernelOffset + l.kernelEndPhys + 0x20000 < 2 ^ 32

/-- The state of the frame allocator after `pmm_init`. -/
def pmm (l : BootLayout) (mem : ByteMem) : Pmm :=
  pmmInit mem l.entries (kernelOffset + l.kernelEndPhys)

/-! ### The regions that are still needed -/

def imageRegion (l : BootLayout) : Set ℕ := Set.Ico kernelLoc l.kernelEndPhys

def bitmapRegion (l : BootLayout) : Set ℕ :=
  Set.Ico l.kernelEndPhys (l.kernelEndPhys + l.bitmapBytes)

def e820Region (l : BootLayout) : Set ℕ :=
  Set.Ico e820Loc (e820Loc + 2 + 24 * l.entries.length)

def initrdRegion (l : BootLayout) : Set ℕ := Set.Ico initrdLoc (initrdLoc + l.initrdSize)

def regions (l : BootLayout) : List (Set ℕ) :=
  [l.e820Region, l.imageRegion, l.bitmapRegion, l.initrdRegion]

end BootLayout

/-- Frame `f` holds a byte of the region. -/
def FrameMeets (f : ℕ) (region : Set ℕ) : Prop :=
  ∃ a ∈ region, f * pageSize ≤ a ∧ a < (f + 1) * pageSize

lemma frameMeets_Ico {f lo hi : ℕ} (h : lo < hi) :
    FrameMeets f (Set.Ico lo hi) ↔ lo < (f + 1) * pageSize ∧ f * pageSize < hi := by
  simp only [pageSize]
  constructor
  · rintro ⟨a, ⟨hlo, hhi⟩, h1, h2⟩
    simp only [pageSize] at h1 h2
    omega
  · rintro ⟨h1, h2⟩
    refine ⟨max lo (f * 4096), ⟨le_max_left _ _, ?_⟩, le_max_right _ _, ?_⟩
    · omega
    · simp only [pageSize]
      omega

/-- The addresses that `n` calls of `pmm_alloc_page` return one after the other. -/
def pmmAllocPages : ℕ → Pmm → List ℕ
  | 0, _ => []
  | n + 1, p => (pmmAllocPage p).1 :: pmmAllocPages n (pmmAllocPage p).2

/-- Calls return `0` or a frame that was free at the start. -/
lemma pmmAllocPages_mem {n : ℕ} {p : Pmm} (hp : p.Valid) {a : ℕ} (ha : a ∈ pmmAllocPages n p) :
    a = 0 ∨ ∃ f, p.Free f ∧ a = f * pageSize := by
  induction n generalizing p with
  | zero => simp [pmmAllocPages] at ha
  | succ n ih =>
    obtain ⟨heq, -⟩ | ⟨f, p', heq, -, hfree, -, hbits, hiff⟩ := pmmAllocPage_spec hp
    · rw [pmmAllocPages, heq] at ha
      obtain rfl | ha := List.mem_cons.1 ha
      · exact Or.inl rfl
      · exact ih hp ha
    · have hp' : p'.Valid := ⟨hbits ▸ hp.bits_le, fun h0 => hp.zero_used ((hiff 0).1 h0).1⟩
      rw [pmmAllocPages, heq] at ha
      obtain rfl | ha := List.mem_cons.1 ha
      · exact Or.inr ⟨f, hfree, rfl⟩
      · obtain h0 | ⟨g, hg, rfl⟩ := ih hp' ha
        · exact Or.inl h0
        · exact Or.inr ⟨g, ((hiff g).1 hg).1, rfl⟩

namespace BootLayout

variable {l : BootLayout}

/-- The frames left free, in terms of the layout. -/
lemma pmm_free_iff (h : l.Accepted) (mem : ByteMem) (f : ℕ) :
    (l.pmm mem).Free f ↔
      (∃ e ∈ l.entries, e.type = 1 ∧ e.Low ∧ e.base ≤ f * pageSize ∧
        (f + 1) * pageSize ≤ e.stop) ∧ 16 ≤ f ∧ l.kernelEndPhys + l.bitmapBytes ≤ f * pageSize := by
  rw [pmm, pmmInit_free_iff mem l.entries (Nat.le_add_right _ _) h.linked, kernelEndPage,
    ← bitmapBytes]
  refine and_congr_right fun _ => and_congr_right fun _ => ?_
  simp only [pageSize]
  omega

lemma pmm_valid (h : l.Accepted) (mem : ByteMem) : (l.pmm mem).Valid := by
  constructor
  · have htop := e820Top_lt l.entries
    rw [pmm, pmmInit_bitmapBits]
    simp only [pageSize]
    omega
  · intro h0
    have := ((pmm_free_iff h mem 0).1 h0).2.1
    omega

/-- Nothing needed later has been overwritten, nor can it be by handing out frames. -/
structure Intact (l : BootLayout) (mem : ByteMem) : Prop where
  disjoint : l.regions.Pairwise Disjoint
  used : ∀ r ∈ l.regions, ∀ f, FrameMeets f r → ¬ (l.pmm mem).Free f
  initrd_kept : ∀ n, ∀ a ∈ pmmAllocPages n (l.pmm mem), ¬ FrameMeets (a / pageSize) l.initrdRegion

/-- The table ends below the kernel, the bitmap ends below the initrd, and the
firmware reports no frame of the initrd as usable memory. -/
structure RoomForInitrd (l : BootLayout) : Prop where
  table : e820Loc + 2 + 24 * l.entries.length ≤ kernelLoc
  bitmap : l.kernelEndPhys + l.bitmapBytes ≤ initrdLoc
  unusable : ∀ e ∈ l.entries, e.type = 1 → e.Low → ∀ f, FrameMeets f l.initrdRegion →
    ¬ (e.base ≤ f * pageSize ∧ (f + 1) * pageSize ≤ e.stop)

lemma Accepted.image_pos (h : l.Accepted) : kernelLoc < l.kernelEndPhys := by
  have := h.image.1
  simp only [kernelEndPhys, kernelLoc]
  omega

lemma Accepted.initrd_pos (h : l.Accepted) : initrdLoc < initrdLoc + l.initrdSize := by
  have := h.initrd.1
  simp only [initrdLoc]
  omega

lemma regions_pairwise (h : l.Accepted) :
    l.regions.Pairwise Disjoint ↔
      e820Loc + 2 + 24 * l.entries.length ≤ kernelLoc ∧
        l.kernelEndPhys + l.bitmapBytes ≤ initrdLoc := by
  have himg := h.image_pos
  have hini := h.initrd_pos
  simp only [regions, e820Region, imageRegion, bitmapRegion, initrdRegion, List.pairwise_cons,
    List.mem_cons, List.not_mem_nil, or_false, forall_eq_or_imp, forall_eq, Set.Ico_disjoint_Ico,
    kernelLoc, initrdLoc, e820Loc, List.Pairwise.nil, false_imp_iff, implies_true, and_true] at *
  generalize l.kernelEndPhys = k at *
  generalize l.bitmapBytes = b at *
  omega

lemma regions_used_iff (h : l.Accepted) (mem : ByteMem)
    (htable : e820Loc + 2 + 24 * l.entries.length ≤ kernelLoc)
    (hbitmap : l.kernelEndPhys + l.bitmapBytes ≤ initrdLoc) :
    (∀ r ∈ l.regions, ∀ f, FrameMeets f r → ¬ (l.pmm mem).Free f) ↔
      ∀ e ∈ l.entries, e.type = 1 → e.Low → ∀ f, FrameMeets f l.initrdRegion →
        ¬ (e.base ≤ f * pageSize ∧ (f + 1) * pageSize ≤ e.stop) := by
  have hini := h.initrd_pos
  constructor
  · rintro hused e he ht hl f hf ⟨hlo, hhi⟩
    refine hused l.initrdRegion (by simp [regions]) f hf ((pmm_free_iff h mem f).2 ⟨⟨e, he, ht, hl,
      hlo, hhi⟩, ?_⟩)
    have := ((frameMeets_Ico hini).1 hf).1
    simp only [pageSize, initrdLoc] at *
    omega
  · intro hunusable r hr f ⟨a, har, hfa, haf⟩ hfree
    obtain ⟨⟨e, he, ht, hl, hlo, hhi⟩, h16, hker⟩ := (pmm_free_iff h mem f).1 hfree
    simp only [regions, List.mem_cons, List.not_mem_nil, or_false] at hr
    -- only the initrd lies above everything that `pmm_init` marks
    obtain rfl | rfl | rfl | rfl := hr
    · have := har.2
      simp only [pageSize, kernelLoc] at *
      omega
    · have := har.2
      omega
    · have := har.2
      omega
    · exact hunusable e he ht hl f ⟨a, har, hfa, haf⟩ ⟨hlo, hhi⟩

/-- **When boot-time memory stays intact**: exactly when there is room for the
initrd and the firmware keeps its frames out of the usable ranges. -/
theorem intact_iff_roomForInitrd (l : BootLayout) (h : l.Accepted) (mem : ByteMem) :
    l.Intact mem ↔ l.RoomForInitrd := by
  constructor
  · intro hint
    obtain ⟨htable, hbitmap⟩ := (regions_pairwise h).1 hint.disjoint
    exact ⟨htable, hbitmap, (regions_used_iff h mem htable hbitmap).1 hint.used⟩
  · intro hroom
    have hused := (regions_used_iff h mem hroom.table hroom.bitmap).2 hroom.unusable
    refine ⟨(regions_pairwise h).2 ⟨hroom.table, hroom.bitmap⟩, hused, ?_⟩
    intro n a ha hmeets
    obtain rfl | ⟨f, hfree, rfl⟩ := pmmAllocPages_mem (pmm_valid h mem) ha
    · have := ((frameMeets_Ico h.initrd_pos).1 hmeets).1
      simp only [pageSize, initrdLoc] at this
      omega
    · rw [Nat.mul_div_cancel f (by norm_num)] at hmeets
      exact hused l.initrdRegion (by simp [regions]) f hmeets hfree

/-! ### Two machines -/

/-- A PC with 1 MiB whose firmware reserves everything above `0x4F000`, with a
kernel and an initrd of one page each. -/
def reservedLayout : BootLayout where
  entries := [⟨0, 0x4F000, 1, 1⟩, ⟨0x4F000, 0xB1000, 2, 1⟩]
  imageSize := 0x1000
  bssSize := 0
  initrdSize := 0x1000

theorem reservedLayout_intact : reservedLayout.Intact (fun _ => 0) := by
  have hacc : reservedLayout.Accepted := by
    refine ⟨?_, ?_, ?_⟩ <;> decide
  refine (intact_iff_roomForInitrd reservedLayout hacc _).2 ⟨by decide, by decide, ?_⟩
  intro e he ht _ f hf
  have hmeets := (frameMeets_Ico hacc.initrd_pos).1 hf
  simp only [reservedLayout, List.mem_cons, List.not_mem_nil, or_false] at he
  obtain rfl | rfl := he
  · have hstop : (⟨0, 0x4F000, 1, 1⟩ : E820Entry).stop = 0x4F000 := by decide
    simp only [hstop, pageSize, initrdLoc] at *
    omega
  · simp at ht

/-- A PC with 128 MiB: 639 KiB of conventional memory, and the memory above 1 MiB. -/
def pcLayout : BootLayout where
  entries := [⟨0, 0x9FC00, 1, 1⟩, ⟨0x9FC00, 0x400, 2, 1⟩, ⟨0xF0000, 0x10000, 2, 1⟩,
    ⟨0x100000, 0x7EE0000, 1, 1⟩]
  imageSize := 0x38000
  bssSize := 0x7000
  initrdSize := 0x1000

lemma pcLayout_accepted : pcLayout.Accepted := by
  refine ⟨?_, ?_, ?_⟩ <;> decide

/-- Here no region overlaps another, but the first frame that is handed out is the
initrd's. -/
theorem pcLayout_initrd_overwritten :
    pcLayout.Accepted ∧ pcLayout.regions.Pairwise Disjoint ∧
      (pmmAllocPage (pcLayout.pmm fun _ => 0)).1 = initrdLoc ∧
        ¬ pcLayout.Intact (fun _ => 0) := by
  have hfree := pmm_free_iff pcLayout_accepted (fun _ => 0)
  have hend : pcLayout.kernelEndPhys + pcLayout.bitmapBytes = 0x50000 - 0x1000 + 0xFFC := by decide
  have h50 : (pcLayout.pmm fun _ => 0).Free 0x50 := by
    refine (hfree 0x50).2 ⟨⟨⟨0, 0x9FC00, 1, 1⟩, List.mem_cons_self, rfl, ?_, ?_, ?_⟩, ?_, ?_⟩ <;>
      decide
  have halloc : (pmmAllocPage (pcLayout.pmm fun _ => 0)).1 = initrdLoc := by
    obtain ⟨-, hnone⟩ | ⟨f, p', heq, -, hf, hlow, -⟩ :=
      pmmAllocPage_spec (pmm_valid pcLayout_accepted fun _ => 0)
    · exact absurd h50 (hnone _)
    · have hge : 0x50 ≤ f := by
        have := ((hfree f).1 hf).2.2
        simp only [hend, pageSize] at this
        omega
      have hle : f ≤ 0x50 := by
        by_contra hgt
        exact hlow 0x50 (by omega) h50
      rw [heq, le_antisymm hle hge]
      rfl
  refine ⟨pcLayout_accepted, (regions_pairwise pcLayout_accepted).2 ⟨by decide, by decide⟩,
    halloc, fun hint => ?_⟩
  refine hint.initrd_kept 1 initrdLoc ?_ ⟨initrdLoc, ⟨le_rfl, by decide⟩, by decide, by decide⟩
  rw [pmmAllocPages, halloc]
  exact List.mem_cons_self

end BootLayout

end Gummy
