import Gummy.Lib.Transition
import Gummy.Pmm

/-!
Runs of the frame allocator.

From the bitmap that `pmm_init` leaves, frames are allocated and freed in any order,
where only frames that are outstanding are freed.  In every state the bitmap is the
initial one with the bits of the outstanding frames set, and everything else follows
from that.
-/

namespace Gummy

open Transition (Reachable)

/-! ### Runs -/

/-- The allocator, and the frames that were allocated and not freed since. -/
structure FrameState where
  pmm : Pmm
  outstanding : List ℕ

inductive FrameCall
  | alloc
  | free (page : ℕ)

def FrameInit (p₀ : Pmm) (s : FrameState) : Prop := s = ⟨p₀, []⟩

inductive FrameStep (s : FrameState) : FrameCall → FrameState → Prop
  | failed {pmm : Pmm} (h : pmmAllocPage s.pmm = (0, pmm)) :
      FrameStep s .alloc ⟨pmm, s.outstanding⟩
  | alloc {page : ℕ} {pmm : Pmm} (h : pmmAllocPage s.pmm = (page, pmm)) (h0 : page ≠ 0) :
      FrameStep s .alloc ⟨pmm, page :: s.outstanding⟩
  | free {page : ℕ} (h : page ∈ s.outstanding) :
      FrameStep s (.free page) ⟨pmmFreePage s.pmm page, s.outstanding.erase page⟩

/-! ### The invariant -/

/-- A bitmap is determined by its bits. -/
lemma bitmap_ext {b b' : ByteMem} (h : ∀ i, bitmapTestBit b i = bitmapTestBit b' i) : b = b' := by
  funext i
  refine UInt8.toNat_inj.1 (Nat.eq_of_testBit_eq fun k => ?_)
  by_cases hk : k < 8
  · have hdiv : (i * 8 + k) / 8 = i := by omega
    have hmod : (i * 8 + k) % 8 = k := by omega
    have heq := h (i * 8 + k)
    rwa [bitmapTestBit_eq, bitmapTestBit_eq, hdiv, hmod] at heq
  · have hpow : 2 ^ 8 ≤ 2 ^ k := Nat.pow_le_pow_right (by norm_num) (by omega)
    rw [Nat.testBit_lt_two_pow ((b i).toNat_lt.trans_le hpow),
      Nat.testBit_lt_two_pow ((b' i).toNat_lt.trans_le hpow)]

/-- The bitmap is that of `p₀` with the outstanding frames marked, and these were free
in `p₀`. -/
structure FrameInv (p₀ : Pmm) (s : FrameState) : Prop where
  bits : ∀ i, bitmapTestBit s.pmm.bitmap i =
    (bitmapTestBit p₀.bitmap i || decide (i * pageSize ∈ s.outstanding))
  rest : s.pmm = { p₀ with bitmap := s.pmm.bitmap }
  nodup : s.outstanding.Nodup
  frame : ∀ page ∈ s.outstanding, ∃ f, page = f * pageSize ∧ p₀.Free f

variable {p₀ : Pmm} {s s' : FrameState}

lemma FrameInv.init : FrameInv p₀ ⟨p₀, []⟩ := ⟨by simp, rfl, List.nodup_nil, by simp⟩

lemma FrameInv.bitmapBits (h : FrameInv p₀ s) : s.pmm.bitmapBits = p₀.bitmapBits := by
  rw [h.rest]

lemma FrameInv.free_iff (h : FrameInv p₀ s) (f : ℕ) :
    s.pmm.Free f ↔ p₀.Free f ∧ f * pageSize ∉ s.outstanding := by
  unfold Pmm.Free isFree
  rw [h.bitmapBits, h.bits]
  simp [and_assoc]

lemma FrameInv.valid (h : FrameInv p₀ s) (hp : p₀.Valid) : s.pmm.Valid where
  bits_le := h.bitmapBits.trans_le hp.bits_le
  zero_used h0 := hp.zero_used ((h.free_iff 0).1 h0).1

/-- States with the same frames outstanding are the same. -/
lemma FrameInv.ext (h : FrameInv p₀ s) (h' : FrameInv p₀ s')
    (heq : ∀ page, page ∈ s'.outstanding ↔ page ∈ s.outstanding) : s'.pmm = s.pmm := by
  have hbitmap : s'.pmm.bitmap = s.pmm.bitmap := bitmap_ext fun i => by
    rw [h.bits, h'.bits]
    simp only [heq]
  rw [h.rest, h'.rest, hbitmap]

/-- A successful allocation sets one bit. -/
lemma pmmAllocPage_eq {p p' : Pmm} {page : ℕ} (hp : p.Valid) (h : pmmAllocPage p = (page, p'))
    (h0 : page ≠ 0) : ∃ f, page = f * pageSize ∧ p.Free f ∧ (∀ g < f, ¬ p.Free g) ∧
      p' = { p with bitmap := bitmapSetBit p.bitmap f } := by
  obtain ⟨hnone, -⟩ | ⟨f, hsome, -, hfree, hlow⟩ := pmmAllocPage_cases hp
  · exact absurd (congrArg Prod.fst (h.symm.trans hnone)) h0
  · obtain ⟨hpage, rfl⟩ := Prod.mk.inj (h.symm.trans hsome)
    exact ⟨f, hpage, hfree, hlow, rfl⟩

lemma FrameInv.step {c : FrameCall} (hp : p₀.Valid) (h : FrameInv p₀ s) (hs : FrameStep s c s') :
    FrameInv p₀ s' := by
  have hvalid := h.valid hp
  cases hs with
  | failed hfail =>
    obtain ⟨hnone, -⟩ | ⟨f, p', hsome, hpos, -⟩ := pmmAllocPage_spec hvalid
    · obtain ⟨-, rfl⟩ := Prod.mk.inj (hnone.symm.trans hfail)
      exact h
    · obtain ⟨h0, -⟩ := Prod.mk.inj (hsome.symm.trans hfail)
      simp only [pageSize] at h0
      omega
  | alloc halloc h0 =>
    obtain ⟨f, rfl, hfree, -, rfl⟩ := pmmAllocPage_eq hvalid halloc h0
    obtain ⟨hfree₀, hout⟩ := (h.free_iff f).1 hfree
    refine ⟨fun i => ?_, ?_, List.nodup_cons.2 ⟨hout, h.nodup⟩, ?_⟩
    · have hmul : i * pageSize = f * pageSize ↔ f = i := by
        simp only [pageSize]
        omega
      rw [bitmapTestBit_setBit, h.bits]
      simp only [List.mem_cons, hmul, Bool.decide_or]
      rw [Bool.or_left_comm]
    · rw [h.rest]
    · rintro page (_ | ⟨_, hmem⟩)
      · exact ⟨f, rfl, hfree₀⟩
      · exact h.frame page hmem
  | @free page hmem =>
    obtain ⟨f, rfl, hfree₀⟩ := h.frame page hmem
    have hbits : s.pmm.bitmapBits ≠ 0 := by
      rw [h.bitmapBits]
      exact (Nat.zero_le f).trans_lt hfree₀.1 |>.ne'
    have hdiv : f * pageSize / pageSize = f := Nat.mul_div_cancel f (by norm_num)
    unfold pmmFreePage
    rw [if_neg hbits, hdiv]
    refine ⟨fun i => ?_, ?_, h.nodup.erase _, ?_⟩
    · rw [bitmapTestBit_clearBit, h.bits]
      simp only [h.nodup.mem_erase_iff]
      by_cases hfi : f = i
      · -- the bit was clear at first
        subst hfi
        have hclear := hfree₀.2
        rw [isFree, Bool.not_eq_true'] at hclear
        simp [hclear]
      · have hmul : i * pageSize ≠ f * pageSize := by
          simp only [pageSize]
          omega
        simp [hfi, hmul]
    · rw [h.rest]
    · exact fun page' hmem' => h.frame page' (List.mem_of_mem_erase hmem')

/-! ### From `pmm_init` on -/

lemma pmmInit_valid (mem : ByteMem) (entries : List E820Entry) (kernelEnd : ℕ) :
    (pmmInit mem entries kernelEnd).Valid where
  bits_le := by
    have htop := e820Top_lt entries
    rw [pmmInit_bitmapBits]
    simp only [pageSize]
    omega
  zero_used h0 := by
    have hfree := h0.2
    simp only [pmmInit, isFree_setPages] at hfree
    simp at hfree

/-- After any allocations, and frees of frames that were outstanding: a frame returned
by `pmm_alloc_page` is the lowest free one, page-aligned and below `phys_top`, none of
those outstanding, and one of those that `pmm_init` left free; `0` is returned exactly if
no frame is free; freeing the frame again gives the state before the call; and the state is
the same whenever the same frames are outstanding. -/
theorem frames_never_allocated_twice (mem : ByteMem) (entries : List E820Entry) (kernelEnd : ℕ)
    {s : FrameState}
    (h : Reachable (FrameInit (pmmInit mem entries kernelEnd)) FrameStep s) :
    ((pmmAllocPage s.pmm).1 ≠ 0 → ∃ f, (pmmAllocPage s.pmm).1 = f * pageSize ∧
      (f + 1) * pageSize ≤ (pmmInit mem entries kernelEnd).physTop ∧ s.pmm.Free f ∧
      (∀ g < f, ¬ s.pmm.Free g) ∧ (pmmAllocPage s.pmm).1 ∉ s.outstanding ∧
      (pmmInit mem entries kernelEnd).Free f) ∧
    ((pmmAllocPage s.pmm).1 = 0 ↔ ∀ f, ¬ s.pmm.Free f) ∧
    (∀ f, s.pmm.Free f ↔
      (pmmInit mem entries kernelEnd).Free f ∧ f * pageSize ∉ s.outstanding) ∧
    ((pmmAllocPage s.pmm).1 ≠ 0 →
      pmmFreePage (pmmAllocPage s.pmm).2 (pmmAllocPage s.pmm).1 = s.pmm) ∧
    ∀ s', Reachable (FrameInit (pmmInit mem entries kernelEnd)) FrameStep s' →
      (∀ page, page ∈ s'.outstanding ↔ page ∈ s.outstanding) → s'.pmm = s.pmm := by
  have hp := pmmInit_valid mem entries kernelEnd
  have hreach : ∀ s, Reachable (FrameInit (pmmInit mem entries kernelEnd)) FrameStep s →
      FrameInv (pmmInit mem entries kernelEnd) s := by
    intro s hs
    refine hs.invariant (fun s hs => ?_) fun _ _ _ hinv hs => hinv.step hp hs
    obtain rfl := hs
    exact FrameInv.init
  have hinv := hreach s h
  have hvalid := hinv.valid hp
  refine ⟨fun h0 => ?_, ?_, hinv.free_iff, fun h0 => ?_, fun s' hs' heq => hinv.ext (hreach s' hs')
    heq⟩
  · obtain ⟨f, hpage, hfree, hlow, -⟩ := pmmAllocPage_eq hvalid rfl h0
    obtain ⟨hfree₀, hout⟩ := (hinv.free_iff f).1 hfree
    refine ⟨f, hpage, ?_, hfree, hlow, hpage ▸ hout, hfree₀⟩
    have hlt : f < (pmmInit mem entries kernelEnd).physTop / pageSize := hfree₀.1
    simp only [pageSize] at hlt ⊢
    omega
  · obtain ⟨hnone, hno⟩ | ⟨f, p', hsome, hpos, hfree, -⟩ := pmmAllocPage_spec hvalid
    · rw [hnone]
      exact iff_of_true rfl hno
    · rw [hsome]
      refine iff_of_false ?_ fun hno => hno f hfree
      simp only [pageSize]
      omega
  · -- an allocation and its free are two steps of a run
    rcases heq : pmmAllocPage s.pmm with ⟨page, p'⟩
    rw [heq] at h0
    have hnext := hinv.step hp (.alloc heq h0)
    have hback := hnext.step hp (.free List.mem_cons_self)
    refine hinv.ext hback fun page' => ?_
    rw [List.erase_cons_head]

/-- With 14 frames above the kernel, the second allocation returns the second of them. -/
theorem frames_never_allocated_twice_second :
    let p₀ := pmmInit (fun _ => 0) [⟨0, 0x20000, 1, 0⟩] 0xC0011000
    let p₁ := (pmmAllocPage p₀).2
    (pmmAllocPage p₁).1 = 0x13000 ∧ (pmmAllocPage p₁).1 ∉ [0x12000] := by
  intro p₀ p₁
  have hfst : (pmmAllocPage p₀).1 = 0x12000 := by decide +kernel
  have hsnd : (pmmAllocPage p₁).1 = 0x13000 := by decide +kernel
  have hreach : Reachable (FrameInit p₀) FrameStep ⟨p₁, [0x12000]⟩ :=
    .next .alloc (.start rfl) (.alloc (Prod.ext hfst rfl) (by norm_num))
  obtain ⟨f, -, -, -, -, hout, -⟩ :=
    (frames_never_allocated_twice (fun _ => 0) [⟨0, 0x20000, 1, 0⟩] 0xC0011000 hreach).1
      (hsnd.trans_ne (by norm_num))
  exact ⟨hsnd, hout⟩

end Gummy
