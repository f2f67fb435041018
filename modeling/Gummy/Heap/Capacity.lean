import Gummy.Heap.Invariant

/-!
The capacity of the block that `heap_alloc` returns.

The request is rounded up to a multiple of four, a header is added, and the sum is rounded
up to pages, each time in 32 bits.  `heapAlloc_cases` says which block is returned; the
numbers of `roundUp_spec` decide whether it is large enough.
-/

namespace Gummy

open CWord Heap

variable {σ : Type} {v : PageRuns σ} {s : HeapState σ} {xs : List Extent} {bs : List ℕ} {sz : ℕ}

/-- A page can be obtained right behind the heap. -/
def CanGrow (v : PageRuns σ) (s : HeapState σ) : Prop :=
  s.heapEnd + pageSize < heapLimit ∧
    (v.vmmAllocPagesRegion 1 (vmmFlagsRw ||| vmmFlagsPresent) s.heapEnd (s.heapEnd + pageSize)
      s.vm s.mem).1 ≠ none

/-- Whenever `heap_alloc` returns a block, its capacity is at least the size asked for. -/
def AllocSuffices (v : PageRuns σ) (s : HeapState σ) (sz : ℕ) : Prop :=
  ∀ ptr s', heapAlloc v s sz = some (ptr, s') → ptr ≠ 0 → sz ≤ size s'.mem (ptr - headerSize)

/-- The number of pages that `heap_alloc` asks for. -/
def growPages (sz : ℕ) : ℕ := alignUp 32 (u32 (alignUp 32 sz 4 + headerSize)) pageSize / pageSize

/-! ### The rounding -/

lemma alignUp_four (h : sz < 2 ^ 32) :
    sz ≤ 0xFFFFFFFC ∧ sz ≤ alignUp 32 sz 4 ∧ alignUp 32 sz 4 < sz + 4 ∧ 4 ∣ alignUp 32 sz 4 ∨
      0xFFFFFFFC < sz ∧ alignUp 32 sz 4 = 0 := by
  rw [show (4 : ℕ) = 2 ^ 2 by norm_num, alignUp_two_pow (by norm_num)]
  omega

/-- What the pages asked for hold, by the size of the request. -/
lemma growPages_spec (h : sz < 2 ^ 32) :
    (sz ≤ 0xFFFFFFF0 ∧ (growPages sz = 0 ∨ sz + headerSize ≤ growPages sz * pageSize)) ∨
      0xFFFFFFF0 < sz ∧ growPages sz = 1 := by
  have hround := alignUp_four h
  rw [growPages]
  generalize alignUp 32 sz 4 = a at hround
  simp only [headerSize, pageSize]
  rw [show (4096 : ℕ) = 2 ^ 12 by norm_num, alignUp_two_pow (by norm_num)]
  unfold u32
  omega

/-! ### The block that is returned -/

lemma size_setNext_setSize (m : ByteMem) (b n : ℕ) (h : sz < 2 ^ 32) :
    size (setNext (setSize m b sz) b n) b = sz := by
  have hnext : size (setNext (setSize m b sz) b n) b = size (setSize m b sz) b :=
    ByteMem.read32_write32_of_disjoint _ n (by omega)
  rw [hnext]
  exact ByteMem.read32_write32_same m h

/-- The selected block keeps its size or gets the one asked for, wherever the new header
was written. -/
lemma size_heapSplitBlock (m : ByteMem) (b : ℕ) (h : sz < 2 ^ 32) :
    size (heapSplitBlock m b sz) b = sz ∨ size (heapSplitBlock m b sz) b = size m b := by
  rw [heapSplitBlock]
  by_cases hkeep : b = 0 ∨ used m b ≠ 0 ∨ size m b ≤ sz
  · rw [if_pos hkeep]
    exact Or.inr rfl
  rw [if_neg hkeep]
  dsimp only
  by_cases hmin : sub32 (sub32 (size m b) sz) headerSize < heapSplitBlockMinSize
  · rw [if_pos hmin]
    exact Or.inr rfl
  · rw [if_neg hmin]
    exact Or.inl (size_setNext_setSize _ _ _ h)

/-- The end of the list bounds the size of a block. -/
lemma HeapInv.size_lt (h : HeapInv s xs) {x : Extent} (hx : x ∈ xs) : x.size < 0x20000000 := by
  obtain ⟨pre, post, rfl⟩ := List.append_of_mem hx
  have hend := h.end_lt
  have h1 := le_segEnd heapVirtualAddress pre
  have h2 := le_segEnd (segEnd heapVirtualAddress pre + 16 + x.size) post
  rw [segEnd_append, segEnd_cons] at hend
  have hbase : heapVirtualAddress = 0xE0000000 := rfl
  omega

/-- `heap_alloc` returns the first block that fits; where none does, what `heap_expand`
returns. -/
lemma HeapInv.heapAlloc_cases (hv : v.Lawful) (h : HeapInv s xs) (hpos : 0 < sz) :
    (∃ x ∈ xs, Fits (alignUp 32 sz 4) x ∧ ∃ ptr s', heapAlloc v s sz = some (ptr, s') ∧ ptr ≠ 0 ∧
        (size s'.mem (ptr - headerSize) = alignUp 32 sz 4 ∨
          size s'.mem (ptr - headerSize) = x.size)) ∨
      ((∀ x ∈ xs, ¬ Fits (alignUp 32 sz 4) x) ∧ ∃ b t, heapExpand v s (growPages sz) = some (b, t) ∧
        ((b = 0 ∧ heapAlloc v s sz = some (0, t)) ∨
          (b ≠ 0 ∧ 0 < growPages sz ∧ ∃ ptr s', heapAlloc v s sz = some (ptr, s') ∧ ptr ≠ 0 ∧
            size s'.mem (ptr - headerSize) = growPages sz * pageSize - 16))) := by
  have hbase : heapVirtualAddress = 0xE0000000 := rfl
  have hheader : headerSize = 16 := rfl
  have hlimit : heapLimit = 0xFFC00000 := rfl
  have hbound := h.bounded
  rw [heapAlloc, if_neg hpos.ne']
  rcases h.seg.findFit_eq (alignUp 32 sz 4) (by omega) h.nonempty h.length_lt.le with
    ⟨hfind, hnone⟩ | ⟨pre, x, post, rfl, hfit, -, hfind⟩
  · obtain ⟨b, t, hexp, hcase⟩ := h.expand hv (pages_lt (u32 (alignUp 32 sz 4 + headerSize)))
    refine Or.inr ⟨hnone, b, t, hexp, ?_⟩
    simp only [h.start, hfind, hexp, Option.bind_eq_bind, Option.bind_some, ne_eq,
      not_true_eq_false, if_false]
    rcases hcase with ⟨rfl, -⟩ | ⟨rfl, hk, ht⟩
    · exact Or.inl ⟨rfl, by rw [if_pos rfl]⟩
    · have hge := le_segEnd heapVirtualAddress xs
      rw [h.tiles] at hge
      have hne : s.heapEnd ≠ 0 := by omega
      have hptr : u32 (s.heapEnd + headerSize) = s.heapEnd + 16 := u32_of_lt (by omega)
      refine Or.inr ⟨hne, hk, u32 (s.heapEnd + headerSize), _, by rw [if_neg hne], by omega, ?_⟩
      have hset := congrArg HeapBlock.size (ht.seg.setUsed 1).block_mid
      rw [h.tiles] at hset
      rw [hptr]
      exact hset
  · have hge := le_segEnd heapVirtualAddress pre
    have hle := h.end_lt
    have hlast := le_segEnd (segEnd heapVirtualAddress pre + 16 + x.size) post
    rw [segEnd_append, segEnd_cons] at hle
    have hne : segEnd heapVirtualAddress pre ≠ 0 := by omega
    have hptr : u32 (segEnd heapVirtualAddress pre + headerSize) =
        segEnd heapVirtualAddress pre + 16 := u32_of_lt (by omega)
    have hfound : findFit s.mem (alignUp 32 sz 4) loopFuel s.heapStart =
        some (segEnd heapVirtualAddress pre) := by
      rw [h.start]
      exact hfind
    refine Or.inl ⟨x, by simp, hfit, u32 (segEnd heapVirtualAddress pre + headerSize), _,
      by simp only [hfound, Option.bind_eq_bind, Option.bind_some, ne_eq, hne, not_false_eq_true,
        if_true]; rfl, by omega, ?_⟩
    rw [hptr]
    have hsize : size s.mem (segEnd heapVirtualAddress pre) = x.size :=
      congrArg HeapBlock.size h.seg.block_mid
    have hsplit := size_heapSplitBlock s.mem (segEnd heapVirtualAddress pre) (alignUp_four_lt sz)
    rw [hsize] at hsplit
    have hused : ∀ m : ByteMem, size (setUsed m (segEnd heapVirtualAddress pre) 1)
        (segEnd heapVirtualAddress pre) = size m (segEnd heapVirtualAddress pre) :=
      fun m => congrArg HeapBlock.size (block_setUsed m 1)
    exact hsplit.imp (hused _).trans (hused _).trans

/-- The page that `heap_expand` obtains lies in the region asked for, if there is one. -/
lemma HeapInv.expand_one (h : HeapInv s xs) {b : ℕ} {t : HeapState σ} (hv : v.Lawful)
    (hexp : heapExpand v s 1 = some (b, t)) : b ≠ 0 ↔ CanGrow v s := by
  have hlimit : heapLimit = 0xFFC00000 := rfl
  have hpage : pageSize = 4096 := rfl
  have hbase : heapVirtualAddress = 0xE0000000 := rfl
  have hbound := h.bounded
  have hge := le_segEnd heapVirtualAddress xs
  rw [h.tiles] at hge
  obtain ⟨hlast, hend⟩ := h.last_block
  have hstart : s.heapStart ≠ 0 := by
    rw [h.start]
    omega
  have hregion : u32 (s.heapEnd + 1 * pageSize) = s.heapEnd + pageSize := by
    rw [one_mul]
    exact u32_of_lt (by omega)
  have hheapEnd : u32 s.heapEnd = s.heapEnd := u32_of_lt (by omega)
  rw [heapExpand, if_neg (by omega), hlast] at hexp
  simp only [Option.bind_eq_bind, Option.bind_some, headerSize, hend, hheapEnd, hregion] at hexp
  rw [CanGrow]
  by_cases hlim : heapLimit ≤ s.heapEnd + pageSize
  · rw [if_pos hlim] at hexp
    obtain ⟨rfl, -⟩ := Prod.mk.inj (Option.some.inj hexp)
    exact ⟨fun hne => absurd rfl hne, fun hgrow => absurd hgrow.1 (by omega)⟩
  rw [if_neg hlim] at hexp
  rcases hr : v.vmmAllocPagesRegion 1 (vmmFlagsRw ||| vmmFlagsPresent) s.heapEnd
      (s.heapEnd + pageSize) s.vm s.mem with ⟨_ | a, vm, mem⟩
  · rw [hr] at hexp
    obtain ⟨rfl, -⟩ := Prod.mk.inj (Option.some.inj hexp)
    exact ⟨fun hne => absurd rfl hne, fun hgrow => absurd rfl hgrow.2⟩
  · rw [hr] at hexp
    obtain ⟨rfl, -⟩ := Prod.mk.inj (Option.some.inj hexp)
    have ha := (hv.run hr).1
    exact ⟨fun _ => ⟨by omega, by simp⟩, fun _ => by omega⟩

/-! ### The capacity -/

lemma allocSuffices_of_some {ptr : ℕ} {s' : HeapState σ}
    (hres : heapAlloc v s sz = some (ptr, s')) (hptr : ptr ≠ 0) :
    AllocSuffices v s sz ↔ sz ≤ size s'.mem (ptr - headerSize) := by
  constructor
  · exact fun hall => hall ptr s' hres hptr
  · intro hle ptr' s'' hres' _
    obtain ⟨rfl, rfl⟩ := Prod.mk.inj (Option.some.inj (hres.symm.trans hres'))
    exact hle

/-- On a well-formed heap, the block that `heap_alloc` returns is large enough if and only
if the request is at most `0xFFFFFFF0`, or the heap cannot grow by a page and, from
`0xFFFFFFFD` on, has no free block. -/
theorem allocSuffices_iff (hv : v.Lawful) (h : WellFormed s bs) (hpos : 0 < sz)
    (h32 : sz < 2 ^ 32) :
    AllocSuffices v s sz ↔ sz ≤ 0xFFFFFFF0 ∨
      (¬ CanGrow v s ∧ (sz ≤ 0xFFFFFFFC ∨ ∀ b ∈ bs, used s.mem b ≠ 0)) := by
  obtain ⟨hinv, -⟩ := h.heapInv
  have hround := alignUp_four h32
  have hpages := growPages_spec h32
  have hpage : pageSize = 4096 := rfl
  have hheader : headerSize = 16 := rfl
  have hfree : (∀ b ∈ bs, used s.mem b ≠ 0) ↔ ∀ x ∈ bs.map (extentOf s.mem), x.used ≠ 0 := by
    simp [extentOf]
  rw [hfree]
  obtain ⟨x, hx, ⟨hused, hle⟩, ptr, s', hres, hptr, hsize⟩ | ⟨hnone, b, t, hexp, hcase⟩ :=
    hinv.heapAlloc_cases hv hpos
  · -- a free block is reused
    have hlt := hinv.size_lt hx
    rw [allocSuffices_of_some hres hptr]
    constructor
    · intro hle'
      exact Or.inl (by omega)
    · rintro (hsmall | ⟨-, hsmall | hall⟩)
      · omega
      · omega
      · exact absurd hused (hall x hx)
  · have hall : sz ≤ 0xFFFFFFFC ∨ ∀ x ∈ bs.map (extentOf s.mem), x.used ≠ 0 := by
      refine or_iff_not_imp_left.2 fun hbig x hx hused => hnone x hx ⟨hused, by omega⟩
    obtain ⟨rfl, hres⟩ | ⟨hb, hk, ptr, s', hres, hptr, hsize⟩ := hcase
    · -- nothing is returned
      have hsuff : AllocSuffices v s sz := by
        intro ptr s' hres' hne
        obtain ⟨rfl, -⟩ := Prod.mk.inj (Option.some.inj (hres.symm.trans hres'))
        exact absurd rfl hne
      refine ⟨fun _ => ?_, fun _ => hsuff⟩
      obtain ⟨hsmall, -⟩ | ⟨-, hone⟩ := hpages
      · exact Or.inl hsmall
      · rw [hone] at hexp
        exact Or.inr ⟨fun hgrow => (hinv.expand_one hv hexp).2 hgrow rfl, hall⟩
    · rw [allocSuffices_of_some hres hptr, hsize]
      obtain ⟨hsmall, hgrown⟩ | ⟨hbig, hone⟩ := hpages
      · exact ⟨fun _ => Or.inl hsmall, fun _ => by omega⟩
      · rw [hone] at hexp ⊢
        have hgrow := (hinv.expand_one hv hexp).1 hb
        constructor
        · intro hle
          omega
        · rintro (hsmall | ⟨hno, -⟩)
          · omega
          · exact absurd hgrow hno

lemma freshHeap_wellFormed : ∃ bs, WellFormed freshHeap bs := by
  obtain ⟨s₀, heq, hstart⟩ := freshHeap_booted
  rw [heq] at hstart ⊢
  obtain ⟨xs, hinv⟩ := heapInit_inv grantAll_lawful hstart
  exact ⟨_, hinv.wellFormed⟩

theorem allocSuffices_iff_fresh : AllocSuffices grantAll freshHeap 64 := by
  obtain ⟨bs, hbs⟩ := freshHeap_wellFormed
  exact (allocSuffices_iff grantAll_lawful hbs (by norm_num) (by norm_num)).2
    (Or.inl (by norm_num))

/-- A request of `0xFFFFFFF4` bytes gets a block of one page. -/
theorem allocSuffices_wrap :
    (∃ bs, WellFormed freshHeap bs) ∧ ¬ AllocSuffices grantAll freshHeap 0xFFFFFFF4 := by
  refine ⟨freshHeap_wellFormed, fun h => ?_⟩
  obtain ⟨⟨ptr, s⟩, hr⟩ : ∃ r, heapAlloc grantAll freshHeap 0xFFFFFFF4 = some r :=
    Option.isSome_iff_exists.1 (by decide +kernel)
  have hblock : (heapAlloc grantAll freshHeap 0xFFFFFFF4).map
      (fun r => (r.1, size r.2.mem (r.1 - headerSize))) = some (0xE0018010, 4080) := by
    decide +kernel
  rw [hr] at hblock
  obtain ⟨hptr, hsize⟩ := Prod.mk.inj (Option.some.inj hblock)
  dsimp only at hptr hsize
  have hle := h ptr s hr (by omega)
  omega

end Gummy
