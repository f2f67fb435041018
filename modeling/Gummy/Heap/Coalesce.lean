import Gummy.Heap.Invariant

/-!
Coalescing of free blocks.

Where no two adjacent blocks are free, the single pass of `heap_merge_free_blocks` over
the freed block and its two neighbours is enough to keep it that way.  The neighbours
that are absorbed are `mid₁` and `mid₂` below, lists of at most one block.
-/

namespace Gummy

open CWord Heap

namespace Heap

variable {m : ByteMem} {p a n : ℕ} {pre post xs : List Extent} {x : Extent}

/-- One of two blocks is used. -/
def OneUsed (x y : Extent) : Prop := x.used ≠ 0 ∨ y.used ≠ 0

/-! ### Addresses -/

lemma addrs_bounds {c : ℕ} (h : c ∈ addrs a xs) : a ≤ c ∧ c + 16 ≤ segEnd a xs := by
  obtain ⟨pre, x, post, rfl, rfl⟩ := mem_addrs.1 h
  have h1 := le_segEnd a pre
  have h2 := le_segEnd (segEnd a pre + 16 + x.size) post
  rw [segEnd_append, segEnd_cons]
  omega

/-- The blocks before and behind a part of the list that is laid out anew. -/
lemma mem_addrs_replace {mid mid' : List Extent} {c : ℕ} (hne : mid ≠ []) (y : Extent)
    (hmid' : mid' = [y]) (hend : segEnd (segEnd a pre) mid' = segEnd (segEnd a pre) mid) :
    c ∈ addrs a (pre ++ (mid' ++ post)) ↔ c ∈ addrs a (pre ++ (mid ++ post)) ∧
      ¬ (segEnd a pre < c ∧ c < segEnd (segEnd a pre) mid) := by
  subst hmid'
  obtain ⟨z, zs, rfl⟩ := List.exists_cons_of_ne_nil hne
  simp only [addrs_append, List.mem_append, hend]
  have hfirst : c ∈ addrs (segEnd a pre) [y] ↔ c = segEnd a pre := by simp [addrs]
  rw [hfirst]
  constructor
  · rintro (hc | rfl | hc)
    · have := (addrs_bounds hc).2
      exact ⟨Or.inl hc, by omega⟩
    · exact ⟨Or.inr (Or.inl List.mem_cons_self), by omega⟩
    · have := (addrs_bounds hc).1
      exact ⟨Or.inr (Or.inr hc), by omega⟩
  · rintro ⟨hc | hc | hc, hout⟩
    · exact Or.inl hc
    · have := addrs_bounds hc
      exact Or.inr (Or.inl (by omega))
    · exact Or.inr (Or.inr hc)

/-- A block of the list has the extent that the list says. -/
lemma Seg.extent (h : Seg m p a (pre ++ x :: post) n) :
    size m (segEnd a pre) = x.size ∧ used m (segEnd a pre) = x.used :=
  ⟨congrArg HeapBlock.size h.block_mid, congrArg HeapBlock.used h.block_mid⟩

lemma Seg.extent_part {l l' p₁ p₂ : List Extent}
    (h : Seg m p a (l ++ (p₁ ++ x :: p₂ ++ l')) n) :
    size m (segEnd (segEnd a l) p₁) = x.size ∧ used m (segEnd (segEnd a l) p₁) = x.used := by
  have h' : Seg m p a ((l ++ p₁) ++ x :: (p₂ ++ l')) n := by simpa using h
  rw [← segEnd_append]
  exact h'.extent

lemma segEnd_left_inj {b : ℕ} (h : segEnd a xs = segEnd b xs) : a = b := by
  induction xs generalizing a b with
  | nil => exact h
  | cons x xs ih =>
    have := ih h
    omega

/-- A segment whose blocks link to each other, read from its extents. -/
lemma Seg.isChain_iff (h : Seg m p a xs 0) (ha : 0 < a) :
    (∀ b ∈ addrs a xs, next m b ≠ 0 → used m b ≠ 0 ∨ used m (next m b) ≠ 0) ↔
      xs.IsChain OneUsed := by
  induction xs generalizing p a with
  | nil => simp [addrs]
  | cons x xs ih =>
    have hx : used m a = x.used := congrArg HeapBlock.used h.1
    have hnext := h.next_eq
    rw [addrs, List.forall_mem_cons, ih h.2 (by omega)]
    cases xs with
    | nil => simp [hnext]
    | cons y ys =>
      have hy : used m (a + 16 + x.size) = y.used := congrArg HeapBlock.used h.2.1
      rw [nextOr_cons] at hnext
      rw [List.isChain_cons_cons, hnext, hx, hy]
      refine and_congr_left fun _ => ⟨fun h => h (by omega), fun h _ => h⟩

/-! ### What is absorbed -/

/-- The predecessor that is absorbed into a freed block, if it is free. -/
structure AbsorbsPrev (pre pre' mid₁ : List Extent) : Prop where
  split : pre = pre' ++ mid₁
  free : ∀ y ∈ mid₁, y.used = 0
  one : mid₁ = [] ∨ ∃ y, mid₁ = [y]
  last : ∀ y ∈ pre'.getLast?, y.used ≠ 0

/-- The successor that is absorbed into a freed block, if it is free. -/
structure AbsorbsNext (post mid₂ post' : List Extent) : Prop where
  split : post = mid₂ ++ post'
  free : ∀ y ∈ mid₂, y.used = 0
  one : mid₂ = [] ∨ ∃ y, mid₂ = [y]
  head : ∀ y ∈ post'.head?, y.used ≠ 0

lemma absorbPrev_eq (hchain : pre.IsChain OneUsed) (x : Extent) :
    ∃ pre' mid₁ S, AbsorbsPrev pre pre' mid₁ ∧ absorbPrev pre ⟨x.size, 0⟩ = (pre', ⟨S, 0⟩) := by
  rcases List.eq_nil_or_concat' pre with rfl | ⟨ys, y, rfl⟩
  · exact ⟨[], [], x.size, ⟨rfl, by simp, Or.inl rfl, by simp⟩, rfl⟩
  by_cases hy : y.used = 0
  · refine ⟨ys, [y], y.size + (x.size + 16), ⟨rfl, by simpa using hy, Or.inr ⟨y, rfl⟩,
      fun w hw => ?_⟩, by simp [absorbPrev, hy]⟩
    have hlink := (List.isChain_append.1 hchain).2.2 w hw y rfl
    exact hlink.resolve_right fun hne => hne hy
  · refine ⟨ys ++ [y], [], x.size, ⟨by simp, by simp, Or.inl rfl, fun w hw => ?_⟩,
      by simp [absorbPrev, hy]⟩
    rw [List.getLast?_concat] at hw
    obtain rfl := Option.mem_some_iff.1 hw
    exact hy

lemma absorbNext_eq (hchain : post.IsChain OneUsed) (S : ℕ) :
    ∃ mid₂ post' S', AbsorbsNext post mid₂ post' ∧ absorbNext ⟨S, 0⟩ post = ⟨S', 0⟩ :: post' := by
  cases post with
  | nil => exact ⟨[], [], S, ⟨rfl, by simp, Or.inl rfl, by simp⟩, rfl⟩
  | cons y ys =>
    by_cases hy : y.used = 0
    · refine ⟨[y], ys, S + (y.size + 16), ⟨rfl, by simpa using hy, Or.inr ⟨y, rfl⟩,
        fun w hw => ?_⟩, by rw [absorbNext, if_pos hy]⟩
      have hlink := (List.isChain_cons.1 hchain).1 w hw
      exact hlink.resolve_left fun hne => hne hy
    · refine ⟨[], y :: ys, S, ⟨rfl, by simp, Or.inl rfl, fun w hw => ?_⟩,
        by rw [absorbNext, if_neg hy]⟩
      obtain rfl := Option.mem_some_iff.1 hw
      exact hy

/-- The list after a block has been freed: one free block in place of the blocks that
it absorbs, and again no two adjacent free blocks. -/
lemma freeExtents_eq (hchain : (pre ++ x :: post).IsChain OneUsed) :
    ∃ pre' mid₁ mid₂ post' S, AbsorbsPrev pre pre' mid₁ ∧ AbsorbsNext post mid₂ post' ∧
      freeExtents pre x post = pre' ++ ⟨S, 0⟩ :: post' ∧
      (pre' ++ ⟨S, 0⟩ :: post').IsChain OneUsed := by
  obtain ⟨hpre, hpost, -⟩ := List.isChain_append.1 hchain
  obtain ⟨pre', mid₁, S₁, hprev, habs⟩ := absorbPrev_eq hpre x
  obtain ⟨mid₂, post', S, hnext, habs'⟩ := absorbNext_eq (List.isChain_cons.1 hpost).2 S₁
  refine ⟨pre', mid₁, mid₂, post', S, hprev, hnext, by rw [freeExtents, habs, habs'], ?_⟩
  rw [hprev.split] at hpre
  have hpost' := (List.isChain_cons.1 hpost).2
  rw [hnext.split] at hpost'
  refine List.isChain_append.2 ⟨(List.isChain_append.1 hpre).1, List.isChain_cons.2
    ⟨fun y hy => Or.inr (hnext.head y hy), (List.isChain_append.1 hpost').2.1⟩, ?_⟩
  exact fun y hy z _ => Or.inl (hprev.last y hy)

/-- Where the block that `b` is merged into starts. -/
def mergedStart (m : ByteMem) (b : ℕ) : ℕ :=
  if prev m b ≠ 0 ∧ used m (prev m b) = 0 then prev m b else b

/-- Where the block that `b` is merged into ends. -/
def mergedEnd (m : ByteMem) (b : ℕ) : ℕ :=
  if next m b ≠ 0 ∧ used m (next m b) = 0 then next m b + 16 + size m (next m b)
  else b + 16 + size m b

lemma Seg.mergedStart_eq {pre' mid₁ : List Extent} (h : Seg m 0 a (pre ++ x :: post) 0)
    (ha : 0 < a) (habs : AbsorbsPrev pre pre' mid₁) :
    mergedStart m (segEnd a pre) = segEnd a pre' := by
  have hprev : prev m (segEnd a pre) = segLast 0 a pre := congrArg HeapBlock.prev h.block_mid
  obtain ⟨rfl, hfree, hone, hlast⟩ := habs
  rw [mergedStart, hprev]
  obtain rfl | ⟨y, rfl⟩ := hone
  · rw [List.append_nil] at *
    rcases List.eq_nil_or_concat' pre' with rfl | ⟨ys, y, rfl⟩
    · rw [segLast_nil, if_neg (by simp)]
    · rw [if_neg]
      rintro ⟨-, hused⟩
      rw [segLast_append_cons, segLast_nil] at hused
      rw [List.append_assoc, List.singleton_append] at h
      rw [h.extent.2] at hused
      exact hlast y (by simp) hused
  · rw [segLast_append_cons, segLast_nil, if_pos]
    rw [List.append_assoc, List.singleton_append] at h
    have hle := le_segEnd a pre'
    exact ⟨by omega, by rw [h.extent.2]; exact hfree y (by simp)⟩

lemma Seg.mergedEnd_eq {mid₂ post' : List Extent} (h : Seg m 0 a (pre ++ x :: post) 0)
    (habs : AbsorbsNext post mid₂ post') :
    mergedEnd m (segEnd a pre) = segEnd (segEnd a pre + 16 + x.size) mid₂ := by
  have hnext : next m (segEnd a pre) = nextOr post 0 (segEnd a pre + 16 + x.size) :=
    congrArg HeapBlock.next h.block_mid
  have hle := le_segEnd a pre
  obtain ⟨rfl, hfree, hone, hhead⟩ := habs
  rw [mergedEnd, hnext, h.extent.1]
  have hnextused : ∀ y ys, mid₂ ++ post' = y :: ys →
      used m (segEnd a pre + 16 + x.size) = y.used ∧
        size m (segEnd a pre + 16 + x.size) = y.size := by
    intro y ys heq
    rw [heq, ← List.singleton_append, ← List.append_assoc] at h
    have hext := h.extent
    rw [segEnd_append] at hext
    exact ⟨hext.2, hext.1⟩
  obtain rfl | ⟨y, rfl⟩ := hone
  · rw [List.nil_append] at *
    cases post' with
    | nil => rw [nextOr_nil, if_neg (by simp), segEnd_nil]
    | cons y ys =>
      rw [nextOr_cons, if_neg, segEnd_nil]
      rintro ⟨-, hused⟩
      rw [(hnextused y ys rfl).1] at hused
      exact hhead y rfl hused
  · obtain ⟨hused, hsize⟩ := hnextused y post' rfl
    rw [List.singleton_append, nextOr_cons, hused, hsize, if_pos ⟨by omega, hfree y (by simp)⟩]
    rfl

end Heap

/-! ### `heap_free` -/

section

variable {σ : Type} {s : HeapState σ} {bs : List ℕ}

/-- No two adjacent blocks are free. -/
def NoFreePair (s : HeapState σ) (bs : List ℕ) : Prop :=
  ∀ b ∈ bs, next s.mem b ≠ 0 → used s.mem b ≠ 0 ∨ used s.mem (next s.mem b) ≠ 0

/-- From `s` to `s'` the block `b` has been freed and merged with each free neighbour. -/
structure Coalesced (s s' : HeapState σ) (bs bs' : List ℕ) (b : ℕ) : Prop where
  wellFormed : WellFormed s' bs'
  noFreePair : NoFreePair s' bs'
  /-- The list tiles the same region. -/
  region : s'.heapStart = s.heapStart ∧ s'.heapEnd = s.heapEnd
  /-- The blocks are the ones before, but for those inside the merged block. -/
  blocks : ∀ c, c ∈ bs' ↔ c ∈ bs ∧ ¬ (mergedStart s.mem b < c ∧ c < mergedEnd s.mem b)
  /-- Every other used block is still there. -/
  kept : ∀ c ∈ bs, used s.mem c ≠ 0 → c ≠ b → c ∈ bs' ∧ c ≠ mergedStart s.mem b
  others : ∀ c ∈ bs', c ≠ mergedStart s.mem b →
    size s'.mem c = size s.mem c ∧ used s'.mem c = used s.mem c
  merged : mergedStart s.mem b ∈ bs' ∧ used s'.mem (mergedStart s.mem b) = 0 ∧
    mergedStart s.mem b + 16 + size s'.mem (mergedStart s.mem b) = mergedEnd s.mem b
  /-- The bytes of the freed block are inside. -/
  inside : mergedStart s.mem b ≤ b ∧ b + 16 + size s.mem b ≤ mergedEnd s.mem b

/-- Freeing a used block of a segment. -/
lemma HeapInv.coalesced {pre post : List Extent} {x : Extent} (h : HeapInv s (pre ++ x :: post))
    (hchain : (pre ++ x :: post).IsChain OneUsed) :
    ∃ bs', Coalesced s { s with
        mem := heapMergeFreeBlocks (setUsed s.mem (segEnd heapVirtualAddress pre) 0)
          (segEnd heapVirtualAddress pre) }
      (addrs heapVirtualAddress (pre ++ x :: post)) bs' (segEnd heapVirtualAddress pre) := by
  have hpos : 0 < heapVirtualAddress := by norm_num
  have hfree := h.free_mid
  obtain ⟨pre', mid₁, mid₂, post', S, hprev, hnext, hextents, hchain'⟩ := freeExtents_eq hchain
  have hstart := h.seg.mergedStart_eq hpos hprev
  have hend := h.seg.mergedEnd_eq hnext
  have htiles := segEnd_freeExtents heapVirtualAddress pre x post
  rw [hextents] at hfree htiles
  obtain ⟨hpre, hfree₁, -, -⟩ := hprev
  obtain ⟨hpost, hfree₂, -, -⟩ := hnext
  have hlist : pre ++ x :: post = pre' ++ (mid₁ ++ x :: mid₂ ++ post') := by simp [hpre, hpost]
  have hb : segEnd heapVirtualAddress pre = segEnd (segEnd heapVirtualAddress pre') mid₁ := by
    rw [hpre, segEnd_append]
  have hmid : segEnd (segEnd heapVirtualAddress pre') (mid₁ ++ x :: mid₂) =
      mergedEnd s.mem (segEnd heapVirtualAddress pre) := by
    rw [hend, hb, segEnd_append, segEnd_cons]
  have hone : segEnd (segEnd heapVirtualAddress pre') [⟨S, 0⟩] =
      mergedEnd s.mem (segEnd heapVirtualAddress pre) := by
    rw [hlist, segEnd_append, segEnd_append _ pre', segEnd_append _ (mid₁ ++ x :: mid₂), hmid,
      segEnd_cons] at htiles
    exact segEnd_left_inj htiles
  have hblocks := fun c => @mem_addrs_replace heapVirtualAddress pre' post' (mid₁ ++ x :: mid₂)
    [⟨S, 0⟩] c (by simp) ⟨S, 0⟩ rfl (hone.trans hmid.symm)
  rw [List.singleton_append, hmid, ← hlist, ← hstart] at hblocks
  have hseg := h.seg
  rw [hlist] at hseg
  have hlow : mergedStart s.mem (segEnd heapVirtualAddress pre) ≤
      segEnd heapVirtualAddress pre := by
    rw [hstart, hb]
    exact le_segEnd _ mid₁
  have hhigh : segEnd heapVirtualAddress pre + 16 + x.size ≤
      mergedEnd s.mem (segEnd heapVirtualAddress pre) := by
    rw [hend]
    exact le_segEnd _ mid₂
  have hsize := h.seg.extent.1
  refine ⟨addrs heapVirtualAddress (pre' ++ ⟨S, 0⟩ :: post'), hfree.wellFormed,
    (hfree.seg.isChain_iff hpos).2 hchain', ⟨rfl, rfl⟩, hblocks, fun c hc hused hne => ?_,
    fun c hc hne => ?_, ⟨?_, ?_, ?_⟩, hlow, by rw [hsize]; exact hhigh⟩
  · -- of the blocks that disappear or become the merged one, only `b` was used
    have hout : c ∈ addrs heapVirtualAddress pre' ∨
        c ∈ addrs (mergedEnd s.mem (segEnd heapVirtualAddress pre)) post' := by
      rw [hlist, addrs_append, addrs_append, hmid, List.mem_append, List.mem_append, addrs_append,
        List.mem_append, ← hb, addrs, List.mem_cons] at hc
      obtain hc | (hc | hc | hc) | hc := hc
      · exact Or.inl hc
      · obtain ⟨p₁, w, p₂, rfl, rfl⟩ := mem_addrs.1 hc
        rw [List.append_assoc (p₁ ++ w :: p₂)] at hseg
        exact absurd (hseg.extent_part.2.trans (hfree₁ w (by simp))) hused
      · exact absurd hc hne
      · obtain ⟨p₁, w, p₂, rfl, rfl⟩ := mem_addrs.1 hc
        have hseg' : Seg s.mem 0 heapVirtualAddress ((pre' ++ mid₁ ++ [x]) ++
            (p₁ ++ w :: p₂ ++ post')) 0 := by simpa using hseg
        have hused' := hseg'.extent_part.2
        rw [segEnd_append, ← hpre, segEnd_cons, segEnd_nil] at hused'
        exact absurd (hused'.trans (hfree₂ w (by simp))) hused
      · exact Or.inr hc
    have hstart' := hlow.trans (by omega : _ ≤ segEnd heapVirtualAddress pre + 16 + x.size)
    obtain hc' | hc' := hout
    · have hlt := (addrs_bounds hc').2
      rw [← hstart] at hlt
      exact ⟨(hblocks c).2 ⟨hc, by omega⟩, by omega⟩
    · have hge := (addrs_bounds hc').1
      exact ⟨(hblocks c).2 ⟨hc, by omega⟩, by omega⟩
  · rw [addrs_append, List.mem_append, addrs, List.mem_cons, ← hstart] at hc
    obtain hc | hc | hc := hc
    · obtain ⟨p₁, w, p₂, rfl, rfl⟩ := mem_addrs.1 hc
      rw [List.append_assoc, List.cons_append] at hseg
      have hnew := hfree.seg
      rw [List.append_assoc, List.cons_append] at hnew
      exact ⟨hnew.extent.1.trans hseg.extent.1.symm, hnew.extent.2.trans hseg.extent.2.symm⟩
    · exact absurd hc hne
    · obtain ⟨p₁, w, p₂, rfl, rfl⟩ := mem_addrs.1 hc
      have hnew := hfree.seg
      rw [show pre' ++ ⟨S, 0⟩ :: (p₁ ++ w :: p₂) = (pre' ++ [⟨S, 0⟩]) ++ (p₁ ++ w :: p₂ ++ [])
        by simp] at hnew
      have hold : Seg s.mem 0 heapVirtualAddress ((pre' ++ (mid₁ ++ x :: mid₂)) ++
          (p₁ ++ w :: p₂ ++ [])) 0 := by simpa using hseg
      have hnew' := hnew.extent_part
      have hold' := hold.extent_part
      rw [segEnd_append, hone, ← hone, segEnd_cons, segEnd_nil, ← hstart] at hnew'
      rw [segEnd_append, hmid, ← hone, segEnd_cons, segEnd_nil, ← hstart] at hold'
      exact ⟨hnew'.1.trans hold'.1.symm, hnew'.2.trans hold'.2.symm⟩
  · rw [hstart]
    exact mem_addrs.2 ⟨pre', ⟨S, 0⟩, post', rfl, rfl⟩
  · rw [hstart]
    exact hfree.seg.extent.2
  · rw [hstart, hfree.seg.extent.1]
    exact hone

/-- Freeing a free block of a list without adjacent free blocks changes nothing. -/
lemma HeapInv.free_free {pre post : List Extent} {x : Extent} (h : HeapInv s (pre ++ x :: post))
    (hpair : NoFreePair s (addrs heapVirtualAddress (pre ++ x :: post))) (hx : x.used = 0) :
    heapMergeFreeBlocks (setUsed s.mem (segEnd heapVirtualAddress pre) 0)
      (segEnd heapVirtualAddress pre) = s.mem := by
  have hused := h.seg.extent.2.trans hx
  have hset : setUsed s.mem (segEnd heapVirtualAddress pre) 0 = s.mem := by
    rw [← hused]
    exact Function.update_eq_self _ _
  have hmem : segEnd heapVirtualAddress pre ∈ addrs heapVirtualAddress (pre ++ x :: post) :=
    mem_addrs.2 ⟨pre, x, post, rfl, rfl⟩
  have hle := le_segEnd heapVirtualAddress pre
  have hbase : heapVirtualAddress = 0xE0000000 := rfl
  rw [hset, heapMergeFreeBlocks, if_neg (by simp [hused]; omega)]
  have hprev : ¬ (prev s.mem (segEnd heapVirtualAddress pre) ≠ 0 ∧
      used s.mem (prev s.mem (segEnd heapVirtualAddress pre)) = 0) := by
    rintro ⟨hne, hfree⟩
    obtain ⟨hmem', hnext⟩ := h.seg.prev_mid hne
    obtain hprev | hself := hpair _ hmem' (by rw [hnext]; omega)
    · exact hprev hfree
    · rw [hnext] at hself
      exact hself hused
  have hnext : ¬ (next s.mem (segEnd heapVirtualAddress pre) ≠ 0 ∧
      used s.mem (next s.mem (segEnd heapVirtualAddress pre)) = 0) := by
    rintro ⟨hne, hfree⟩
    exact (hpair _ hmem hne).elim (fun hself => hself hused) fun hnext => hnext hfree
  rw [mergePrev, if_neg hprev]
  dsimp only
  rw [mergeNext, if_neg hnext]

/-- On a well-formed heap without adjacent free blocks, `heap_free` of the payload address
of a used block merges the block with each free neighbour and leaves such a heap; for
every other pointer nothing changes. -/
theorem heapFree_coalesces (h : WellFormed s bs) (hpair : NoFreePair s bs) (ptr : ℕ) :
    (∀ b ∈ bs, used s.mem b ≠ 0 → ptr = b + headerSize →
      ∃ s' bs', heapFree s ptr = some s' ∧ Coalesced s s' bs bs' b) ∧
    ((∀ b ∈ bs, used s.mem b ≠ 0 → ptr ≠ b + headerSize) → heapFree s ptr = some s) := by
  obtain ⟨hinv, haddrs⟩ := h.heapInv
  generalize bs.map (extentOf s.mem) = xs at hinv haddrs
  subst haddrs
  have hheader : headerSize = 16 := rfl
  constructor
  · rintro b hb hused rfl
    have hne : b + headerSize ≠ 0 := by omega
    obtain ⟨pre, x, post, rfl, rfl⟩ := mem_addrs.1 hb
    obtain ⟨-, hnone⟩ | ⟨pre', x', post', heq, hptr, hres⟩ := hinv.free_cases hne
    · exact absurd rfl (hnone pre x post rfl)
    · have hsame : segEnd heapVirtualAddress pre' = segEnd heapVirtualAddress pre := by omega
      have hchain := (hinv.seg.isChain_iff (by norm_num)).1 hpair
      rw [hsame] at hres
      obtain ⟨bs', hco⟩ := hinv.coalesced hchain
      exact ⟨_, bs', hres, hco⟩
  · intro hother
    by_cases h0 : ptr = 0
    · rw [heapFree, if_pos h0]
    obtain ⟨hres, -⟩ | ⟨pre, x, post, rfl, hptr, hres⟩ := hinv.free_cases h0
    · exact hres
    · have hmem : segEnd heapVirtualAddress pre ∈ addrs heapVirtualAddress (pre ++ x :: post) :=
        mem_addrs.2 ⟨pre, x, post, rfl, rfl⟩
      have hx : x.used = 0 := by
        by_contra hne
        rw [← hinv.seg.extent.2] at hne
        exact hother _ hmem hne (by omega)
      rw [hres, hinv.free_free hpair hx]

end

/-- A heap whose only block is used. -/
def usedHeap : HeapState Unit where
  vm := ()
  mem := setUsed (initBlock (fun _ => 0) heapVirtualAddress 98288 0 0) heapVirtualAddress 1
  heapStart := heapVirtualAddress
  heapEnd := heapVirtualAddress + 24 * pageSize

lemma usedHeap_inv : HeapInv usedHeap [⟨98288, 1⟩] where
  start := rfl
  nonempty := by simp
  seg := by
    have hblock : Seg (initBlock (fun _ => 0) heapVirtualAddress 98288 0 0) 0 heapVirtualAddress
        ([] ++ ⟨98288, 0⟩ :: []) 0 :=
      ⟨block_initBlock _ (by norm_num) (by norm_num) (by norm_num), trivial⟩
    exact hblock.setUsed 1
  tiles := rfl
  bounded := by norm_num [usedHeap]

theorem heapFree_coalesces_used :
    ∃ s' bs', heapFree usedHeap 0xE0000010 = some s' ∧
      Coalesced usedHeap s' [0xE0000000] bs' 0xE0000000 := by
  have hpair : NoFreePair usedHeap [0xE0000000] :=
    (usedHeap_inv.seg.isChain_iff (by norm_num)).2 (List.isChain_singleton _)
  exact (heapFree_coalesces usedHeap_inv.wellFormed hpair 0xE0000010).1 0xE0000000
    List.mem_cons_self (by decide +kernel) rfl

end Gummy
