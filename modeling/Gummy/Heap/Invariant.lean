import Gummy.Heap.Ops
import Gummy.Lib.Transition
import Mathlib

/-!
The representation invariant of the heap over whole runs.

`WellFormed` says what a reader of `heap.c` expects of the list in memory, and
`HeapInv` is the same in terms of segments, the form the operations keep.  They
keep it as long as `heap_alloc` meets no block that is larger than the request
by less than a header: there `heap_split_block` subtracts past zero and places a
header over the following bytes.
-/

namespace Gummy

open CWord Heap Transition

namespace Heap

variable {m : ByteMem} {p a n : ℕ} {pre post xs : List Extent} {x : Extent}

/-! ### The list as addresses -/

/-- Following `next` from `b` visits exactly the blocks `bs` and ends. -/
def Chain (m : ByteMem) : ℕ → List ℕ → Prop
  | b, [] => b = 0
  | b, c :: bs => b ≠ 0 ∧ c = b ∧ Chain m (next m b) bs

/-- The addresses of the blocks `xs` laid out from `a`. -/
def addrs : ℕ → List Extent → List ℕ
  | _, [] => []
  | a, x :: xs => a :: addrs (a + 16 + x.size) xs

lemma Chain.unique {b : ℕ} {l l' : List ℕ} (h : Chain m b l) (h' : Chain m b l') : l = l' := by
  induction l generalizing b l' with
  | nil =>
    cases l' with
    | nil => rfl
    | cons c l' => exact absurd h h'.1
  | cons c l ih =>
    cases l' with
    | nil => exact absurd h' h.1
    | cons c' l' =>
      obtain ⟨-, rfl, h⟩ := h
      obtain ⟨-, rfl, h'⟩ := h'
      rw [ih h h']

lemma Seg.chain (h : Seg m p a xs 0) (ha : 0 < a) : Chain m (nextOr xs 0 a) (addrs a xs) := by
  induction xs generalizing p a with
  | nil => rfl
  | cons x xs ih =>
    have hrec := ih h.2 (by omega)
    rw [← h.next_eq] at hrec
    exact ⟨ha.ne', rfl, hrec⟩

lemma mem_addrs {b : ℕ} :
    b ∈ addrs a xs ↔ ∃ pre x post, xs = pre ++ x :: post ∧ b = segEnd a pre := by
  induction xs generalizing a with
  | nil => simp [addrs]
  | cons y ys ih =>
    rw [addrs, List.mem_cons, ih]
    constructor
    · rintro (rfl | ⟨pre, x, post, rfl, rfl⟩)
      · exact ⟨[], y, ys, rfl, rfl⟩
      · exact ⟨y :: pre, x, post, rfl, rfl⟩
    · rintro ⟨_ | ⟨z, pre⟩, x, post, heq, rfl⟩
      · exact Or.inl rfl
      · obtain ⟨rfl, htl⟩ := List.cons.inj heq
        exact Or.inr ⟨pre, x, post, htl, rfl⟩

lemma addrs_append (a : ℕ) (xs ys : List Extent) :
    addrs a (xs ++ ys) = addrs a xs ++ addrs (segEnd a xs) ys := by
  induction xs generalizing a with
  | nil => rfl
  | cons x xs ih => simp [addrs, ih]

/-- Every address of the region belongs to one of the blocks laid out over it. -/
lemma exists_covering {y : ℕ} (h1 : a ≤ y) (h2 : y < segEnd a xs) :
    ∃ pre x post, xs = pre ++ x :: post ∧ segEnd a pre ≤ y ∧ y < segEnd a pre + 16 + x.size := by
  induction xs generalizing a with
  | nil => exact absurd h2 (by simp only [segEnd_nil]; omega)
  | cons x xs ih =>
    by_cases hy : y < a + 16 + x.size
    · exact ⟨[], x, xs, rfl, h1, hy⟩
    · obtain ⟨pre, z, post, rfl, h3, h4⟩ := ih (by omega) h2
      exact ⟨x :: pre, z, post, rfl, h3, h4⟩

/-- Of two blocks at different addresses one ends before the other starts. -/
lemma blocks_ordered {pre' post' : List Extent} {x' : Extent}
    (h : pre ++ x :: post = pre' ++ x' :: post') (hne : segEnd a pre ≠ segEnd a pre') :
    segEnd a pre + 16 + x.size ≤ segEnd a pre' ∨ segEnd a pre' + 16 + x'.size ≤ segEnd a pre := by
  induction pre generalizing a pre' with
  | nil =>
    cases pre' with
    | nil => exact absurd rfl hne
    | cons z zs =>
      obtain ⟨rfl, -⟩ := List.cons.inj h
      exact Or.inl (le_segEnd _ zs)
  | cons y ys ih =>
    cases pre' with
    | nil =>
      obtain ⟨rfl, -⟩ := List.cons.inj h
      exact Or.inr (le_segEnd _ ys)
    | cons z zs =>
      obtain ⟨rfl, htl⟩ := List.cons.inj h
      exact ih htl hne

/-- The bytes of a block's header. -/
def header (b : ℕ) : Set ℕ := Set.Ico b (b + 16)

/-- The bytes of a block's payload. -/
def payload (m : ByteMem) (b : ℕ) : Set ℕ := Set.Ico (b + 16) (b + 16 + size m b)

end Heap

/-! ### Well-formed heaps -/

section

variable {σ : Type}

/-- The heap's memory holds the well-formed block list `bs`. -/
structure WellFormed (s : HeapState σ) (bs : List ℕ) : Prop where
  /-- The list from `heap_start` is finite and its blocks are `bs`. -/
  chain : Chain s.mem s.heapStart bs
  /-- No block is visited twice. -/
  nodup : bs.Nodup
  start : s.heapStart = heapVirtualAddress ∧ prev s.mem s.heapStart = 0
  next_prev : ∀ b ∈ bs, next s.mem b ≠ 0 → next s.mem b ∈ bs ∧ prev s.mem (next s.mem b) = b
  prev_next : ∀ b ∈ bs, prev s.mem b ≠ 0 → prev s.mem b ∈ bs ∧ next s.mem (prev s.mem b) = b
  adjacent : ∀ b ∈ bs, next s.mem b ≠ 0 → next s.mem b = b + 16 + size s.mem b
  /-- The blocks cover `[HEAP_VIRTUAL_ADDRESS, heapEnd)` and nothing else. -/
  covers : ∀ y, heapVirtualAddress ≤ y ∧ y < s.heapEnd ↔
    ∃ b ∈ bs, b ≤ y ∧ y < b + 16 + size s.mem b
  /-- Two blocks share no byte. -/
  disjoint : ∀ b ∈ bs, ∀ c ∈ bs, b ≠ c →
    b + 16 + size s.mem b ≤ c ∨ c + 16 + size s.mem c ≤ b
  bounded : s.heapEnd < heapLimit

/-- The payloads of used blocks keep clear of each other, of every header and of
the memory past the heap. -/
def PayloadsApart (s : HeapState σ) (bs : List ℕ) : Prop :=
  ∀ b ∈ bs, used s.mem b ≠ 0 →
    (∀ c ∈ bs, used s.mem c ≠ 0 → b ≠ c → Disjoint (payload s.mem b) (payload s.mem c)) ∧
      (∀ c ∈ bs, Disjoint (payload s.mem b) (header c)) ∧
      payload s.mem b ⊆ Set.Ico heapVirtualAddress s.heapEnd

lemma WellFormed.payloadsApart {s : HeapState σ} {bs : List ℕ} (h : WellFormed s bs) :
    PayloadsApart s bs := by
  intro b hb _
  refine ⟨fun c hc _ hne => ?_, fun c hc => ?_, fun y hy => ?_⟩
  · rw [Set.disjoint_left]
    rintro y ⟨h1, h2⟩ ⟨h3, h4⟩
    rcases h.disjoint b hb c hc hne with h5 | h5 <;> omega
  · rw [Set.disjoint_left]
    rintro y ⟨h1, h2⟩ ⟨h3, h4⟩
    rcases eq_or_ne b c with rfl | hne
    · omega
    · rcases h.disjoint b hb c hc hne with h5 | h5 <;> omega
  · obtain ⟨h1, h2⟩ := hy
    exact (h.covers y).2 ⟨b, hb, by omega, h2⟩

/-- The list of the heap, as segments. -/
structure HeapInv (s : HeapState σ) (xs : List Extent) : Prop where
  start : s.heapStart = heapVirtualAddress
  nonempty : xs ≠ []
  seg : Seg s.mem 0 heapVirtualAddress xs 0
  tiles : segEnd heapVirtualAddress xs = s.heapEnd
  bounded : s.heapEnd < heapLimit

variable {s : HeapState σ} {xs : List Extent}

lemma HeapInv.end_lt (h : HeapInv s xs) : segEnd heapVirtualAddress xs < 2 ^ 32 := by
  rw [h.tiles]
  exact h.bounded.trans (by norm_num)

lemma HeapInv.length_lt (h : HeapInv s xs) : xs.length < loopFuel := by
  have h1 := segEnd_ge heapVirtualAddress xs
  have h2 := h.end_lt
  unfold loopFuel
  omega

lemma HeapInv.chain (h : HeapInv s xs) :
    Chain s.mem s.heapStart (addrs heapVirtualAddress xs) := by
  have hc := h.seg.chain (by norm_num)
  obtain ⟨y, ys, rfl⟩ := List.exists_cons_of_ne_nil h.nonempty
  rw [h.start]
  exact hc

/-- The successor of a block is the next block of the segment, linked back. -/
lemma Heap.Seg.next_mid {m : ByteMem} {a : ℕ} {pre post : List Extent} {x : Extent}
    (h : Seg m 0 a (pre ++ x :: post) 0) (hne : next m (segEnd a pre) ≠ 0) :
    next m (segEnd a pre) = segEnd a pre + 16 + x.size ∧
      next m (segEnd a pre) ∈ addrs a (pre ++ x :: post) ∧
      prev m (next m (segEnd a pre)) = segEnd a pre := by
  have hb := h.block_mid
  have hnext : next m (segEnd a pre) = nextOr post 0 (segEnd a pre + 16 + x.size) :=
    congrArg HeapBlock.next hb
  cases post with
  | nil => exact absurd hnext hne
  | cons y ys =>
    rw [nextOr_cons] at hnext
    have h' : Seg m 0 a ((pre ++ [x]) ++ y :: ys) 0 := by simpa using h
    have hat : segEnd a (pre ++ [x]) = segEnd a pre + 16 + x.size := segEnd_append a pre [x]
    refine ⟨hnext, mem_addrs.2 ⟨pre ++ [x], y, ys, by simp, by rw [hnext, hat]⟩, ?_⟩
    rw [hnext, ← hat, show prev m _ = _ from congrArg HeapBlock.prev h'.block_mid]
    exact segLast_append_cons 0 a pre x []

/-- The predecessor of a block is the previous block of the segment, linked on. -/
lemma Heap.Seg.prev_mid {m : ByteMem} {a : ℕ} {pre post : List Extent} {x : Extent}
    (h : Seg m 0 a (pre ++ x :: post) 0) (hne : prev m (segEnd a pre) ≠ 0) :
    prev m (segEnd a pre) ∈ addrs a (pre ++ x :: post) ∧
      next m (prev m (segEnd a pre)) = segEnd a pre := by
  have hprev : prev m (segEnd a pre) = segLast 0 a pre := congrArg HeapBlock.prev h.block_mid
  rcases List.eq_nil_or_concat' pre with rfl | ⟨ys, y, rfl⟩
  · exact absurd hprev hne
  have h' : Seg m 0 a (ys ++ y :: (x :: post)) 0 := by simpa using h
  rw [segLast_append_cons, segLast_nil] at hprev
  refine ⟨mem_addrs.2 ⟨ys, y, x :: post, by simp, hprev⟩, ?_⟩
  rw [hprev, show next m _ = _ from congrArg HeapBlock.next h'.block_mid, segEnd_append]
  rfl

lemma Heap.addrs_pairwise (a : ℕ) (xs : List Extent) : (addrs a xs).Pairwise (· < ·) := by
  induction xs generalizing a with
  | nil => exact List.Pairwise.nil
  | cons x xs ih =>
    refine List.Pairwise.cons (fun b hb => ?_) (ih _)
    obtain ⟨pre, y, post, -, rfl⟩ := mem_addrs.1 hb
    have := le_segEnd (a + 16 + x.size) pre
    omega

lemma HeapInv.wellFormed (h : HeapInv s xs) :
    WellFormed s (addrs heapVirtualAddress xs) := by
  have hseg := h.seg
  have hsize : ∀ {pre x post}, xs = pre ++ x :: post →
      size s.mem (segEnd heapVirtualAddress pre) = x.size := by
    rintro pre x post rfl
    exact congrArg HeapBlock.size hseg.block_mid
  refine
    { chain := h.chain
      nodup := (addrs_pairwise _ xs).imp fun h => h.ne
      start := ⟨h.start, ?_⟩
      next_prev := ?_
      prev_next := ?_
      adjacent := ?_
      covers := ?_
      disjoint := ?_
      bounded := h.bounded }
  · obtain ⟨y, ys, rfl⟩ := List.exists_cons_of_ne_nil h.nonempty
    rw [h.start]
    exact congrArg HeapBlock.prev hseg.1
  · intro b hb hne
    obtain ⟨pre, x, post, rfl, rfl⟩ := mem_addrs.1 hb
    exact (hseg.next_mid hne).2
  · intro b hb hne
    obtain ⟨pre, x, post, rfl, rfl⟩ := mem_addrs.1 hb
    exact hseg.prev_mid hne
  · intro b hb hne
    obtain ⟨pre, x, post, heq, rfl⟩ := mem_addrs.1 hb
    rw [hsize heq]
    subst heq
    exact (hseg.next_mid hne).1
  · intro y
    rw [← h.tiles]
    constructor
    · rintro ⟨h1, h2⟩
      obtain ⟨pre, x, post, heq, h3, h4⟩ := exists_covering h1 h2
      exact ⟨_, mem_addrs.2 ⟨pre, x, post, heq, rfl⟩, h3, by rw [hsize heq]; exact h4⟩
    · rintro ⟨b, hb, h1, h2⟩
      obtain ⟨pre, x, post, heq, rfl⟩ := mem_addrs.1 hb
      rw [hsize heq] at h2
      subst heq
      have h3 := le_segEnd heapVirtualAddress pre
      have h4 := le_segEnd (segEnd heapVirtualAddress pre + 16 + x.size) post
      rw [segEnd_append, segEnd_cons]
      omega
  · intro b hb c hc hne
    obtain ⟨pre, x, post, heq, rfl⟩ := mem_addrs.1 hb
    obtain ⟨pre', x', post', heq', rfl⟩ := mem_addrs.1 hc
    rw [hsize heq, hsize heq']
    exact blocks_ordered (heq.symm.trans heq') hne

/-- The extent of the block at `b`. -/
def Heap.extentOf (m : ByteMem) (b : ℕ) : Extent := ⟨size m b, used m b⟩

/-- A chain with inverse links between adjacent blocks is a segment. -/
lemma Heap.Chain.seg {m : ByteMem} {bs : List ℕ} {p b : ℕ} (h : Chain m b bs)
    (hprev : b ≠ 0 → prev m b = p)
    (hinv : ∀ c ∈ bs, next m c ≠ 0 → prev m (next m c) = c)
    (hadj : ∀ c ∈ bs, next m c ≠ 0 → next m c = c + 16 + size m c) :
    Seg m p b (bs.map (extentOf m)) 0 ∧ addrs b (bs.map (extentOf m)) = bs := by
  induction bs generalizing b p with
  | nil => exact ⟨trivial, rfl⟩
  | cons c bs ih =>
    obtain ⟨hne, rfl, h⟩ := h
    have hnext : next m c = nextOr (bs.map (extentOf m)) 0 (c + 16 + size m c) := by
      cases bs with
      | nil => exact h
      | cons d ds => exact hadj c List.mem_cons_self h.1
    have hblock : block m c = ⟨size m c, used m c, p,
        nextOr (bs.map (extentOf m)) 0 (c + 16 + size m c)⟩ := by
      rw [← hnext, ← hprev hne]
      rfl
    obtain ⟨hseg, haddrs⟩ := ih h (fun hne' => hinv c List.mem_cons_self hne')
      (fun d hd => hinv d (List.mem_cons_of_mem _ hd)) fun d hd =>
        hadj d (List.mem_cons_of_mem _ hd)
    cases bs with
    | nil => exact ⟨⟨hblock, trivial⟩, rfl⟩
    | cons d ds =>
      rw [hadj c List.mem_cons_self h.1] at hseg haddrs
      refine ⟨⟨hblock, hseg⟩, ?_⟩
      exact congrArg (c :: ·) haddrs

/-- The two forms of the invariant say the same. -/
lemma WellFormed.heapInv {bs : List ℕ} (h : WellFormed s bs) :
    HeapInv s (bs.map (extentOf s.mem)) ∧
      addrs heapVirtualAddress (bs.map (extentOf s.mem)) = bs := by
  have hchain := h.chain
  rw [h.start.1] at hchain
  obtain ⟨hseg, haddrs⟩ := hchain.seg (p := 0)
    (fun _ => by rw [← h.start.1]; exact h.start.2)
    (fun c hc hne => (h.next_prev c hc hne).2) h.adjacent
  have hne : bs ≠ [] := by
    rintro rfl
    exact absurd hchain (by norm_num [Chain])
  have hstart := le_segEnd heapVirtualAddress (bs.map (extentOf s.mem))
  have hcover : ∀ y, heapVirtualAddress ≤ y → (y < segEnd heapVirtualAddress
      (bs.map (extentOf s.mem)) ↔ y < s.heapEnd) := by
    intro y hy
    have hblocks := h.covers y
    constructor
    · intro hlt
      obtain ⟨pre, x, post, heq, h1, h2⟩ := exists_covering hy hlt
      have hmem : segEnd heapVirtualAddress pre ∈ bs := by
        rw [← haddrs]
        exact mem_addrs.2 ⟨pre, x, post, heq, rfl⟩
      have hsize : size s.mem (segEnd heapVirtualAddress pre) = x.size := by
        rw [heq] at hseg
        exact congrArg HeapBlock.size hseg.block_mid
      exact (hblocks.2 ⟨_, hmem, h1, by rw [hsize]; exact h2⟩).2
    · intro hlt
      obtain ⟨b, hb, h1, h2⟩ := hblocks.1 ⟨hy, hlt⟩
      rw [← haddrs] at hb
      obtain ⟨pre, x, post, heq, rfl⟩ := mem_addrs.1 hb
      have hsize : size s.mem (segEnd heapVirtualAddress pre) = x.size := by
        rw [heq] at hseg
        exact congrArg HeapBlock.size hseg.block_mid
      have hend := le_segEnd (segEnd heapVirtualAddress pre + 16 + x.size) post
      rw [heq, segEnd_append, segEnd_cons]
      omega
  have htiles : segEnd heapVirtualAddress (bs.map (extentOf s.mem)) = s.heapEnd := by
    obtain ⟨b, hb⟩ := List.exists_mem_of_ne_nil bs hne
    have hend : heapVirtualAddress < s.heapEnd := by
      have hlow : heapVirtualAddress ≤ b := by
        rw [← haddrs] at hb
        obtain ⟨pre, x, post, -, rfl⟩ := mem_addrs.1 hb
        exact le_segEnd _ pre
      have := (h.covers b).2 ⟨b, hb, le_rfl, by omega⟩
      omega
    have h1 := hcover (s.heapEnd - 1) (by omega)
    have h2 := hcover s.heapEnd (by omega)
    omega
  exact ⟨⟨h.start.1, by simpa using hne, hseg, htiles, h.bounded⟩, haddrs⟩

/-! ### The operations keep the invariant -/

variable {v : PageRuns σ}

lemma heapInit_inv (hv : v.Lawful) {s₀ : HeapState σ} (h : (heapInit v s₀).heapStart ≠ 0) :
    ∃ xs, HeapInv (heapInit v s₀) xs := by
  unfold heapInit at h ⊢
  simp only [heapLimit, heapVirtualAddress, heapInitialPages, pageSize, headerSize] at h ⊢
  rw [if_neg (by norm_num)] at h ⊢
  rcases hr : v.vmmAllocPagesRegion 24 (vmmFlagsRw ||| vmmFlagsPresent) 0xE0000000
      (0xE0000000 + 24 * 4096) s₀.vm s₀.mem with ⟨_ | a, vm, mem⟩
  · simp [hr] at h
  obtain ⟨h1, h2, -, -⟩ := hv.run hr
  obtain rfl : a = 0xE0000000 := by simp only [pageSize] at h2; omega
  exact ⟨[⟨24 * 4096 - 16, 0⟩],
    { start := rfl
      nonempty := by simp
      seg := ⟨block_initBlock mem (by norm_num) (by norm_num) (by norm_num), trivial⟩
      tiles := rfl
      bounded := by norm_num }⟩

/-- The loop of `heap_expand` ends at the last block, behind which the heap ends. -/
lemma HeapInv.last_block (h : HeapInv s xs) :
    lastBlock s.mem loopFuel s.heapStart = some (segLast 0 heapVirtualAddress xs) ∧
      segLast 0 heapVirtualAddress xs + 16 + size s.mem (segLast 0 heapVirtualAddress xs) =
        s.heapEnd := by
  constructor
  · rw [h.start]
    exact h.seg.lastBlock_eq h.nonempty h.length_lt.le
  · rcases List.eq_nil_or_concat' xs with hnil | ⟨ys, y, rfl⟩
    · exact absurd hnil h.nonempty
    · rw [segLast_append_cons, segLast_nil, ← h.tiles, segEnd_append,
        show size s.mem _ = _ from congrArg HeapBlock.size h.seg.block_mid]
      rfl

/-- `heap_expand` of at most `2 ^ 20 - 1` pages either fails without touching the
list or appends one free block. -/
lemma HeapInv.expand (hv : v.Lawful) (h : HeapInv s xs) {k : ℕ} (hk : k < 2 ^ 20) :
    ∃ b s', heapExpand v s k = some (b, s') ∧
      ((b = 0 ∧ HeapInv s' xs) ∨
        (b = s.heapEnd ∧ 0 < k ∧ HeapInv s' (xs ++ [⟨k * pageSize - 16, 0⟩]))) := by
  have hstart : s.heapStart ≠ 0 := by rw [h.start]; norm_num
  by_cases hk0 : k = 0
  · exact ⟨0, s, by rw [heapExpand, if_pos (Or.inr hk0)], Or.inl ⟨rfl, h⟩⟩
  obtain ⟨hlast, hend⟩ := h.last_block
  have hbound := h.bounded
  simp only [heapLimit] at hbound
  rw [heapExpand, if_neg (by tauto), hlast]
  simp only [Option.bind_eq_bind, Option.bind_some, headerSize, hend,
    u32_of_lt (show s.heapEnd < 2 ^ 32 by omega)]
  by_cases hlim : heapLimit ≤ u32 (s.heapEnd + k * pageSize)
  · exact ⟨0, s, by rw [if_pos hlim], Or.inl ⟨rfl, h⟩⟩
  rw [if_neg hlim]
  rcases hr : v.vmmAllocPagesRegion k (vmmFlagsRw ||| vmmFlagsPresent) s.heapEnd
      (u32 (s.heapEnd + k * pageSize)) s.vm s.mem with ⟨_ | c, vm, mem⟩
  · obtain rfl := hv.null hr
    exact ⟨0, _, rfl, Or.inl ⟨rfl, ⟨h.start, h.nonempty, h.seg, h.tiles, h.bounded⟩⟩⟩
  obtain ⟨h1, h2, -, hoff⟩ := hv.run hr
  -- the region does not wrap: a wrapped one has no room for the run
  have hnowrap : s.heapEnd + k * 4096 < 2 ^ 32 := by
    by_contra hge
    simp only [pageSize, u32] at h2
    omega
  simp only [heapLimit, pageSize, u32_of_lt hnowrap] at hlim h2
  obtain rfl : c = s.heapEnd := by omega
  have hmem : Seg mem 0 heapVirtualAddress xs 0 :=
    h.seg.congr fun y _ hy => hoff y (Or.inl (by rw [← h.tiles]; exact hy))
  have hsz : sub32 (u32 (k * pageSize)) 16 = k * pageSize - 16 := by
    simp only [pageSize]
    rw [u32_of_lt (by omega), sub32_of_le (by omega) (by omega)]
  refine ⟨s.heapEnd, _, rfl, Or.inr ⟨rfl, by omega, ?_⟩⟩
  have happ := hmem.append_block (k * pageSize - 16) h.nonempty
    (by rw [h.tiles]; simp only [pageSize]; omega)
  rw [h.tiles] at happ
  exact
    { start := h.start
      nonempty := by simp
      seg := by simpa only [hsz] using happ
      tiles := by
        rw [segEnd_append, h.tiles]
        simp only [segEnd_cons, segEnd_nil, pageSize]
        omega
      bounded := by simp only [heapLimit, pageSize]; omega }

/-- The condition under which `heap_alloc(sz)` leaves the list intact: the block
that first fit selects, if there is one, has exactly the size of the rounded
request, or room for another header behind it. -/
def SplitSafe (s : HeapState σ) (sz : ℕ) : Prop :=
  ∀ bs, Chain s.mem s.heapStart bs → ∀ b,
    bs.find? (fun b => used s.mem b = 0 ∧ alignUp 32 sz 4 ≤ size s.mem b) = some b →
      size s.mem b = alignUp 32 sz 4 ∨ alignUp 32 sz 4 + headerSize ≤ size s.mem b

lemma HeapInv.find_addrs (h : HeapInv s xs) {pre post : List Extent} {x : Extent} {sz : ℕ}
    (heq : xs = pre ++ x :: post) (hfit : Fits sz x) (hpre : ∀ y ∈ pre, ¬ Fits sz y) :
    (addrs heapVirtualAddress xs).find? (fun b => used s.mem b = 0 ∧ sz ≤ size s.mem b)
      = some (segEnd heapVirtualAddress pre) := by
  have hblock : ∀ {pre x post}, xs = pre ++ x :: post →
      ((used s.mem (segEnd heapVirtualAddress pre) = 0 ∧
        sz ≤ size s.mem (segEnd heapVirtualAddress pre)) ↔ Fits sz x) := by
    rintro pre x post rfl
    rw [show used s.mem _ = _ from congrArg HeapBlock.used h.seg.block_mid,
      show size s.mem _ = _ from congrArg HeapBlock.size h.seg.block_mid, Fits]
  have hnone : (addrs heapVirtualAddress pre).find?
      (fun b => used s.mem b = 0 ∧ sz ≤ size s.mem b) = none := by
    rw [List.find?_eq_none]
    intro b hb
    obtain ⟨l, y, r, rfl, rfl⟩ := mem_addrs.1 hb
    simp only [decide_eq_true_eq]
    rw [hblock (show xs = l ++ y :: (r ++ x :: post) by rw [heq]; simp)]
    exact hpre y (by simp)
  subst heq
  rw [addrs_append, List.find?_append, hnone, Option.none_or, addrs,
    List.find?_cons_of_pos (by simpa using (hblock rfl).2 hfit)]

lemma alignUp_four_lt (sz : ℕ) : alignUp 32 sz 4 < 2 ^ 32 := by
  rw [show (4 : ℕ) = 2 ^ 2 by norm_num, alignUp_two_pow (by norm_num)]
  omega

lemma pages_lt (sz : ℕ) : alignUp 32 sz pageSize / pageSize < 2 ^ 20 := by
  simp only [pageSize]
  rw [show (4096 : ℕ) = 2 ^ 12 by norm_num, alignUp_two_pow (by norm_num)]
  omega

lemma HeapInv.alloc (hv : v.Lawful) (h : HeapInv s xs) {sz : ℕ} (hsafe : SplitSafe s sz) :
    ∃ ptr s' xs', heapAlloc v s sz = some (ptr, s') ∧ HeapInv s' xs' := by
  unfold heapAlloc
  split_ifs with h0
  · exact ⟨0, s, xs, rfl, h⟩
  have hpos : 0 < heapVirtualAddress := by norm_num
  rcases h.seg.findFit_eq (alignUp 32 sz 4) hpos h.nonempty h.length_lt.le with
    ⟨hfind, -⟩ | ⟨pre, x, post, rfl, hfit, hpre, hfind⟩
  · obtain ⟨b, s', hexp, hcase⟩ :=
      h.expand hv (pages_lt (u32 (alignUp 32 sz 4 + headerSize)))
    simp only [h.start, hfind, hexp, Option.bind_eq_bind, Option.bind_some, ne_eq,
      not_true_eq_false, if_false]
    generalize alignUp 32 (u32 (alignUp 32 sz 4 + headerSize)) pageSize / pageSize = k at hcase
    rcases hcase with ⟨rfl, hs'⟩ | ⟨rfl, -, hs'⟩
    · exact ⟨0, s', xs, by simp, hs'⟩
    · have hne : s.heapEnd ≠ 0 := by
        have := le_segEnd heapVirtualAddress xs
        rw [h.tiles] at this
        omega
      refine ⟨_, _, xs ++ [⟨k * pageSize - 16, 1⟩], by rw [if_neg hne], ?_⟩
      have hset := hs'.seg.setUsed 1
      rw [h.tiles] at hset
      exact
        { start := hs'.start
          nonempty := by simp
          seg := hset
          tiles := by
            rw [← hs'.tiles]
            simp only [segEnd_append, segEnd_cons]
          bounded := hs'.bounded }
  · have hb : segEnd heapVirtualAddress pre ≠ 0 := by
      have := le_segEnd heapVirtualAddress pre
      omega
    simp only [h.start, hfind, Option.bind_eq_bind, Option.bind_some, ne_eq, hb,
      not_false_eq_true, if_true]
    have hroom := hsafe _ h.chain _ (h.find_addrs rfl hfit hpre)
    rw [show size s.mem _ = _ from congrArg HeapBlock.size h.seg.block_mid] at hroom
    have hsplit := h.seg.heapSplitBlock hpos h.end_lt hfit hroom
    obtain ⟨y, ys, hy, hys⟩ : ∃ y ys, splitExtent (alignUp 32 sz 4) x = y :: ys ∧
        segEnd (segEnd heapVirtualAddress pre) (y :: ys)
          = segEnd (segEnd heapVirtualAddress pre) [x] := by
      unfold splitExtent
      split_ifs
      · refine ⟨_, _, rfl, ?_⟩
        simp only [segEnd_cons, segEnd_nil]
        omega
      · exact ⟨_, _, rfl, rfl⟩
    rw [hy, List.cons_append] at hsplit
    refine ⟨_, _, pre ++ ⟨y.size, 1⟩ :: (ys ++ post), rfl, ?_⟩
    exact
      { start := rfl
        nonempty := by simp
        seg := hsplit.setUsed 1
        tiles := by
          rw [← h.tiles]
          simp only [segEnd_append, segEnd_cons] at hys ⊢
          rw [hys]
          rfl
        bounded := h.bounded }

/-- `heap_free` looks for the block whose payload starts at the pointer; where there is
none, nothing happens. -/
lemma HeapInv.free_cases (h : HeapInv s xs) {ptr : ℕ} (h0 : ptr ≠ 0) :
    (heapFree s ptr = some s ∧ ∀ pre x post, xs = pre ++ x :: post →
        segEnd heapVirtualAddress pre + 16 ≠ ptr) ∨
      ∃ pre x post, xs = pre ++ x :: post ∧ segEnd heapVirtualAddress pre + 16 = ptr ∧
        heapFree s ptr = some { s with
          mem := heapMergeFreeBlocks (setUsed s.mem (segEnd heapVirtualAddress pre) 0)
            (segEnd heapVirtualAddress pre) } := by
  have hpos : 0 < heapVirtualAddress := by norm_num
  rw [heapFree, if_neg h0]
  rcases h.seg.findPayload_eq ptr hpos h.end_lt h.length_lt h.nonempty with
    ⟨hfind, hnone⟩ | ⟨pre, x, post, heq, hptr, hfind⟩
  · rw [← h.start] at hfind
    exact Or.inl ⟨by simp [hfind, heapMergeFreeBlocks], hnone⟩
  · have hb : segEnd heapVirtualAddress pre ≠ 0 := by
      have := le_segEnd heapVirtualAddress pre
      omega
    refine Or.inr ⟨pre, x, post, heq, hptr, ?_⟩
    simp only [h.start, hfind, Option.bind_eq_bind, Option.bind_some, ne_eq, hb,
      not_false_eq_true, if_true]

lemma HeapInv.free_mid {pre post : List Extent} {x : Extent} (h : HeapInv s (pre ++ x :: post)) :
    HeapInv { s with
      mem := heapMergeFreeBlocks (setUsed s.mem (segEnd heapVirtualAddress pre) 0)
        (segEnd heapVirtualAddress pre) } (freeExtents pre x post) where
  start := h.start
  nonempty := by
    unfold freeExtents absorbNext
    split <;> [simp; split_ifs <;> simp]
  seg := h.seg.free (by norm_num) h.end_lt
  tiles := by
    rw [segEnd_freeExtents]
    exact h.tiles
  bounded := h.bounded

lemma HeapInv.free (h : HeapInv s xs) (ptr : ℕ) :
    ∃ s' xs', heapFree s ptr = some s' ∧ HeapInv s' xs' := by
  by_cases h0 : ptr = 0
  · exact ⟨s, xs, by rw [heapFree, if_pos h0], h⟩
  obtain ⟨hres, -⟩ | ⟨pre, x, post, rfl, -, hres⟩ := h.free_cases h0
  · exact ⟨s, xs, hres, h⟩
  · exact ⟨_, _, hres, h.free_mid⟩

/-- Storing into the payload of a block leaves every header alone. -/
lemma HeapInv.write8 (h : HeapInv s xs) {bs : List ℕ} (hbs : Chain s.mem s.heapStart bs) {b y : ℕ}
    (hb : b ∈ bs) (hy : y ∈ payload s.mem b) (z : UInt8) :
    HeapInv { s with mem := s.mem.write8 y z } xs := by
  obtain rfl := hbs.unique h.chain
  obtain ⟨pre, x, post, rfl, rfl⟩ := mem_addrs.1 hb
  obtain ⟨h1, h2⟩ := hy
  rw [show size s.mem _ = _ from congrArg HeapBlock.size h.seg.block_mid] at h2
  simp only at h2
  obtain ⟨hpre, hx, hpost⟩ := seg_append.1 h.seg
  refine ⟨h.start, h.nonempty, seg_append.2 ⟨?_, ?_, ?_⟩, h.tiles, h.bounded⟩
  · exact hpre.congr fun w _ hw => s.mem.write8_of_ne z (by omega)
  · rw [← hx]
    exact block_congr fun w _ hw => s.mem.write8_of_ne z (by omega)
  · exact hpost.congr fun w hw _ => s.mem.write8_of_ne z (by omega)

end

/-! ### Runs -/

section

variable {σ : Type} (v : PageRuns σ)

/-- What happens to the heap in a run: the two calls, and stores of the owners of
used blocks into their payloads. -/
inductive HeapOp
  | alloc (sz : ℕ)
  | free (ptr : ℕ)
  | store (a : ℕ) (x : UInt8)

/-- One operation on the heap. -/
def HeapStep (s : HeapState σ) : HeapOp → HeapState σ → Prop
  | .alloc sz, s' => sz < 2 ^ 32 ∧ ∃ ptr, heapAlloc v s sz = some (ptr, s')
  | .free ptr, s' => heapFree s ptr = some s'
  | .store a x, s' =>
    (∃ bs, Chain s.mem s.heapStart bs ∧
        ∃ b ∈ bs, used s.mem b ≠ 0 ∧ a ∈ payload s.mem b) ∧
      s' = { s with mem := s.mem.write8 a x }

/-- The state after a successful `heap_init`. -/
def HeapBooted (s : HeapState σ) : Prop := ∃ s₀, s = heapInit v s₀ ∧ s.heapStart ≠ 0

/-- The condition on an operation: a `heap_alloc` is `SplitSafe`. -/
def HeapOp.Safe (s : HeapState σ) : HeapOp → Prop
  | .alloc sz => SplitSafe s sz
  | _ => True

variable {v}

lemma HeapInv.step (hv : v.Lawful) {s s' : HeapState σ} {op : HeapOp}
    (h : ∃ xs, HeapInv s xs) (hstep : restrict (HeapStep v) HeapOp.Safe s op s') :
    ∃ xs, HeapInv s' xs := by
  obtain ⟨xs, h⟩ := h
  obtain ⟨hstep, hsafe⟩ := hstep
  cases op with
  | alloc sz =>
    obtain ⟨-, ptr, hres⟩ := hstep
    obtain ⟨ptr', s'', xs', hres', hinv⟩ := h.alloc hv hsafe
    obtain ⟨-, rfl⟩ := Prod.mk.inj (Option.some.inj (hres.symm.trans hres'))
    exact ⟨xs', hinv⟩
  | free ptr =>
    obtain ⟨s'', xs', hres', hinv⟩ := h.free ptr
    obtain rfl := Option.some.inj (hstep.symm.trans hres')
    exact ⟨xs', hinv⟩
  | store a x =>
    obtain ⟨⟨bs, hbs, b, hb, -, ha⟩, rfl⟩ := hstep
    exact ⟨xs, h.write8 hbs hb ha x⟩

/-- **In every run whose `heap_alloc` calls are split-safe the heap stays well
formed**, payloads stay apart, and every further call returns. -/
theorem heap_wellFormed_of_splitSafe_run (hv : v.Lawful) {s : HeapState σ}
    (h : Reachable (HeapBooted v) (restrict (HeapStep v) HeapOp.Safe) s) :
    (∃ bs, WellFormed s bs ∧ PayloadsApart s bs) ∧
      (∀ sz, SplitSafe s sz → (heapAlloc v s sz).isSome) ∧ ∀ ptr, (heapFree s ptr).isSome := by
  have hinv : ∃ xs, HeapInv s xs := by
    refine h.invariant (P := fun s => ∃ xs, HeapInv s xs) ?_ fun s e s' => HeapInv.step hv
    rintro s ⟨s₀, rfl, hstart⟩
    exact heapInit_inv hv hstart
  obtain ⟨xs, hinv⟩ := hinv
  refine ⟨⟨_, hinv.wellFormed, hinv.wellFormed.payloadsApart⟩, fun sz hsafe => ?_, fun ptr => ?_⟩
  · obtain ⟨ptr, s', xs', hres, -⟩ := hinv.alloc hv hsafe
    simp [hres]
  · obtain ⟨s', xs', hres, -⟩ := hinv.free ptr
    simp [hres]

end

/-! ### The header placed past the end -/

/-- Pages that are always granted, with whatever the memory holds. -/
def grantAll : PageRuns Unit where
  vmmAllocPagesRegion := fun n _ lo hi _ mem =>
    if lo % pageSize = 0 ∧ lo + n * pageSize ≤ hi then (some lo, (), mem) else (none, (), mem)

lemma grantAll_lawful : grantAll.Lawful where
  null := by
    intro n flags lo hi vm mem vm' mem' h
    simp only [grantAll] at h
    split_ifs at h
    · simp at h
    · exact (congrArg (fun r => r.2.2) h).symm
  run := by
    intro n flags lo hi vm mem a vm' mem' h
    simp only [grantAll] at h
    split_ifs at h with hlo
    · simp only [Prod.mk.injEq, Option.some.injEq] at h
      obtain ⟨rfl, -, rfl⟩ := h
      exact ⟨le_rfl, hlo.2, hlo.1, fun _ _ => rfl⟩
    · simp at h

/-- The heap as `heap_init` sets it up over zeroed memory. -/
def freshHeap : HeapState Unit := heapInit grantAll ⟨(), fun _ => 0, 0, 0⟩

lemma freshHeap_booted : HeapBooted grantAll freshHeap := ⟨_, rfl, by decide +kernel⟩

/-- The fresh block of 98288 bytes has exactly the size of this request. -/
lemma freshHeap_splitSafe : SplitSafe freshHeap 98288 := by
  intro bs hbs b hfind
  have hb : b ∈ bs := List.mem_of_find?_eq_some hfind
  have hchain : Chain freshHeap.mem freshHeap.heapStart [0xE0000000] := by
    refine ⟨by decide +kernel, by decide +kernel, ?_⟩
    show next freshHeap.mem freshHeap.heapStart = 0
    decide +kernel
  obtain rfl := hbs.unique hchain
  obtain rfl := List.mem_singleton.1 hb
  decide +kernel

theorem heap_wellFormed_of_splitSafe_run_fresh :
    ∃ ptr s, heapAlloc grantAll freshHeap 98288 = some (ptr, s) ∧
      ∃ bs, WellFormed s bs ∧ PayloadsApart s bs := by
  obtain ⟨⟨ptr, s⟩, hr⟩ : ∃ r, heapAlloc grantAll freshHeap 98288 = some r :=
    Option.isSome_iff_exists.1 (by decide +kernel)
  exact ⟨ptr, s, hr, (heap_wellFormed_of_splitSafe_run grantAll_lawful
    (.next (.alloc 98288) (.start freshHeap_booted)
      ⟨⟨by norm_num, ptr, hr⟩, freshHeap_splitSafe⟩)).1⟩

/-- A request of 98284 bytes leaves 4 bytes of the fresh block, too few for a
header: the split computes a size of `2 ^ 32 - 12` for a block that starts 4
bytes before the end of the heap. -/
theorem heap_split_past_end :
    ∃ ptr s, heapAlloc grantAll freshHeap 98284 = some (ptr, s) ∧
      Reachable (HeapBooted grantAll) (HeapStep grantAll) s ∧ ¬ ∃ bs, WellFormed s bs := by
  obtain ⟨⟨ptr, s⟩, hr⟩ : ∃ r, heapAlloc grantAll freshHeap 98284 = some r :=
    Option.isSome_iff_exists.1 (by decide +kernel)
  refine ⟨ptr, s, hr, .next (.alloc 98284) (.start freshHeap_booted) ⟨by norm_num, ptr, hr⟩, ?_⟩
  obtain rfl : s = ((heapAlloc grantAll freshHeap 98284).get (by decide +kernel)).2 := by simp [hr]
  rintro ⟨bs, hwf⟩
  have hstart : 0xE0000000 ∈ bs := by
    have hc := hwf.chain
    cases bs with
    | nil => exact absurd (hwf.start.1.symm.trans hc) (by norm_num)
    | cons b bs =>
      obtain ⟨-, rfl, -⟩ := hc
      rw [hwf.start.1]
      exact List.mem_cons_self
  have hnext := (hwf.next_prev _ hstart (by decide +kernel)).1
  have hcover := (hwf.covers 0xE0018000).2 ⟨_, hnext, by decide +kernel, by decide +kernel⟩
  exact absurd hcover.2 (by decide +kernel)

end Gummy
