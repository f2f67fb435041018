import Gummy.Heap.Segment
import Mathlib.Data.List.Basic

/-!
What the operations of `heap.c` do to a well-linked list of blocks.

Each lemma describes one function on memory by the list it leaves behind.  The
blocks lie below the page-table window, so no address computation wraps; the
only arithmetic that may wrap is the size of a split-off block, and
`Seg.heapSplitBlock` states when it does not.
-/

namespace Gummy.Heap

open CWord

variable {m : ByteMem} {p a n : ℕ} {pre post xs : List Extent} {x : Extent}

/-! ### Walks over the list -/

lemma Seg.next_eq {xs : List Extent} (h : Seg m p a (x :: xs) n) :
    next m a = nextOr xs n (a + 16 + x.size) := congrArg HeapBlock.next h.1

lemma Seg.lastBlock_eq (h : Seg m p a xs 0) (hne : xs ≠ []) {fuel : ℕ}
    (hfuel : xs.length ≤ fuel) : lastBlock m fuel a = some (segLast p a xs) := by
  induction xs generalizing p a fuel with
  | nil => exact absurd rfl hne
  | cons x xs ih =>
    obtain _ | fuel := fuel
    · simp at hfuel
    have hnext := h.next_eq
    cases xs with
    | nil => simp [lastBlock, hnext]
    | cons y ys =>
      rw [lastBlock, hnext, nextOr_cons, if_neg (by omega)]
      exact ih h.2 (by simp) (by simpa using hfuel)

/-- A free block that can hold `sz` bytes. -/
def Fits (sz : ℕ) (x : Extent) : Prop := x.used = 0 ∧ sz ≤ x.size

instance (sz : ℕ) (x : Extent) : Decidable (Fits sz x) := inferInstanceAs (Decidable (_ ∧ _))

/-- `heap_alloc` finds the first block that fits. -/
lemma Seg.findFit_eq (sz : ℕ) (h : Seg m p a xs 0) (ha : 0 < a) (hne : xs ≠ []) {fuel : ℕ}
    (hfuel : xs.length ≤ fuel) :
    (findFit m sz fuel a = some 0 ∧ ∀ x ∈ xs, ¬ Fits sz x) ∨
      ∃ pre x post, xs = pre ++ x :: post ∧ Fits sz x ∧ (∀ y ∈ pre, ¬ Fits sz y) ∧
        findFit m sz fuel a = some (segEnd a pre) := by
  induction xs generalizing p a fuel with
  | nil => exact absurd rfl hne
  | cons x xs ih =>
    obtain _ | fuel := fuel
    · simp at hfuel
    have hnext := h.next_eq
    have hused : used m a = x.used := congrArg HeapBlock.used h.1
    have hsize : size m a = x.size := congrArg HeapBlock.size h.1
    rw [findFit, if_neg (by omega), hused, hsize, hnext]
    by_cases hfit : Fits sz x
    · exact Or.inr ⟨[], x, xs, rfl, hfit, by simp, by
        rw [if_pos (show x.used = 0 ∧ sz ≤ x.size from hfit)]; rfl⟩
    rw [if_neg (show ¬ (x.used = 0 ∧ sz ≤ x.size) from hfit)]
    cases xs with
    | nil => exact Or.inl ⟨by simp, by simpa using hfit⟩
    | cons y ys =>
      rw [nextOr_cons, if_neg (by omega)]
      rcases ih h.2 (by omega) (by simp) (by simpa using hfuel) with
        ⟨h1, h2⟩ | ⟨pre, z, post, heq, hz, hpre, hfind⟩
      · exact Or.inl ⟨h1, List.forall_mem_cons.2 ⟨hfit, h2⟩⟩
      · exact Or.inr ⟨x :: pre, z, post, by rw [heq]; rfl, hz,
          List.forall_mem_cons.2 ⟨hfit, hpre⟩, hfind⟩

/-- `heap_free` finds the block whose payload starts at `ptr`, if there is one. -/
lemma Seg.findPayload_eq (ptr : ℕ) (h : Seg m p a xs 0) (ha : 0 < a)
    (hend : segEnd a xs < 2 ^ 32) {fuel : ℕ} (hfuel : xs.length < fuel) (hne : xs ≠ []) :
    (findPayload m ptr fuel a = some 0 ∧
        ∀ pre x post, xs = pre ++ x :: post → segEnd a pre + 16 ≠ ptr) ∨
      ∃ pre x post, xs = pre ++ x :: post ∧ segEnd a pre + 16 = ptr ∧
        findPayload m ptr fuel a = some (segEnd a pre) := by
  induction xs generalizing p a fuel with
  | nil => exact absurd rfl hne
  | cons x xs ih =>
    obtain _ | fuel := fuel
    · simp at hfuel
    have hnext := h.next_eq
    have hle := le_segEnd (a + 16 + x.size) xs
    rw [segEnd_cons] at hend
    have hu : u32 (a + 16) = a + 16 := u32_of_lt (by omega)
    rw [findPayload, if_neg (by omega), hu, hnext]
    by_cases hp : a + 16 = ptr
    · exact Or.inr ⟨[], x, xs, rfl, hp, by rw [if_pos hp]; rfl⟩
    rw [if_neg hp]
    have hhead : ∀ pre z post, x :: xs = pre ++ z :: post →
        (∀ pre z post, xs = pre ++ z :: post → segEnd (a + 16 + x.size) pre + 16 ≠ ptr) →
          segEnd a pre + 16 ≠ ptr := by
      rintro (_ | ⟨w, pre⟩) z post heq htail
      · exact hp
      · obtain ⟨rfl, htl⟩ := List.cons.inj heq
        exact htail pre z post htl
    cases xs with
    | nil =>
      obtain _ | fuel := fuel
      · simp at hfuel
      exact Or.inl ⟨by simp [findPayload], fun pre z post heq => hhead pre z post heq (by simp)⟩
    | cons y ys =>
      rw [nextOr_cons]
      rcases ih h.2 (by omega) hend (by simpa using hfuel) (by simp) with
        ⟨h1, h2⟩ | ⟨pre, z, post, heq, hz, hfind⟩
      · exact Or.inl ⟨h1, fun pre z post heq => hhead pre z post heq h2⟩
      · exact Or.inr ⟨x :: pre, z, post, by rw [heq]; rfl, hz, hfind⟩

/-! ### Marking a block -/

lemma Seg.setUsed (h : Seg m p a (pre ++ x :: post) n) (u : UInt8) :
    Seg (setUsed m (segEnd a pre) u) p a (pre ++ ⟨x.size, u⟩ :: post) n := by
  have hb := h.block_mid
  refine Seg.replace [x] [⟨x.size, u⟩] h (by simp) (by simp) rfl
    (fun y _ hy => setUsed_off m (by omega)) ⟨?_, trivial⟩ (fun hne => ?_)
    (fun y hy _ => setUsed_off m (by simp at hy; omega))
  · rw [block_setUsed, hb]
    rfl
  · obtain ⟨y, ys, rfl⟩ := List.exists_cons_of_ne_nil hne
    have hy := Seg.block_mid
      (show Seg m p a ((pre ++ [x]) ++ y :: ys) n by simpa using h)
    have hlast : segLast p a (pre ++ [x]) = segEnd a pre := segLast_append_cons p a pre x []
    rw [segEnd_append, hlast] at hy
    rw [block_setUsed_off _ (by simp), hy]
    rfl

/-! ### Splitting -/

/-- What a split for `sz` bytes leaves of a free block. -/
def splitExtent (sz : ℕ) (x : Extent) : List Extent :=
  if sz + 48 ≤ x.size then [⟨sz, x.used⟩, ⟨x.size - sz - 16, 0⟩] else [x]

/-- As long as the block has either exactly the wanted size or room for another
header, the split keeps the list well linked. -/
lemma Seg.heapSplitBlock {sz : ℕ} (h : Seg m p a (pre ++ x :: post) 0) (ha : 0 < a)
    (hend : segEnd a (pre ++ x :: post) < 2 ^ 32) (hfit : Fits sz x)
    (hroom : x.size = sz ∨ sz + 16 ≤ x.size) :
    Seg (heapSplitBlock m (segEnd a pre) sz) p a (pre ++ (splitExtent sz x ++ post)) 0 := by
  obtain ⟨hused, hsz⟩ := hfit
  have hb := h.block_mid
  set b := segEnd a pre with hbdef
  have hab : a ≤ b := le_segEnd a pre
  have hle := le_segEnd (b + 16 + x.size) post
  rw [segEnd_append, segEnd_cons, ← hbdef] at hend
  have hsize : size m b = x.size := congrArg HeapBlock.size hb
  have hu : used m b = 0 := (congrArg HeapBlock.used hb).trans hused
  unfold splitExtent
  rcases hroom with heq | hroom
  · rw [if_neg (by omega), Gummy.heapSplitBlock, if_pos (by rw [hsize]; right; right; omega)]
    exact h
  have hnew : sub32 (sub32 (size m b) sz) 16 = x.size - sz - 16 := by
    rw [hsize, sub32_of_le (by omega) hsz, sub32_of_le (by omega) (by omega)]
  by_cases hbig : sz + 48 ≤ x.size
  swap
  · have hsmall : x.size - sz - 16 < 32 := by omega
    rw [if_neg hbig, Gummy.heapSplitBlock]
    simp only [hnew, if_pos hsmall, ite_self]
    exact h
  rw [if_pos hbig, Gummy.heapSplitBlock, if_neg (by rw [hsize, hu]; simp; omega)]
  simp only [hnew]
  rw [if_neg (show ¬ x.size - sz - 16 < 32 by omega),
    u32_of_lt (show b + sz + 16 < 2 ^ 32 by omega)]
  set nb := b + sz + 16 with hnb
  -- the header of the split-off block
  set m₃ := setPrev (Heap.setUsed (setSize m nb (x.size - sz - 16)) nb 0) nb b with hm₃
  have hoff₃ : ∀ y, y < nb ∨ nb + 16 ≤ y → m₃ y = m y := fun y hy => by
    rw [hm₃, setPrev_off _ hy, setUsed_off _ hy, setSize_off _ hy]
  have hb₃ : block m₃ b = block m b := block_congr fun y h1 h2 => hoff₃ y (by omega)
  have hnext₃ : next m₃ b = nextOr post 0 (b + 16 + x.size) :=
    congrArg HeapBlock.next (hb₃.trans hb)
  set m₄ := setNext m₃ nb (next m₃ b) with hm₄
  have hoff₄ : ∀ y, y < nb ∨ nb + 16 ≤ y → m₄ y = m y := fun y hy => by
    rw [hm₄, setNext_off _ hy, hoff₃ y hy]
  have hnext_lt : nextOr post 0 (b + 16 + x.size) < 2 ^ 32 := by
    cases post
    · simp
    · rw [nextOr_cons]; omega
  have hnb₄ : block m₄ nb = ⟨x.size - sz - 16, 0, b, nextOr post 0 (b + 16 + x.size)⟩ := by
    rw [hm₄, hnext₃, block_setNext _ hnext_lt, hm₃, block_setPrev _ (by omega), block_setUsed,
      block_setSize _ (by omega)]
  have hb₄ : block m₄ b = block m b := block_congr fun y h1 h2 => hoff₄ y (by omega)
  have hnext₄ : next m₄ b = nextOr post 0 (b + 16 + x.size) :=
    congrArg HeapBlock.next (hb₄.trans hb)
  -- the link back from the successor
  set m₅ := if next m₄ b ≠ 0 then setPrev m₄ (next m₄ b) nb else m₄ with hm₅
  have hoff₅ : ∀ y, y < b + 16 + x.size ∨ b + 32 + x.size ≤ y → m₅ y = m₄ y := fun y hy => by
    rw [hm₅]
    split_ifs with hn
    · cases post with
      | nil => exact absurd hnext₄ hn
      | cons z zs => rw [hnext₄, nextOr_cons, setPrev_off _ (by omega)]
    · rfl
  have hb₅ : block m₅ b = block m b :=
    (block_congr fun y h1 h2 => hoff₅ y (by omega)).trans hb₄
  set m₆ := setNext (setSize m₅ b sz) b nb with hm₆
  have hoff₆ : ∀ y, y < b ∨ b + 16 ≤ y → m₆ y = m₅ y := fun y hy => by
    rw [hm₆, setNext_off _ hy, setSize_off _ hy]
  refine Seg.replace [x] [⟨sz, x.used⟩, ⟨x.size - sz - 16, 0⟩] h (by simp)
    (by simp) ?_ ?_ ⟨?_, ?_, trivial⟩ ?_ ?_
  · simp only [segEnd_cons, segEnd_nil]
    omega
  · intro y _ hy
    rw [hoff₆ y (by omega), hoff₅ y (by omega), hoff₄ y (by omega)]
  · rw [← hbdef, hm₆, block_setNext _ (by omega), block_setSize _ (by omega), hb₅, hb]
    simp only [nextOr_cons, HeapBlock.mk.injEq, true_and]
    omega
  · have hat : b + 16 + sz = nb := by omega
    have hblock : block m₆ nb = block m₄ nb :=
      block_congr fun y h1 h2 => by rw [hoff₆ y (by omega), hoff₅ y (by omega)]
    simp only [← hbdef, hat, nextOr_nil, segEnd_cons, segEnd_nil, hblock, hnb₄]
  · intro hne
    obtain ⟨z, zs, rfl⟩ := List.exists_cons_of_ne_nil hne
    simp only [segEnd_cons, segEnd_nil, segLast_cons, segLast_nil, ← hbdef]
    have hm₅' : m₅ = setPrev m₄ (b + 16 + x.size) nb := by
      rw [hm₅, hnext₄, nextOr_cons, if_pos (by omega)]
    have hblock : block m₆ (b + 16 + x.size) = block m₅ (b + 16 + x.size) :=
      block_congr fun y h1 h2 => hoff₆ y (by omega)
    rw [hblock, hm₅', block_setPrev _ (by omega),
      block_congr (m := m) fun y h1 h2 => hoff₄ y (by omega)]
    simp only [HeapBlock.mk.injEq, true_and, and_true]
    omega
  · intro y hy _
    simp only [segEnd_cons, segEnd_nil, ← hbdef] at hy
    rw [hoff₆ y (by omega), hoff₅ y (by omega), hoff₄ y (by omega)]

/-! ### Appending -/

/-- Linking a new block behind the last one. -/
lemma Seg.append_block (sz : ℕ) (h : Seg m p a xs 0) (hne : xs ≠ [])
    (hend : segEnd a xs + 16 + sz < 2 ^ 32) :
    Seg (setNext (initBlock m (segEnd a xs) sz (segLast p a xs) 0) (segLast p a xs)
      (segEnd a xs)) p a (xs ++ [⟨sz, 0⟩]) 0 := by
  obtain ⟨ys, y, rfl⟩ : ∃ ys y, xs = ys ++ [y] :=
    ⟨xs.dropLast, xs.getLast hne, (List.dropLast_concat_getLast hne).symm⟩
  have hlast : segLast p a (ys ++ [y]) = segEnd a ys := segLast_append_cons p a ys y []
  have he : segEnd a (ys ++ [y]) = segEnd a ys + 16 + y.size := segEnd_append a ys [y]
  have hb := h.block_mid
  rw [he] at hend
  rw [hlast, he]
  set b := segEnd a ys with hbdef
  have hnew : block (initBlock m (b + 16 + y.size) sz b 0) (b + 16 + y.size) = ⟨sz, 0, b, 0⟩ :=
    block_initBlock m (by omega) (by omega) (by norm_num)
  rw [List.append_assoc]
  set m₁ := initBlock m (b + 16 + y.size) sz b 0 with hm₁
  have hoff₁ : ∀ z, z < b + 16 + y.size → m₁ z = m z := fun z hz => initBlock_off m (Or.inl hz)
  have hb₁ : block m₁ b = block m b := block_congr fun z _ hz => hoff₁ z (by omega)
  obtain ⟨hpre, -⟩ := seg_append.1 h
  refine seg_append.2 ⟨?_, ?_, ?_, trivial⟩
  · exact hpre.congr fun z _ hz => by rw [setNext_off _ (by omega), hoff₁ z (by omega)]
  · rw [block_setNext _ (by omega), hb₁, hb]
    rfl
  · rw [block_setNext_off _ (by omega), hnew]
    rfl

/-! ### Merging -/

/-- What `heap_merge_free_blocks` makes of a block and its successors. -/
def absorbNext (x : Extent) : List Extent → List Extent
  | [] => [x]
  | y :: ys => if y.used = 0 then ⟨x.size + (y.size + 16), x.used⟩ :: ys else x :: y :: ys

/-- What `heap_merge_free_blocks` makes of a block and its predecessors. -/
def absorbPrev (pre : List Extent) (x : Extent) : List Extent × Extent :=
  match pre.getLast? with
  | some y =>
    if y.used = 0 then (pre.dropLast, ⟨y.size + (x.size + 16), y.used⟩) else (pre, x)
  | none => (pre, x)

lemma segEnd_absorbNext (a : ℕ) (x : Extent) (post : List Extent) :
    segEnd a (absorbNext x post) = segEnd a (x :: post) := by
  cases post with
  | nil => rfl
  | cons y ys =>
    rw [absorbNext]
    split_ifs
    · simp only [segEnd_cons]
      congr 1
      omega
    · rfl

/-- Two neighbouring blocks become one. -/
lemma Seg.fuse {y : Extent} (h : Seg m p a (pre ++ x :: y :: post) 0) {m' : ByteMem}
    (hb : block m' (segEnd a pre) = ⟨x.size + (y.size + 16), x.used, segLast p a pre,
      nextOr post 0 (segEnd a pre + 16 + x.size + 16 + y.size)⟩)
    (hfirst : post ≠ [] → block m' (segEnd a pre + 16 + x.size + 16 + y.size)
      = { block m (segEnd a pre + 16 + x.size + 16 + y.size) with prev := segEnd a pre })
    (hoff : ∀ z, z < segEnd a pre ∨ segEnd a pre + 16 + x.size + 16 + y.size + 16 ≤ z →
      m' z = m z) :
    Seg m' p a (pre ++ ⟨x.size + (y.size + 16), x.used⟩ :: post) 0 := by
  have hsum : segEnd a pre + 16 + (x.size + (y.size + 16))
      = segEnd a pre + 16 + x.size + 16 + y.size := by omega
  refine Seg.replace [x, y] [⟨x.size + (y.size + 16), x.used⟩] h (by simp)
    (by simp) hsum (fun z _ hz => hoff z (Or.inl hz)) ⟨?_, trivial⟩ hfirst
    (fun z hz _ => hoff z (Or.inr hz))
  rw [hb]
  rfl

lemma Seg.mergeNext (h : Seg m p a (pre ++ x :: post) 0) (ha : 0 < a)
    (hend : segEnd a (pre ++ x :: post) < 2 ^ 32) :
    Seg (mergeNext m (segEnd a pre)) p a (pre ++ absorbNext x post) 0 := by
  have hb := h.block_mid
  have hab : a ≤ segEnd a pre := le_segEnd a pre
  have hnext : next m (segEnd a pre) = nextOr post 0 (segEnd a pre + 16 + x.size) :=
    congrArg HeapBlock.next hb
  cases post with
  | nil =>
    rw [Gummy.mergeNext, if_neg (by rw [hnext]; simp)]
    exact h
  | cons y ys =>
    have hy : block m (segEnd a pre + 16 + x.size) = ⟨y.size, y.used, segEnd a pre,
        nextOr ys 0 (segEnd a pre + 16 + x.size + 16 + y.size)⟩ := (seg_append.1 h).2.2.1
    have hle := le_segEnd (segEnd a pre + 16 + x.size + 16 + y.size) ys
    rw [nextOr_cons] at hnext hb
    have hend' := hend
    rw [segEnd_append, segEnd_cons, segEnd_cons] at hend'
    have hused : used m (segEnd a pre + 16 + x.size) = y.used := congrArg HeapBlock.used hy
    rw [Gummy.mergeNext, hnext, hused, absorbNext]
    by_cases hfree : y.used = 0
    swap
    · rw [if_neg (by simp [hfree]), if_neg hfree]
      exact h
    rw [if_pos ⟨by omega, hfree⟩, if_pos hfree]
    set b := segEnd a pre with hbdef
    have hsz : size m b = x.size := congrArg HeapBlock.size hb
    have hysz : size m (b + 16 + x.size) = y.size := congrArg HeapBlock.size hy
    simp only [hsz, hysz, u32_of_lt (show x.size + (y.size + 16) < 2 ^ 32 by omega)]
    set m₁ := setSize m b (x.size + (y.size + 16)) with hm₁
    have hb₁ : block m₁ b = ⟨x.size + (y.size + 16), x.used, segLast p a pre, b + 16 + x.size⟩ := by
      rw [hm₁, block_setSize _ (by omega), hb]
    have hy₁ : block m₁ (b + 16 + x.size) = block m (b + 16 + x.size) :=
      block_setSize_off m (by omega)
    have hnn : next m₁ (next m₁ b) = nextOr ys 0 (b + 16 + x.size + 16 + y.size) := by
      rw [show next m₁ b = b + 16 + x.size from congrArg HeapBlock.next hb₁]
      exact congrArg HeapBlock.next (hy₁.trans hy)
    rw [hnn]
    have hlt : nextOr ys 0 (b + 16 + x.size + 16 + y.size) < 2 ^ 32 := by
      cases ys
      · simp
      · rw [nextOr_cons]; omega
    set m₂ := setNext m₁ b (nextOr ys 0 (b + 16 + x.size + 16 + y.size)) with hm₂
    have hoff₂ : ∀ z, z < b ∨ b + 16 ≤ z → m₂ z = m z := fun z hz => by
      rw [hm₂, setNext_off _ hz, hm₁, setSize_off _ hz]
    have hb₂ : block m₂ b = ⟨x.size + (y.size + 16), x.used, segLast p a pre,
        nextOr ys 0 (b + 16 + x.size + 16 + y.size)⟩ := by
      rw [hm₂, block_setNext _ hlt, hb₁]
    have hnext₂ : next m₂ b = nextOr ys 0 (b + 16 + x.size + 16 + y.size) :=
      congrArg HeapBlock.next hb₂
    cases ys with
    | nil =>
      rw [if_neg (by rw [hnext₂]; simp)]
      exact h.fuse hb₂ (by simp) fun z hz => hoff₂ z (by omega)
    | cons z zs =>
      rw [nextOr_cons] at hnext₂ hb₂
      rw [hnext₂, if_pos (by omega)]
      refine h.fuse ?_ (fun _ => ?_) fun w hw => ?_
      · rw [block_setPrev_off _ (by omega), hb₂]
        rfl
      · rw [block_setPrev _ (by omega), block_congr (m := m) fun w hw _ => hoff₂ w (by omega)]
      · rw [setPrev_off _ (by omega), hoff₂ w (by omega)]

lemma Seg.mergePrev (h : Seg m 0 a (pre ++ x :: post) 0) (ha : 0 < a)
    (hend : segEnd a (pre ++ x :: post) < 2 ^ 32) :
    Seg (mergePrev m (segEnd a pre)).1 0 a
        ((absorbPrev pre x).1 ++ (absorbPrev pre x).2 :: post) 0 ∧
      (mergePrev m (segEnd a pre)).2 = segEnd a (absorbPrev pre x).1 := by
  have hx := h.block_mid
  rcases List.eq_nil_or_concat' pre with rfl | ⟨ys, y, rfl⟩
  · have hprev : prev m (segEnd a []) = 0 := congrArg HeapBlock.prev hx
    rw [Gummy.mergePrev, if_neg (by rw [hprev]; simp)]
    exact ⟨h, rfl⟩
  have habs : absorbPrev (ys ++ [y]) x
      = if y.used = 0 then (ys, ⟨y.size + (x.size + 16), y.used⟩) else (ys ++ [y], x) := by
    simp [absorbPrev]
  have he : segEnd a (ys ++ [y]) = segEnd a ys + 16 + y.size := segEnd_append a ys [y]
  have h' : Seg m 0 a (ys ++ y :: x :: post) 0 := by simpa using h
  have hy := h'.block_mid
  have hab : a ≤ segEnd a ys := le_segEnd a ys
  have hend' := hend
  rw [segEnd_append, segEnd_cons, he] at hend'
  have hle := le_segEnd (segEnd a ys + 16 + y.size + 16 + x.size) post
  rw [segLast_append_cons, segLast_nil, he] at hx
  rw [nextOr_cons] at hy
  rw [habs, he]
  set c := segEnd a ys with hcdef
  set b := c + 16 + y.size with hbdef
  have hprev : prev m b = c := congrArg HeapBlock.prev hx
  have hused : used m c = y.used := congrArg HeapBlock.used hy
  rw [Gummy.mergePrev, hprev, hused]
  by_cases hfree : y.used = 0
  swap
  · rw [if_neg (by simp [hfree]), if_neg hfree]
    exact ⟨h, he.symm⟩
  rw [if_pos ⟨by omega, hfree⟩, if_pos hfree]
  have hsz : size m c = y.size := congrArg HeapBlock.size hy
  have hxsz : size m b = x.size := congrArg HeapBlock.size hx
  simp only [hsz, hxsz, u32_of_lt (show y.size + (x.size + 16) < 2 ^ 32 by omega)]
  set m₁ := setSize m c (y.size + (x.size + 16)) with hm₁
  have hc₁ : block m₁ c = ⟨y.size + (x.size + 16), y.used, segLast 0 a ys, b⟩ := by
    rw [hm₁, block_setSize _ (by omega), hy]
  have hx₁ : block m₁ b = block m b := block_setSize_off m (by omega)
  have hprev₁ : prev m₁ b = c := congrArg HeapBlock.prev (hx₁.trans hx)
  have hnext₁ : next m₁ b = nextOr post 0 (b + 16 + x.size) :=
    congrArg HeapBlock.next (hx₁.trans hx)
  have hlt : nextOr post 0 (b + 16 + x.size) < 2 ^ 32 := by
    cases post
    · simp
    · rw [nextOr_cons]; omega
  rw [hprev₁, hnext₁]
  set m₂ := setNext m₁ c (nextOr post 0 (b + 16 + x.size)) with hm₂
  have hoff₂ : ∀ z, z < c ∨ c + 16 ≤ z → m₂ z = m z := fun z hz => by
    rw [hm₂, setNext_off _ hz, hm₁, setSize_off _ hz]
  have hc₂ : block m₂ c = ⟨y.size + (x.size + 16), y.used, segLast 0 a ys,
      nextOr post 0 (b + 16 + x.size)⟩ := by
    rw [hm₂, block_setNext _ hlt, hc₁]
  have hx₂ : block m₂ b = block m b := block_congr fun z hz _ => hoff₂ z (by omega)
  have hprev₂ : prev m₂ b = c := congrArg HeapBlock.prev (hx₂.trans hx)
  have hnext₂ : next m₂ b = nextOr post 0 (b + 16 + x.size) :=
    congrArg HeapBlock.next (hx₂.trans hx)
  rw [hprev₂, hnext₂]
  cases post with
  | nil =>
    rw [nextOr_nil, if_neg (by simp)]
    exact ⟨h'.fuse hc₂ (by simp) fun z hz => hoff₂ z (by omega), hprev₂⟩
  | cons z zs =>
    rw [nextOr_cons] at hc₂
    rw [nextOr_cons, if_pos (by omega)]
    refine ⟨h'.fuse ?_ (fun _ => ?_) fun w hw => ?_, ?_⟩
    · rw [block_setPrev_off _ (by omega), hc₂]
      rfl
    · rw [block_setPrev _ (by omega), block_congr (m := m) fun w hw _ => hoff₂ w (by omega)]
    · rw [setPrev_off _ (by omega), hoff₂ w (by omega)]
    · have hx₃ : block (setPrev m₂ (b + 16 + x.size) c) b = block m₂ b :=
        block_setPrev_off m₂ (by omega)
      exact (congrArg HeapBlock.prev hx₃).trans hprev₂

/-- What `heap_free` makes of the list when it frees the block `x`. -/
def freeExtents (pre : List Extent) (x : Extent) (post : List Extent) : List Extent :=
  (absorbPrev pre ⟨x.size, 0⟩).1 ++ absorbNext (absorbPrev pre ⟨x.size, 0⟩).2 post

lemma segEnd_absorbPrev (a : ℕ) (pre : List Extent) (x : Extent) (post : List Extent) :
    segEnd a ((absorbPrev pre x).1 ++ (absorbPrev pre x).2 :: post)
      = segEnd a (pre ++ x :: post) := by
  rcases List.eq_nil_or_concat' pre with rfl | ⟨ys, y, rfl⟩
  · rfl
  · by_cases hfree : y.used = 0
    · simp only [absorbPrev, List.getLast?_concat, if_pos hfree, List.dropLast_concat,
        segEnd_append, segEnd_cons, segEnd_nil]
      congr 1
      omega
    · simp [absorbPrev, hfree]

lemma segEnd_freeExtents (a : ℕ) (pre : List Extent) (x : Extent) (post : List Extent) :
    segEnd a (freeExtents pre x post) = segEnd a (pre ++ x :: post) := by
  rw [freeExtents, segEnd_append, segEnd_absorbNext, ← segEnd_append, segEnd_absorbPrev]
  simp only [segEnd_append, segEnd_cons]

/-- Freeing a block of the list. -/
lemma Seg.free (h : Seg m 0 a (pre ++ x :: post) 0) (ha : 0 < a)
    (hend : segEnd a (pre ++ x :: post) < 2 ^ 32) :
    Seg (heapMergeFreeBlocks (Heap.setUsed m (segEnd a pre) 0) (segEnd a pre)) 0 a
      (freeExtents pre x post) 0 := by
  have hset := h.setUsed 0
  have hab : a ≤ segEnd a pre := le_segEnd a pre
  have hend' : segEnd a (pre ++ ⟨x.size, 0⟩ :: post) < 2 ^ 32 := by
    simpa only [segEnd_append, segEnd_cons] using hend
  obtain ⟨h1, h2⟩ := hset.mergePrev ha hend'
  have husd : used (Heap.setUsed m (segEnd a pre) 0) (segEnd a pre) = 0 :=
    congrArg HeapBlock.used hset.block_mid
  rw [heapMergeFreeBlocks, if_neg (by rw [husd]; simp; omega)]
  simp only [h2]
  exact h1.mergeNext ha (by rw [segEnd_absorbPrev]; exact hend')

end Gummy.Heap
