import Gummy.Heap

/-!
List segments of the heap.

`Seg m p a xs n` says that memory `m` holds, from address `a` on and without a
gap, blocks of the sizes and used flags listed in `xs`, doubly linked in this
order, where the first block's `prev` is `p` and the last block's `next` is `n`.
Addresses are not part of the list: tiling determines them, and `segEnd` and
`segLast` compute them.

Every operation on the list replaces a few neighbouring blocks by others that
cover the same bytes, which is what `Seg.replace` proves once.
-/

namespace Gummy.Heap

open CWord

/-- A header, read from memory. -/
structure HeapBlock where
  size : ℕ
  used : UInt8
  prev : ℕ
  next : ℕ

/-- `*b`. -/
def block (m : ByteMem) (b : ℕ) : HeapBlock := ⟨size m b, used m b, prev m b, next m b⟩

/-- The part of a block that the list order does not determine. -/
structure Extent where
  size : ℕ
  used : UInt8

/-! ### Writes to header fields -/

section Setters

variable (m : ByteMem) {b c v x : ℕ}

lemma block_congr {m m' : ByteMem} {b : ℕ} (h : ∀ x, b ≤ x → x < b + 16 → m' x = m x) :
    block m' b = block m b := by
  have hs : size m' b = size m b :=
    ByteMem.read32_congr fun x h1 h2 => h x (by omega) (by omega)
  have hu : used m' b = used m b := h _ (by omega) (by omega)
  have hp : prev m' b = prev m b :=
    ByteMem.read32_congr fun x h1 h2 => h x (by omega) (by omega)
  have hn : next m' b = next m b :=
    ByteMem.read32_congr fun x h1 h2 => h x (by omega) (by omega)
  simp only [block, hs, hu, hp, hn]

lemma setSize_off (h : x < b ∨ b + 16 ≤ x) : setSize m b v x = m x :=
  ByteMem.write32_of_disjoint m v (by omega)

lemma setUsed_off {v : UInt8} (h : x < b ∨ b + 16 ≤ x) : setUsed m b v x = m x :=
  ByteMem.write8_of_ne m v (by omega)

lemma setPrev_off (h : x < b ∨ b + 16 ≤ x) : setPrev m b v x = m x :=
  ByteMem.write32_of_disjoint m v (by omega)

lemma setNext_off (h : x < b ∨ b + 16 ≤ x) : setNext m b v x = m x :=
  ByteMem.write32_of_disjoint m v (by omega)

lemma block_setSize (hv : v < 2 ^ 32) :
    block (setSize m b v) b = { block m b with size := v } := by
  have hs : size (setSize m b v) b = v := ByteMem.read32_write32_same m hv
  have hu : used (setSize m b v) b = used m b := ByteMem.write32_of_disjoint m v (by omega)
  have hp : prev (setSize m b v) b = prev m b :=
    ByteMem.read32_write32_of_disjoint m v (by omega)
  have hn : next (setSize m b v) b = next m b :=
    ByteMem.read32_write32_of_disjoint m v (by omega)
  simp only [block, hs, hu, hp, hn]

lemma block_setUsed (v : UInt8) : block (setUsed m b v) b = { block m b with used := v } := by
  have hs : size (setUsed m b v) b = size m b :=
    ByteMem.read32_write8_of_disjoint m v (by omega)
  have hu : used (setUsed m b v) b = v := ByteMem.write8_same m (b + 4) v
  have hp : prev (setUsed m b v) b = prev m b :=
    ByteMem.read32_write8_of_disjoint m v (by omega)
  have hn : next (setUsed m b v) b = next m b :=
    ByteMem.read32_write8_of_disjoint m v (by omega)
  simp only [block, hs, hu, hp, hn]

lemma block_setPrev (hv : v < 2 ^ 32) :
    block (setPrev m b v) b = { block m b with prev := v } := by
  have hs : size (setPrev m b v) b = size m b :=
    ByteMem.read32_write32_of_disjoint m v (by omega)
  have hu : used (setPrev m b v) b = used m b := ByteMem.write32_of_disjoint m v (by omega)
  have hp : prev (setPrev m b v) b = v := ByteMem.read32_write32_same m hv
  have hn : next (setPrev m b v) b = next m b :=
    ByteMem.read32_write32_of_disjoint m v (by omega)
  simp only [block, hs, hu, hp, hn]

lemma block_setNext (hv : v < 2 ^ 32) :
    block (setNext m b v) b = { block m b with next := v } := by
  have hs : size (setNext m b v) b = size m b :=
    ByteMem.read32_write32_of_disjoint m v (by omega)
  have hu : used (setNext m b v) b = used m b := ByteMem.write32_of_disjoint m v (by omega)
  have hp : prev (setNext m b v) b = prev m b :=
    ByteMem.read32_write32_of_disjoint m v (by omega)
  have hn : next (setNext m b v) b = v := ByteMem.read32_write32_same m hv
  simp only [block, hs, hu, hp, hn]

lemma block_setSize_off (h : c + 16 ≤ b ∨ b + 16 ≤ c) : block (setSize m b v) c = block m c :=
  block_congr fun _ _ _ => setSize_off m (by omega)

lemma block_setUsed_off {v : UInt8} (h : c + 16 ≤ b ∨ b + 16 ≤ c) :
    block (setUsed m b v) c = block m c :=
  block_congr fun _ _ _ => setUsed_off m (by omega)

lemma block_setPrev_off (h : c + 16 ≤ b ∨ b + 16 ≤ c) : block (setPrev m b v) c = block m c :=
  block_congr fun _ _ _ => setPrev_off m (by omega)

lemma block_setNext_off (h : c + 16 ≤ b ∨ b + 16 ≤ c) : block (setNext m b v) c = block m c :=
  block_congr fun _ _ _ => setNext_off m (by omega)

lemma initBlock_off {sz p n : ℕ} (h : x < b ∨ b + 16 ≤ x) : initBlock m b sz p n x = m x := by
  rw [initBlock, setNext_off _ h, setPrev_off _ h, setUsed_off _ h, setSize_off _ h]

lemma block_initBlock {sz p n : ℕ} (hsz : sz < 2 ^ 32) (hp : p < 2 ^ 32) (hn : n < 2 ^ 32) :
    block (initBlock m b sz p n) b = ⟨sz, 0, p, n⟩ := by
  rw [initBlock, block_setNext _ hn, block_setPrev _ hp, block_setUsed, block_setSize _ hsz]

end Setters

/-! ### Segments -/

/-- `n` after an empty list, `a` before a nonempty one. -/
def nextOr : List Extent → ℕ → ℕ → ℕ
  | [], n, _ => n
  | _ :: _, _, a => a

/-- The address after the blocks `xs` laid out from `a`. -/
def segEnd : ℕ → List Extent → ℕ
  | a, [] => a
  | a, x :: xs => segEnd (a + 16 + x.size) xs

/-- The address of the last of the blocks `xs` laid out from `a`, `p` for none. -/
def segLast : ℕ → ℕ → List Extent → ℕ
  | p, _, [] => p
  | _, a, x :: xs => segLast a (a + 16 + x.size) xs

/-- Memory `m` holds the linked blocks `xs` from `a` on. -/
def Seg (m : ByteMem) : ℕ → ℕ → List Extent → ℕ → Prop
  | _, _, [], _ => True
  | p, a, x :: xs, n =>
    block m a = ⟨x.size, x.used, p, nextOr xs n (a + 16 + x.size)⟩ ∧
      Seg m a (a + 16 + x.size) xs n

@[simp] lemma segEnd_nil (a : ℕ) : segEnd a [] = a := rfl

@[simp] lemma segEnd_cons (a : ℕ) (x : Extent) (xs : List Extent) :
    segEnd a (x :: xs) = segEnd (a + 16 + x.size) xs := rfl

@[simp] lemma segLast_nil (p a : ℕ) : segLast p a [] = p := rfl

@[simp] lemma segLast_cons (p a : ℕ) (x : Extent) (xs : List Extent) :
    segLast p a (x :: xs) = segLast a (a + 16 + x.size) xs := rfl

@[simp] lemma nextOr_nil (n a : ℕ) : nextOr [] n a = n := rfl

@[simp] lemma nextOr_cons (x : Extent) (xs : List Extent) (n a : ℕ) :
    nextOr (x :: xs) n a = a := rfl

lemma segEnd_append (a : ℕ) (xs ys : List Extent) :
    segEnd a (xs ++ ys) = segEnd (segEnd a xs) ys := by
  induction xs generalizing a with
  | nil => rfl
  | cons x xs ih => exact ih _

lemma segLast_append_cons (p a : ℕ) (xs : List Extent) (y : Extent) (ys : List Extent) :
    segLast p a (xs ++ y :: ys)
      = segLast (segEnd a xs) (segEnd a xs + 16 + y.size) ys := by
  induction xs generalizing p a with
  | nil => rfl
  | cons x xs ih => exact ih _ _

lemma segEnd_ge (a : ℕ) (xs : List Extent) : a + 16 * xs.length ≤ segEnd a xs := by
  induction xs generalizing a with
  | nil => simp
  | cons x xs ih =>
    have h := ih (a + 16 + x.size)
    simp only [segEnd_cons, List.length_cons]
    omega

lemma le_segEnd (a : ℕ) (xs : List Extent) : a ≤ segEnd a xs :=
  le_trans (Nat.le_add_right _ _) (segEnd_ge a xs)

lemma nextOr_append (xs ys : List Extent) (n a : ℕ) :
    nextOr (xs ++ ys) n a = nextOr xs (nextOr ys n (segEnd a xs)) a := by
  cases xs <;> rfl

lemma seg_append {m : ByteMem} {p a n : ℕ} {xs ys : List Extent} :
    Seg m p a (xs ++ ys) n ↔
      Seg m p a xs (nextOr ys n (segEnd a xs)) ∧ Seg m (segLast p a xs) (segEnd a xs) ys n := by
  induction xs generalizing p a with
  | nil => simp [Seg]
  | cons x xs ih =>
    simp only [List.cons_append, Seg, ih, nextOr_append, segEnd_cons, segLast_cons, and_assoc]

/-- A segment depends on the bytes it covers only. -/
lemma Seg.congr {m m' : ByteMem} {p a n : ℕ} {xs : List Extent} (h : Seg m p a xs n)
    (heq : ∀ x, a ≤ x → x < segEnd a xs → m' x = m x) : Seg m' p a xs n := by
  induction xs generalizing p a with
  | nil => trivial
  | cons x xs ih =>
    have hle := le_segEnd (a + 16 + x.size) xs
    refine ⟨?_, ih h.2 fun y h1 h2 => heq y (by omega) h2⟩
    rw [← h.1]
    exact block_congr fun y h1 h2 => heq y h1 (by rw [segEnd_cons]; omega)

/-- The block in the middle of a segment. -/
lemma Seg.block_mid {m : ByteMem} {p a n : ℕ} {pre post : List Extent} {x : Extent}
    (h : Seg m p a (pre ++ x :: post) n) :
    block m (segEnd a pre) = ⟨x.size, x.used, segLast p a pre,
      nextOr post n (segEnd a pre + 16 + x.size)⟩ :=
  (seg_append.1 h).2.1

/-- Relinking the first block of a segment to another predecessor. -/
lemma Seg.relink {m m' : ByteMem} {p q a n : ℕ} {xs : List Extent} (h : Seg m p a xs n)
    (hfirst : xs ≠ [] → block m' a = { block m a with prev := q })
    (hrest : ∀ x, a + 16 ≤ x → x < segEnd a xs → m' x = m x) : Seg m' q a xs n := by
  cases xs with
  | nil => trivial
  | cons x xs =>
    refine ⟨?_, h.2.congr fun y h1 h2 => hrest y (by omega) h2⟩
    rw [hfirst (by simp), h.1]

/-- Replacing the blocks `mid` by blocks `mid'` that cover the same bytes. -/
theorem Seg.replace {m m' : ByteMem} {p a n : ℕ} {pre post : List Extent}
    (mid mid' : List Extent) (h : Seg m p a (pre ++ (mid ++ post)) n) (hmid : mid ≠ [])
        (hmid' : mid' ≠ [])
    (hend : segEnd (segEnd a pre) mid' = segEnd (segEnd a pre) mid)
    (hpre : ∀ x, a ≤ x → x < segEnd a pre → m' x = m x)
    (hnew : Seg m' (segLast p a pre) (segEnd a pre) mid'
      (nextOr post n (segEnd (segEnd a pre) mid)))
    (hfirst : post ≠ [] → block m' (segEnd (segEnd a pre) mid)
      = { block m (segEnd (segEnd a pre) mid) with
          prev := segLast (segLast p a pre) (segEnd a pre) mid' })
    (hrest : ∀ x, segEnd (segEnd a pre) mid + 16 ≤ x →
      x < segEnd (segEnd (segEnd a pre) mid) post → m' x = m x) :
    Seg m' p a (pre ++ (mid' ++ post)) n := by
  have hnext : nextOr (mid ++ post) n (segEnd a pre) = nextOr (mid' ++ post) n (segEnd a pre) := by
    cases mid with
    | nil => exact absurd rfl hmid
    | cons y ys =>
      cases mid' with
      | nil => exact absurd rfl hmid'
      | cons z zs => rfl
  obtain ⟨h1, h2⟩ := seg_append.1 h
  obtain ⟨-, h3⟩ := seg_append.1 h2
  refine seg_append.2 ⟨?_, seg_append.2 ⟨?_, ?_⟩⟩
  · rw [← hnext]
    exact h1.congr hpre
  · rw [hend]
    exact hnew
  · rw [hend]
    exact h3.relink hfirst hrest

end Gummy.Heap
