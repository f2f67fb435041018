import Gummy.Defs
import Gummy.Lib.ByteMem

/-!
The kernel heap of `heap.c`.

A block is a 16-byte header followed by its payload, and the headers form a
doubly linked list in address order.  The headers live in the byte memory, at
the offsets that `heap_block_t` has on i386, so two headers that overlap disturb
each other here as they do in the kernel.

`vmm_alloc_pages_region` is a parameter.  It keeps a state of its own (page
tables, frames) and may change the bytes of the pages it hands out; what the
heap relies on is `PageRuns.Lawful`.

A loop over the list runs with fuel; `none` means that the loop did not end.
-/

namespace Gummy

open CWord

/-- `HEAP_VIRTUAL_ADDRESS`. -/
abbrev heapVirtualAddress : ℕ := 0xE0000000

/-- `HEAP_INITIAL_PAGES`. -/
abbrev heapInitialPages : ℕ := 24

/-- `HEAP_SPLIT_BLOCK_MIN_SIZE`. -/
abbrev heapSplitBlockMinSize : ℕ := 32

/-- The first address of the page-table window; the heap must stay below it. -/
abbrev heapLimit : ℕ := 0xFFC00000

/-- `vmm_alloc_pages_region` as the heap sees it: from the number of pages, the
flags and the bounds of the region to the address of the first page (`none` for
`NULL`), over a private state and the memory. -/
structure PageRuns (σ : Type) where
  /-- `vmm_alloc_pages_region(n, flags, region_start, region_end)`. -/
  vmmAllocPagesRegion : ℕ → ℕ → ℕ → ℕ → σ → ByteMem → Option ℕ × σ × ByteMem

/-- Either `NULL` is returned, or a run of `n` whole pages inside the region; no
byte outside the run changes. -/
structure PageRuns.Lawful {σ : Type} (v : PageRuns σ) : Prop where
  null : ∀ {n flags lo hi vm mem vm' mem'},
    v.vmmAllocPagesRegion n flags lo hi vm mem = (none, vm', mem') → mem' = mem
  run : ∀ {n flags lo hi vm mem a vm' mem'},
    v.vmmAllocPagesRegion n flags lo hi vm mem = (some a, vm', mem') →
      lo ≤ a ∧ a + n * pageSize ≤ hi ∧ a % pageSize = 0 ∧
        ∀ x, x < a ∨ a + n * pageSize ≤ x → mem' x = mem x

/-- The state of `heap.c`.  `heapEnd` is a ghost variable: the end of the last
page run obtained, up to which the heap owns the memory. -/
structure HeapState (σ : Type) where
  vm : σ
  mem : ByteMem
  heapStart : ℕ
  heapEnd : ℕ

namespace Heap

/-! ### The header `heap_block_t` -/

/-- `sizeof(heap_block_t)`. -/
abbrev headerSize : ℕ := 16

/-- `b->size`. -/
def size (m : ByteMem) (b : ℕ) : ℕ := m.read32 b

/-- `b->used`. -/
def used (m : ByteMem) (b : ℕ) : UInt8 := m (b + 4)

/-- `b->prev`. -/
def prev (m : ByteMem) (b : ℕ) : ℕ := m.read32 (b + 8)

/-- `b->next`. -/
def next (m : ByteMem) (b : ℕ) : ℕ := m.read32 (b + 12)

/-- `b->size = v`. -/
def setSize (m : ByteMem) (b v : ℕ) : ByteMem := m.write32 b v

/-- `b->used = v`. -/
def setUsed (m : ByteMem) (b : ℕ) (v : UInt8) : ByteMem := m.write8 (b + 4) v

/-- `b->prev = v`. -/
def setPrev (m : ByteMem) (b v : ℕ) : ByteMem := m.write32 (b + 8) v

/-- `b->next = v`. -/
def setNext (m : ByteMem) (b v : ℕ) : ByteMem := m.write32 (b + 12) v

/-- `*b = {sz, 0, p, n}`, field by field. -/
def initBlock (m : ByteMem) (b sz p n : ℕ) : ByteMem :=
  setNext (setPrev (setUsed (setSize m b sz) b 0) b p) b n

/-! ### The loops -/

/-- The bound on the passes of a loop over the list: no more headers fit into 32
bits of address space. -/
def loopFuel : ℕ := 2 ^ 28

/-- `while (b->next) b = b->next;` -/
def lastBlock (m : ByteMem) : ℕ → ℕ → Option ℕ
  | 0, _ => none
  | fuel + 1, b => if next m b = 0 then some b else lastBlock m fuel (next m b)

/-- The search of `heap_alloc`: the first free block of at least `sz` bytes,
`some 0` when the list ends without one. -/
def findFit (m : ByteMem) (sz : ℕ) : ℕ → ℕ → Option ℕ
  | 0, _ => none
  | fuel + 1, b =>
    if b = 0 then some 0
    else if used m b = 0 ∧ sz ≤ size m b then some b
    else if next m b = 0 then some 0
    else findFit m sz fuel (next m b)

/-- The search of `heap_free`: the block whose payload starts at `ptr`, `some 0`
when there is none. -/
def findPayload (m : ByteMem) (ptr : ℕ) : ℕ → ℕ → Option ℕ
  | 0, _ => none
  | fuel + 1, b =>
    if b = 0 then some 0
    else if u32 (b + headerSize) = ptr then some b
    else findPayload m ptr fuel (next m b)

end Heap

open Heap

section Operations

variable {σ : Type} (v : PageRuns σ)

/-- `heap_init`. -/
def heapInit (s : HeapState σ) : HeapState σ :=
  let regionStart := heapVirtualAddress
  let regionEnd := heapVirtualAddress + heapInitialPages * pageSize
  if heapLimit ≤ regionEnd then s
  else
    match v.vmmAllocPagesRegion heapInitialPages (vmmFlagsRw ||| vmmFlagsPresent) regionStart
        regionEnd s.vm s.mem with
    | (none, vm, mem) => { s with vm := vm, mem := mem, heapStart := 0 }
    | (some a, vm, mem) =>
      { vm := vm
        mem := initBlock mem a (heapInitialPages * pageSize - headerSize) 0 0
        heapStart := a
        heapEnd := a + heapInitialPages * pageSize }

/-- `heap_expand`: the address of the new block, `0` for `NULL`. -/
def heapExpand (s : HeapState σ) (n : ℕ) : Option (ℕ × HeapState σ) :=
  if s.heapStart = 0 ∨ n = 0 then some (0, s)
  else do
    let b ← lastBlock s.mem loopFuel s.heapStart
    let regionStart := u32 (b + headerSize + size s.mem b)
    let regionEnd := u32 (regionStart + n * pageSize)
    if heapLimit ≤ regionEnd then some (0, s)
    else
      match v.vmmAllocPagesRegion n (vmmFlagsRw ||| vmmFlagsPresent) regionStart regionEnd
          s.vm s.mem with
      | (none, vm, mem) => some (0, { s with vm := vm, mem := mem })
      | (some a, vm, mem) =>
        some (a,
          { s with
            vm := vm
            mem := setNext (initBlock mem a (sub32 (u32 (n * pageSize)) headerSize) b 0) b a
            heapEnd := a + n * pageSize })

/-- `heap_split_block`. -/
def heapSplitBlock (m : ByteMem) (b sz : ℕ) : ByteMem :=
  if b = 0 ∨ used m b ≠ 0 ∨ size m b ≤ sz then m
  else
    let newSize := sub32 (sub32 (size m b) sz) headerSize
    if newSize < heapSplitBlockMinSize then m
    else
      let new := u32 (b + sz + headerSize)
      let m := setSize m new newSize
      let m := setUsed m new 0
      let m := setPrev m new b
      let m := setNext m new (next m b)
      let m := if next m b ≠ 0 then setPrev m (next m b) new else m
      let m := setSize m b sz
      setNext m b new

/-- `heap_alloc`: the payload address, `0` for `NULL`. -/
def heapAlloc (s : HeapState σ) (sz : ℕ) : Option (ℕ × HeapState σ) :=
  if sz = 0 then some (0, s)
  else do
    let sz := alignUp 32 sz 4
    let b ← findFit s.mem sz loopFuel s.heapStart
    if b ≠ 0 then
      some (u32 (b + headerSize), { s with mem := setUsed (heapSplitBlock s.mem b sz) b 1 })
    else
      let (new, s) ← heapExpand v s (alignUp 32 (u32 (sz + headerSize)) pageSize / pageSize)
      if new = 0 then some (0, s)
      else some (u32 (new + headerSize), { s with mem := setUsed s.mem new 1 })

/-- The first half of `heap_merge_free_blocks`: absorb `b` into a free
predecessor.  The result is the block to go on with. -/
def mergePrev (m : ByteMem) (b : ℕ) : ByteMem × ℕ :=
  if prev m b ≠ 0 ∧ used m (prev m b) = 0 then
    let m := setSize m (prev m b) (u32 (size m (prev m b) + (size m b + headerSize)))
    let m := setNext m (prev m b) (next m b)
    let m := if next m b ≠ 0 then setPrev m (next m b) (prev m b) else m
    (m, prev m b)
  else (m, b)

/-- The second half of `heap_merge_free_blocks`: absorb a free successor. -/
def mergeNext (m : ByteMem) (b : ℕ) : ByteMem :=
  if next m b ≠ 0 ∧ used m (next m b) = 0 then
    let m := setSize m b (u32 (size m b + (size m (next m b) + headerSize)))
    let m := setNext m b (next m (next m b))
    if next m b ≠ 0 then setPrev m (next m b) b else m
  else m

/-- `heap_merge_free_blocks`. -/
def heapMergeFreeBlocks (m : ByteMem) (b : ℕ) : ByteMem :=
  if b = 0 ∨ used m b ≠ 0 then m
  else
    let (m, b) := mergePrev m b
    mergeNext m b

/-- `heap_free`. -/
def heapFree (s : HeapState σ) (ptr : ℕ) : Option (HeapState σ) :=
  if ptr = 0 then some s
  else do
    let b ← findPayload s.mem ptr loopFuel s.heapStart
    let mem := if b ≠ 0 then setUsed s.mem b 0 else s.mem
    some { s with mem := heapMergeFreeBlocks mem b }

end Operations

end Gummy
