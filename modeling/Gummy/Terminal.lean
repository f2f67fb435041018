import Gummy.Lib.CWord

/-!
The text console: `vga.c` and `terminal.c`.

The state is what the two files share, the cells of the video memory by index, and with it
the list of the indices that were accessed.  The second part says what the functions do to
the cells by row and column; the loops that copy and blank a row are described there once.
-/

namespace Gummy

open CWord

/-! ### The code -/

/-- `vga_cell_t`. -/
structure VgaCell where
  ch : UInt8
  attr : UInt8
deriving DecidableEq

/-- The state behind `vga.c` and `terminal.c`. -/
structure Terminal where
  /-- The cells from `VGA_LOC` on. -/
  vga : ℕ → VgaCell
  /-- The indices at which `vga` was read or written, the last one first. -/
  accesses : List ℕ
  /-- The cursor location registers `0x0F` and `0x0E`. -/
  cursorLow : UInt8
  cursorHigh : UInt8
  cursorX : ℕ
  cursorY : ℕ
  currentColor : UInt8
  initialized : Bool

/-- `TERMINAL_WIDTH`, and `VGA_TEXT_MODE_WIDTH`. -/
def terminalWidth : ℕ := 80

/-- `TERMINAL_HEIGHT`. -/
def terminalHeight : ℕ := 25

/-- The `uint16_t` that a position is computed in. -/
def vgaPos (x y : ℕ) : ℕ := (y * terminalWidth + x) % 2 ^ 16

/-- `vga_draw_cell`. -/
def vgaDrawCell (t : Terminal) (cell : VgaCell) (x y : ℕ) : Terminal :=
  let pos := vgaPos x y
  { t with vga := Function.update t.vga pos cell, accesses := pos :: t.accesses }

/-- `vga_peek_cell`. -/
def vgaPeekCell (t : Terminal) (x y : ℕ) : VgaCell × Terminal :=
  let pos := vgaPos x y
  (t.vga pos, { t with accesses := pos :: t.accesses })

/-- `vga_update_cursor`. -/
def vgaUpdateCursor (t : Terminal) (x y : ℕ) : Terminal :=
  let pos := vgaPos x y
  { t with cursorLow := UInt8.ofNat (pos &&& 0xFF), cursorHigh := UInt8.ofNat (pos >>> 8 &&& 0xFF) }

/-- `space_cell`. -/
def spaceCell (color : UInt8) : VgaCell := ⟨32, color⟩

/-- The body of the loops of `terminal_scroll_up`. -/
def copyCellUp (y : ℕ) (t : Terminal) (x : ℕ) : Terminal :=
  let (cell, t) := vgaPeekCell t x y
  vgaDrawCell t cell x (y - 1)

/-- The loop that draws one cell in all columns of row `y`. -/
def drawRow (cell : VgaCell) (t : Terminal) (y : ℕ) : Terminal :=
  (List.range terminalWidth).foldl (fun t x => vgaDrawCell t cell x y) t

/-- `terminal_scroll_up`. -/
def terminalScrollUp (t : Terminal) : Terminal :=
  let t := (List.range' 1 (terminalHeight - 1)).foldl
    (fun t y => (List.range terminalWidth).foldl (copyCellUp y) t) t
  drawRow (spaceCell t.currentColor) t (terminalHeight - 1)

/-- The first part of `terminal_putchar`: the character moves the cursor. -/
def putcharMove (t : Terminal) (c : UInt8) : Terminal :=
  if c = 10 then { t with cursorY := (t.cursorY + 1) % 2 ^ 16 }
  else if c = 13 then { t with cursorX := 0 }
  else
    let t' := vgaDrawCell t ⟨c, t.currentColor⟩ t.cursorX t.cursorY
    { t' with cursorX := (t.cursorX + 1) % 2 ^ 16 }

/-- The second part of `terminal_putchar`: the end of the row. -/
def putcharWrap (t : Terminal) : Terminal :=
  if terminalWidth ≤ t.cursorX then
    { t with cursorX := 0, cursorY := (t.cursorY + 1) % 2 ^ 16 }
  else t

/-- The third part of `terminal_putchar`: the end of the screen. -/
def putcharScroll (t : Terminal) : Terminal :=
  if terminalHeight ≤ t.cursorY then
    let t := terminalScrollUp t
    { t with cursorX := 0, cursorY := (t.cursorY + (2 ^ 16 - 1)) % 2 ^ 16 }
  else t

/-- `terminal_putchar`. -/
def terminalPutchar (t : Terminal) (c : UInt8) : Terminal :=
  let t := putcharScroll (putcharWrap (putcharMove t c))
  vgaUpdateCursor t t.cursorX t.cursorY

/-- The loop of `terminal_print_string` over the bytes from `s` on. -/
def printChars : Terminal → List UInt8 → Terminal
  | t, [] => t
  | t, c :: s => if c = 0 then t else printChars (terminalPutchar t c) s

/-- `terminal_print_string`. -/
def terminalPrintString (t : Terminal) (s : List UInt8) : Terminal :=
  if t.initialized then printChars t s else t

/-- `terminal_init`. -/
def terminalInit (t : Terminal) : Terminal :=
  let t := { t with cursorX := 0, cursorY := 0 }
  let t := (List.range terminalHeight).foldl (drawRow (spaceCell t.currentColor)) t
  let t := vgaUpdateCursor t t.cursorX t.cursorY
  { t with initialized := true }

/-! ### Cells by row and column -/

/-- The cell in row `r` and column `x` of the screen. -/
def Terminal.cell (t : Terminal) (r x : ℕ) : VgaCell := t.vga (r * terminalWidth + x)

/-- Every access so far was to a cell of the screen. -/
def Terminal.InVga (t : Terminal) : Prop := ∀ p ∈ t.accesses, p < terminalWidth * terminalHeight

variable {t t' : Terminal} {x y : ℕ}

lemma vgaPos_of_lt (hx : x < terminalWidth) (hy : y < terminalHeight) :
    vgaPos x y = y * terminalWidth + x := by
  unfold terminalWidth terminalHeight at *
  unfold vgaPos terminalWidth
  exact Nat.mod_eq_of_lt (by omega)

lemma vgaPos_lt (hx : x < terminalWidth) (hy : y < terminalHeight) :
    vgaPos x y < terminalWidth * terminalHeight := by
  rw [vgaPos_of_lt hx hy]
  unfold terminalWidth terminalHeight at *
  omega

lemma cell_vgaDrawCell (cell : VgaCell) (hx : x < terminalWidth) (hy : y < terminalHeight)
    {r c : ℕ} (hc : c < terminalWidth) :
    (vgaDrawCell t cell x y).cell r c = if r = y ∧ c = x then cell else t.cell r c := by
  have hiff : r * terminalWidth + c = y * terminalWidth + x ↔ r = y ∧ c = x := by
    unfold terminalWidth at *
    omega
  simp only [Terminal.cell, vgaDrawCell, vgaPos_of_lt hx hy, Function.update_apply, hiff]

lemma fst_vgaPeekCell (hx : x < terminalWidth) (hy : y < terminalHeight) :
    (vgaPeekCell t x y).1 = t.cell y x := by
  rw [Terminal.cell, ← vgaPos_of_lt hx hy]
  rfl

/-! ### Drawing leaves the cursor -/

/-- `t'` is `t` after accesses to cells of the screen. -/
structure Redrawn (t t' : Terminal) : Prop where
  frame : t' = { t with vga := t'.vga, accesses := t'.accesses }
  inVga : t.InVga → t'.InVga

namespace Redrawn

lemma refl (t : Terminal) : Redrawn t t := ⟨rfl, id⟩

lemma trans {t'' : Terminal} (h : Redrawn t t') (h' : Redrawn t' t'') : Redrawn t t'' := by
  constructor
  · rw [h'.frame, h.frame]
  · intro hin
    exact h'.inVga (h.inVga hin)

lemma currentColor (h : Redrawn t t') : t'.currentColor = t.currentColor := by rw [h.frame]

/-- A loop whose passes only draw. -/
lemma foldl {f : Terminal → ℕ → Terminal} {l : List ℕ}
    (h : ∀ t, ∀ i ∈ l, Redrawn t (f t i)) (t : Terminal) : Redrawn t (l.foldl f t) := by
  induction l generalizing t with
  | nil => exact refl t
  | cons i l ih =>
    have hl : ∀ t, ∀ j ∈ l, Redrawn t (f t j) := fun t j hj => h t j (by simp [hj])
    exact (h t i (by simp)).trans (ih hl (f t i))

lemma draw (t : Terminal) (cell : VgaCell) (hx : x < terminalWidth) (hy : y < terminalHeight) :
    Redrawn t (vgaDrawCell t cell x y) := by
  constructor
  · rfl
  · intro hin p hp
    rcases List.mem_cons.1 hp with rfl | hp
    · exact vgaPos_lt hx hy
    · exact hin p hp

lemma peek (t : Terminal) (hx : x < terminalWidth) (hy : y < terminalHeight) :
    Redrawn t (vgaPeekCell t x y).2 := by
  constructor
  · rfl
  · intro hin p hp
    rcases List.mem_cons.1 hp with rfl | hp
    · exact vgaPos_lt hx hy
    · exact hin p hp

lemma copyUp (t : Terminal) (hx : x < terminalWidth) (hy : y < terminalHeight) :
    Redrawn t (copyCellUp y t x) :=
  (peek t hx hy).trans (draw _ _ hx (by omega))

lemma row (cell : VgaCell) (t : Terminal) (hy : y < terminalHeight) :
    Redrawn t (drawRow cell t y) :=
  foldl (fun t _ hx => draw t cell (List.mem_range.1 hx) hy) t

end Redrawn

/-! ### The loops, cell by cell -/

lemma cell_copyCellUp (hx : x < terminalWidth) (hy : y < terminalHeight) {r c : ℕ}
    (hc : c < terminalWidth) :
    (copyCellUp y t x).cell r c = if r = y - 1 ∧ c = x then t.cell y x else t.cell r c := by
  have hfst := fst_vgaPeekCell (t := t) hx hy
  rw [copyCellUp, cell_vgaDrawCell _ hx (by omega) hc, hfst]
  rfl

/-- The first `n` columns of row `y` are copied up; row `y` itself is only read. -/
lemma cell_copyColumns (hy : y < terminalHeight) (_ : 0 < y) {n : ℕ} (hn : n ≤ terminalWidth)
    {r c : ℕ} (hc : c < terminalWidth) :
    ((List.range n).foldl (copyCellUp y) t).cell r c =
      if r = y - 1 ∧ c < n then t.cell y c else t.cell r c := by
  induction n generalizing r c with
  | zero => simp
  | succ n ih =>
    have hsource : ((List.range n).foldl (copyCellUp y) t).cell y n = t.cell y n := by
      rw [ih (by omega) (by omega), if_neg (by omega)]
    rw [List.range_succ, List.foldl_append, List.foldl_cons, List.foldl_nil,
      cell_copyCellUp hn hy hc, ih (by omega) hc, hsource]
    by_cases hcn : c = n
    · simp [hcn]
    · have hiff : c < n + 1 ↔ c < n := by omega
      simp [hcn, hiff]

/-- After the rows `1` to `n` the first `n` rows are the ones below them. -/
lemma cell_copyRows {n : ℕ} (hn : n < terminalHeight) {r c : ℕ} (hc : c < terminalWidth) :
    ((List.range' 1 n).foldl
      (fun t y => (List.range terminalWidth).foldl (copyCellUp y) t) t).cell r c =
      if r < n then t.cell (r + 1) c else t.cell r c := by
  induction n generalizing r with
  | zero => simp
  | succ n ih =>
    rw [List.range'_1_concat, List.foldl_append, List.foldl_cons, List.foldl_nil,
      cell_copyColumns (by omega) (by omega) le_rfl hc, ih (by omega), ih (by omega)]
    rcases lt_trichotomy r n with hlt | rfl | hlt
    · simp [hlt, hlt.ne, Nat.lt_succ_of_lt hlt]
    · simp [hc, Nat.add_comm]
    · simp [hlt.ne', Nat.not_lt_of_lt hlt, Nat.not_lt.2 hlt]

lemma cell_drawColumns (cell : VgaCell) (hy : y < terminalHeight) {n : ℕ} (hn : n ≤ terminalWidth)
    {r c : ℕ} (hc : c < terminalWidth) :
    ((List.range n).foldl (fun t x => vgaDrawCell t cell x y) t).cell r c =
      if r = y ∧ c < n then cell else t.cell r c := by
  induction n with
  | zero => simp
  | succ n ih =>
    rw [List.range_succ, List.foldl_append, List.foldl_cons, List.foldl_nil,
      cell_vgaDrawCell _ hn hy hc, ih (by omega)]
    by_cases hcn : c = n
    · simp [hcn]
    · have hiff : c < n + 1 ↔ c < n := by omega
      simp [hcn, hiff]

lemma cell_drawRow (cell : VgaCell) (hy : y < terminalHeight) {r c : ℕ} (hc : c < terminalWidth) :
    (drawRow cell t y).cell r c = if r = y then cell else t.cell r c := by
  rw [drawRow, cell_drawColumns cell hy le_rfl hc]
  simp [hc]

lemma cell_drawRows (cell : VgaCell) {n : ℕ} (hn : n ≤ terminalHeight) {r c : ℕ}
    (hc : c < terminalWidth) :
    ((List.range n).foldl (drawRow cell) t).cell r c = if r < n then cell else t.cell r c := by
  induction n with
  | zero => simp
  | succ n ih =>
    rw [List.range_succ, List.foldl_append, List.foldl_cons, List.foldl_nil,
      cell_drawRow cell hn hc, ih (by omega)]
    by_cases hrn : r = n
    · simp [hrn]
    · have hiff : r < n + 1 ↔ r < n := by omega
      simp [hrn, hiff]

/-! ### Scrolling -/

lemma Redrawn.copyRows {n : ℕ} (hn : n < terminalHeight) (t : Terminal) :
    Redrawn t ((List.range' 1 n).foldl
      (fun t y => (List.range terminalWidth).foldl (copyCellUp y) t) t) := by
  refine Redrawn.foldl ?_ t
  intro t y hy
  have hlt : y < terminalHeight := by
    have h := List.mem_range'_1.1 hy
    omega
  exact Redrawn.foldl (fun t _ hx => Redrawn.copyUp t (List.mem_range.1 hx) hlt) t

lemma Redrawn.scrollUp (t : Terminal) : Redrawn t (terminalScrollUp t) :=
  (Redrawn.copyRows (by decide) t).trans (Redrawn.row _ _ (by decide))

/-- The rows move up by one, and the last one is blank. -/
lemma cell_terminalScrollUp {r c : ℕ} (hr : r < terminalHeight) (hc : c < terminalWidth) :
    (terminalScrollUp t).cell r c =
      if r = terminalHeight - 1 then spaceCell t.currentColor else t.cell (r + 1) c := by
  have hcolor := (Redrawn.copyRows (n := terminalHeight - 1) (by decide) t).currentColor
  rw [terminalScrollUp, cell_drawRow _ (by decide) hc, cell_copyRows (by decide) hc, hcolor]
  by_cases hlast : r = terminalHeight - 1
  · simp [hlast]
  · have hlt : r < terminalHeight - 1 := by omega
    simp [hlast, hlt]

end Gummy
