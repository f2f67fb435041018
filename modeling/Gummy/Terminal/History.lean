import Gummy.Lib.Scrollback
import Gummy.Terminal
import Mathlib.Data.List.Induction

/-!
The console shows the end of a page without end.

The cursor stays on the screen whatever is printed.  For the comparison with the page the
number of rows scrolled off is carried along: each part of `terminal_putchar` keeps the
screen at the rows from there on, and only the last part moves them.
-/

namespace Gummy

variable {t : Terminal} {p : Page VgaCell} {d : ℕ}

lemma terminalWidth_pos : 0 < terminalWidth := by decide

lemma terminalHeight_pos : 0 < terminalHeight := by decide

/-! ### The cursor -/

/-- The cursor is on the screen and so was every access. -/
structure Terminal.OnScreen (t : Terminal) : Prop where
  column : t.cursorX < terminalWidth
  row : t.cursorY < terminalHeight
  inVga : t.InVga

/-- The state inside `terminal_putchar` before the end of the row is looked at. -/
structure Terminal.Moved (t : Terminal) : Prop where
  column : t.cursorX ≤ terminalWidth
  row : t.cursorY ≤ terminalHeight
  corner : t.cursorX = terminalWidth → t.cursorY < terminalHeight
  inVga : t.InVga

namespace Terminal.OnScreen

lemma move (h : t.OnScreen) (c : UInt8) : (putcharMove t c).Moved := by
  obtain ⟨hx, hy, hin⟩ := h
  have hdraw := (Redrawn.draw t ⟨c, t.currentColor⟩ hx hy).inVga hin
  unfold terminalWidth terminalHeight at *
  unfold putcharMove
  split_ifs
  · constructor
    · exact hx.le
    · change (t.cursorY + 1) % 2 ^ 16 ≤ 25
      omega
    · intro hcorner
      exact absurd hcorner hx.ne
    · exact hin
  · exact ⟨Nat.zero_le _, hy.le, fun _ => hy, hin⟩
  · constructor
    · change (t.cursorX + 1) % 2 ^ 16 ≤ 80
      omega
    · exact hy.le
    · intro _
      exact hy
    · exact hdraw

/-- The screen is left downwards only, and by one row. -/
lemma wrap (h : t.Moved) : (putcharWrap t).cursorX < terminalWidth ∧
    (putcharWrap t).cursorY ≤ terminalHeight ∧ (putcharWrap t).InVga := by
  obtain ⟨hx, hy, hcorner, hin⟩ := h
  unfold putcharWrap
  split_ifs with hfull
  · have hlt := hcorner (le_antisymm hx hfull)
    refine ⟨terminalWidth_pos, ?_, hin⟩
    unfold terminalHeight at *
    change (t.cursorY + 1) % 2 ^ 16 ≤ 25
    omega
  · exact ⟨not_le.1 hfull, hy, hin⟩

lemma scroll (hx : t.cursorX < terminalWidth) (hy : t.cursorY ≤ terminalHeight) (hin : t.InVga) :
    (putcharScroll t).OnScreen := by
  unfold putcharScroll
  split_ifs with hfull
  · have hup := Redrawn.scrollUp t
    generalize terminalScrollUp t = u at hup
    have hrow : u.cursorY = t.cursorY := by rw [hup.frame]
    constructor
    · exact terminalWidth_pos
    · unfold terminalHeight at *
      change (u.cursorY + (2 ^ 16 - 1)) % 2 ^ 16 < 25
      omega
    · exact hup.inVga hin
  · exact ⟨hx, not_le.1 hfull, hin⟩

lemma putchar (h : t.OnScreen) (c : UInt8) : (terminalPutchar t c).OnScreen := by
  obtain ⟨hx, hy, hin⟩ := wrap (h.move c)
  obtain ⟨hx', hy', hin'⟩ := scroll hx hy hin
  exact ⟨hx', hy', hin'⟩

/-- Whatever is printed. -/
lemma print (h : t.OnScreen) (l : List UInt8) : (l.foldl terminalPutchar t).OnScreen := by
  induction l generalizing t with
  | nil => exact h
  | cons c l ih => exact ih (h.putchar c)

end Terminal.OnScreen

/-! ### The page -/

/-- What `terminal_putchar` is to do with a character. -/
def strokeOf (color c : UInt8) : Stroke VgaCell :=
  if c = 10 then .newline else if c = 13 then .carriageReturn else .put ⟨c, color⟩

/-- The page after `l`, written from its first row on. -/
def pageAfter (color : UInt8) (l : List UInt8) : Page VgaCell :=
  l.foldl (fun p c => p.write terminalWidth (strokeOf color c)) (Page.empty (spaceCell color))

/-- The console shows the page from row `d` on. -/
structure ShowsPage (d : ℕ) (t : Terminal) (p : Page VgaCell) : Prop where
  column : t.cursorX = p.x
  row : t.cursorY + d = p.y
  scrolled : d = 0 ∨ terminalHeight ≤ t.cursorY + 1
  screen : ∀ r < terminalHeight, ∀ x < terminalWidth, t.cell r x = p.view d r x
  blank : p.BlankBelow (spaceCell t.currentColor)

namespace ShowsPage

lemma move (h : ShowsPage d t p) (ht : t.OnScreen) (c : UInt8) :
    ShowsPage d (putcharMove t c) (p.stroke (strokeOf t.currentColor c)) := by
  obtain ⟨hcol, hrow, hd, hscreen, hblank⟩ := h
  obtain ⟨hx, hy, -⟩ := ht
  have hb := hblank.stroke (strokeOf t.currentColor c)
  unfold putcharMove strokeOf at *
  split_ifs at hb ⊢ with hnl hcr
  · have hsucc : (t.cursorY + 1) % 2 ^ 16 = t.cursorY + 1 := by
      unfold terminalHeight at hy
      omega
    constructor
    · exact hcol
    · change (t.cursorY + 1) % 2 ^ 16 + d = p.y + 1
      omega
    · change d = 0 ∨ terminalHeight ≤ (t.cursorY + 1) % 2 ^ 16 + 1
      omega
    · exact hscreen
    · exact hb
  · exact ⟨rfl, hrow, hd, hscreen, hb⟩
  · constructor
    · change (t.cursorX + 1) % 2 ^ 16 = p.x + 1
      unfold terminalWidth at hx
      omega
    · exact hrow
    · exact hd
    · intro r hr x hxw
      have hiff : d + r = p.y ∧ x = p.x ↔ r = t.cursorY ∧ x = t.cursorX := by omega
      rw [Page.view_put, ← hscreen r hr x hxw]
      simp only [hiff]
      exact cell_vgaDrawCell _ hx hy hxw
    · exact hb

lemma wrap (h : ShowsPage d t p) (ht : t.Moved) : ShowsPage d (putcharWrap t) (p.wrap terminalWidth) := by
  obtain ⟨hcol, hrow, hd, hscreen, hblank⟩ := h
  have hb := hblank.wrap terminalWidth
  have hy := ht.row
  unfold putcharWrap Page.wrap at *
  rw [← hcol] at hb ⊢
  split_ifs at hb ⊢ with hfull
  · have hsucc : (t.cursorY + 1) % 2 ^ 16 = t.cursorY + 1 := by
      unfold terminalHeight at hy
      omega
    constructor
    · rfl
    · change (t.cursorY + 1) % 2 ^ 16 + d = p.y + 1
      omega
    · change d = 0 ∨ terminalHeight ≤ (t.cursorY + 1) % 2 ^ 16 + 1
      omega
    · exact hscreen
    · exact hb
  · exact ⟨hcol, hrow, hd, hscreen, hblank⟩

/-- Scrolling moves the first row shown, and the row that comes in is blank on the page. -/
lemma scroll (h : ShowsPage d t p) (hy : t.cursorY ≤ terminalHeight)
    (hx : t.cursorY = terminalHeight → t.cursorX = 0 ∧ p.Fresh (spaceCell t.currentColor)) :
    ∃ d', ShowsPage d' (putcharScroll t) p := by
  unfold putcharScroll
  split_ifs with hfull
  · obtain ⟨hcol, hrow, hd, hscreen, hblank⟩ := h
    have hbottom : t.cursorY = terminalHeight := le_antisymm hy hfull
    have hup := Redrawn.scrollUp t
    have hcell : ∀ r < terminalHeight, ∀ x < terminalWidth, (terminalScrollUp t).cell r x =
        if r = terminalHeight - 1 then spaceCell t.currentColor else t.cell (r + 1) x :=
      fun r hr x hx => cell_terminalScrollUp hr hx
    generalize terminalScrollUp t = u at hup hcell
    have hcursor : u.cursorY = t.cursorY := by rw [hup.frame]
    have hpred : (u.cursorY + (2 ^ 16 - 1)) % 2 ^ 16 + 1 = terminalHeight := by
      rw [hcursor, hbottom]
      rfl
    obtain ⟨hleft, hfresh⟩ := hx hbottom
    refine ⟨d + 1, ?_, ?_, ?_, ?_, ?_⟩
    · exact hleft.symm.trans hcol
    · change (u.cursorY + (2 ^ 16 - 1)) % 2 ^ 16 + (d + 1) = p.y
      omega
    · right
      exact hpred.ge
    · intro r hr x hxw
      refine (hcell r hr x hxw).trans ?_
      rw [Page.view_succ]
      split_ifs with hlast
      · exact (hfresh.view (by omega) x).symm
      · exact hscreen (r + 1) (by omega) x hxw
    · change p.BlankBelow (spaceCell u.currentColor)
      rw [hup.currentColor]
      exact hblank
  · exact ⟨d, h⟩

lemma updateCursor (h : ShowsPage d t p) (x y : ℕ) : ShowsPage d (vgaUpdateCursor t x y) p :=
  ⟨h.column, h.row, h.scrolled, h.screen, h.blank⟩

/-- Below the screen the cursor is at the left of an empty row, if a line feed finds it at the
left: this is where scrolling puts it. -/
lemma fresh (h : ShowsPage d t p) (ht : t.OnScreen) {c : UInt8} (hc : c = 10 → p.x = 0)
    (hbottom : (putcharWrap (putcharMove t c)).cursorY = terminalHeight) :
    (putcharWrap (putcharMove t c)).cursorX = 0 ∧
      (p.write terminalWidth (strokeOf t.currentColor c)).Fresh (spaceCell t.currentColor) := by
  have hmove := h.move ht c
  have hcolumn := hmove.column
  have hblank := h.blank.stroke (strokeOf t.currentColor c)
  unfold putcharWrap at hbottom ⊢
  split_ifs at hbottom ⊢ with hfull
  · exact ⟨rfl, hblank.fresh_wrap (hcolumn ▸ hfull)⟩
  · have hwrite : p.write terminalWidth (strokeOf t.currentColor c) =
        p.stroke (strokeOf t.currentColor c) := by
      rw [Page.write, Page.wrap, if_neg (hcolumn ▸ hfull)]
    rw [hwrite]
    by_cases hnl : c = 10
    · subst hnl
      exact ⟨h.column.trans (hc rfl), h.blank.fresh_newline⟩
    · -- nothing else leaves the screen
      have hrow : (putcharMove t c).cursorY = t.cursorY := by
        unfold putcharMove
        split_ifs <;> rfl
      exact absurd (hrow.symm.trans hbottom) ht.row.ne

end ShowsPage

lemma currentColor_putcharMove (t : Terminal) (c : UInt8) :
    (putcharMove t c).currentColor = t.currentColor := by
  unfold putcharMove
  split_ifs <;> rfl

lemma currentColor_putcharWrap (t : Terminal) :
    (putcharWrap t).currentColor = t.currentColor := by
  unfold putcharWrap
  split_ifs <;> rfl

lemma currentColor_putcharScroll (t : Terminal) :
    (putcharScroll t).currentColor = t.currentColor := by
  have hup := (Redrawn.scrollUp t).currentColor
  unfold putcharScroll
  generalize terminalScrollUp t = u at hup
  split_ifs
  · exact hup
  · rfl

lemma currentColor_terminalPutchar (t : Terminal) (c : UInt8) :
    (terminalPutchar t c).currentColor = t.currentColor :=
  (currentColor_putcharScroll _).trans
    ((currentColor_putcharWrap _).trans (currentColor_putcharMove t c))

/-- One character. -/
lemma ShowsPage.putchar (h : ShowsPage d t p) (ht : t.OnScreen) {c : UInt8} (hc : c = 10 → p.x = 0) :
    ∃ d', ShowsPage d' (terminalPutchar t c) (p.write terminalWidth (strokeOf t.currentColor c)) := by
  have hmoved := ht.move c
  obtain ⟨-, hy, -⟩ := Terminal.OnScreen.wrap hmoved
  have hcolor := (currentColor_putcharWrap _).trans (currentColor_putcharMove t c)
  obtain ⟨d', hd'⟩ := ((h.move ht c).wrap hmoved).scroll hy fun hbottom => by
    rw [hcolor]
    exact h.fresh ht hc hbottom
  rw [terminalPutchar]
  exact ⟨d', hd'.updateCursor _ _⟩

/-- Line feeds are sent at the beginning of a row only. -/
def NewlinesAtStart (color : UInt8) (l : List UInt8) : Prop :=
  ∀ a b, l = a ++ 10 :: b → (pageAfter color a).x = 0

lemma pageAfter_concat (color c : UInt8) (l : List UInt8) : pageAfter color (l ++ [c]) =
    (pageAfter color l).write terminalWidth (strokeOf color c) := by
  simp [pageAfter]

/-- Lines that end in `"\r\n"`. -/
lemma newlinesAtStart_of_crlf {color : UInt8} {l : List UInt8}
    (h : ∀ a b, l = a ++ 10 :: b → ∃ a', a = a' ++ [13]) : NewlinesAtStart color l := by
  intro a b hab
  obtain ⟨a', rfl⟩ := h a b hab
  rw [pageAfter_concat]
  rfl

/-- Printing after a state that shows the empty page. -/
lemma ShowsPage.print (ht : t.OnScreen)
    (h : ShowsPage 0 t (Page.empty (spaceCell t.currentColor))) (l : List UInt8)
    (hl : NewlinesAtStart t.currentColor l) :
    (l.foldl terminalPutchar t).currentColor = t.currentColor ∧
      ∃ d, ShowsPage d (l.foldl terminalPutchar t) (pageAfter t.currentColor l) := by
  induction l using List.reverseRecOn with
  | nil => exact ⟨rfl, 0, h⟩
  | append_singleton l c ih =>
    have hpre : NewlinesAtStart t.currentColor l := by
      intro a b hab
      exact hl a (b ++ [c]) (by simp [hab])
    obtain ⟨hcolor, d, hd⟩ := ih hpre
    have hc : c = 10 → (pageAfter t.currentColor l).x = 0 := by
      rintro rfl
      exact hl l [] rfl
    obtain ⟨d', hd'⟩ := hd.putchar (ht.print l) hc
    rw [List.foldl_append, List.foldl_cons, List.foldl_nil, pageAfter_concat]
    rw [hcolor] at hd'
    exact ⟨(currentColor_terminalPutchar _ c).trans hcolor, d', hd'⟩

/-! ### After `terminal_init` -/

/-- `terminal_init` blanks the screen and moves the cursor to its first cell. -/
lemma terminalInit_spec (t : Terminal) :
    (t.InVga → (terminalInit t).OnScreen) ∧ (terminalInit t).currentColor = t.currentColor ∧
      ShowsPage 0 (terminalInit t) (Page.empty (spaceCell t.currentColor)) := by
  have hdraw : Redrawn { t with cursorX := 0, cursorY := 0 }
      ((List.range terminalHeight).foldl (drawRow (spaceCell t.currentColor))
        { t with cursorX := 0, cursorY := 0 }) :=
    Redrawn.foldl (fun t _ hy => Redrawn.row _ t (List.mem_range.1 hy)) _
  have hcell : ∀ r < terminalHeight, ∀ x < terminalWidth,
      ((List.range terminalHeight).foldl (drawRow (spaceCell t.currentColor))
        { t with cursorX := 0, cursorY := 0 }).cell r x = spaceCell t.currentColor := by
    intro r hr x hx
    rw [cell_drawRows _ le_rfl hx, if_pos hr]
  unfold terminalInit
  dsimp only
  generalize (List.range terminalHeight).foldl (drawRow (spaceCell t.currentColor))
    { t with cursorX := 0, cursorY := 0 } = u at hdraw hcell ⊢
  have hx : u.cursorX = 0 := by rw [hdraw.frame]
  have hy : u.cursorY = 0 := by rw [hdraw.frame]
  refine ⟨?_, hdraw.currentColor, ?_⟩
  · intro hin
    exact ⟨hx.trans_lt terminalWidth_pos, hy.trans_lt terminalHeight_pos, hdraw.inVga hin⟩
  · constructor
    · exact hx
    · exact hy
    · exact Or.inl rfl
    · exact hcell
    · change Page.BlankBelow (spaceCell u.currentColor) _
      rw [hdraw.currentColor]
      exact Page.blankBelow_empty

/-- The console after `terminal_init` and the characters of `l`, with the accesses since. -/
def consoleAfter (t : Terminal) (l : List UInt8) : Terminal :=
  l.foldl terminalPutchar (terminalInit { t with accesses := [] })

theorem console_shows_window (t : Terminal) (l : List UInt8) :
    (consoleAfter t l).cursorX < 80 ∧ (consoleAfter t l).cursorY < 25 ∧
    (∀ i ∈ (consoleAfter t l).accesses, i < 2000) ∧
    (NewlinesAtStart t.currentColor l →
      (consoleAfter t l).cursorX = (pageAfter t.currentColor l).x ∧
      (consoleAfter t l).cursorY = min (pageAfter t.currentColor l).y 24 ∧
      ∀ r < 25, ∀ x < 80,
        (consoleAfter t l).vga (r * 80 + x) = (pageAfter t.currentColor l).window 25 r x) := by
  obtain ⟨hscreen, hcolor, hshows⟩ := terminalInit_spec { t with accesses := [] }
  have hinit := hscreen (fun i hi => absurd hi List.not_mem_nil)
  unfold consoleAfter
  generalize terminalInit { t with accesses := [] } = u at hinit hcolor hshows
  change u.currentColor = t.currentColor at hcolor
  obtain ⟨hx, hy, hin⟩ := hinit.print l
  refine ⟨hx, hy, hin, ?_⟩
  intro hl
  rw [← hcolor] at hl ⊢
  obtain ⟨-, d, hd⟩ := ShowsPage.print hinit (hcolor ▸ hshows) l hl
  have hrow := hd.row
  have hscrolled := hd.scrolled
  unfold terminalHeight at hy hscrolled
  refine ⟨hd.column, by omega, ?_⟩
  rw [Page.window_eq_view hrow hy hscrolled]
  exact hd.screen

/-- `"A\r\nB"` on a console that was never used. -/
theorem console_shows_window_two_lines :
    let t : Terminal := ⟨fun _ => ⟨0, 0⟩, [], 0, 0, 0, 0, 7, false⟩
    (consoleAfter t [65, 13, 10, 66]).cursorX = 1 ∧
      (consoleAfter t [65, 13, 10, 66]).vga 80 = ⟨66, 7⟩ := by
  intro t
  have hl : NewlinesAtStart t.currentColor [65, 13, 10, 66] := by
    refine newlinesAtStart_of_crlf fun a b hab => ?_
    rcases a with _ | ⟨a₁, _ | ⟨a₂, _ | ⟨a₃, _ | ⟨a₄, a⟩⟩⟩⟩
    · simp at hab
    · simp at hab
    · obtain ⟨rfl, rfl, -⟩ : 65 = a₁ ∧ 13 = a₂ ∧ [66] = b := by simpa using hab
      exact ⟨[65], rfl⟩
    · simp at hab
    · simp at hab
  obtain ⟨-, -, -, hshows⟩ := console_shows_window t [65, 13, 10, 66]
  obtain ⟨hx, -, hcell⟩ := hshows hl
  have hcolumn : (pageAfter t.currentColor [65, 13, 10, 66]).x = 1 := rfl
  have hletter : (pageAfter t.currentColor [65, 13, 10, 66]).window 25 1 0 = ⟨66, 7⟩ := rfl
  have hvga := hcell 1 (by decide) 0 (by decide)
  rw [Nat.one_mul, Nat.add_zero, hletter] at hvga
  exact ⟨hx.trans hcolumn, hvga⟩

/-! ### Strings -/

lemma printChars_eq (t : Terminal) (s : List UInt8) :
    printChars t s = (s.takeWhile (· ≠ 0)).foldl terminalPutchar t := by
  induction s generalizing t with
  | nil => rfl
  | cons c s ih =>
    by_cases hc : c = 0
    · simp [printChars, hc]
    · simp [printChars, hc, ih]

lemma initialized_terminalPutchar (t : Terminal) (c : UInt8) :
    (terminalPutchar t c).initialized = t.initialized := by
  have hmove : (putcharMove t c).initialized = t.initialized := by
    unfold putcharMove
    split_ifs <;> rfl
  have hwrap (u : Terminal) : (putcharWrap u).initialized = u.initialized := by
    unfold putcharWrap
    split_ifs <;> rfl
  have hscroll (u : Terminal) : (putcharScroll u).initialized = u.initialized := by
    have hup := (Redrawn.scrollUp u).frame
    unfold putcharScroll
    generalize terminalScrollUp u = v at hup
    split_ifs
    · rw [hup]
    · rfl
  exact (hscroll _).trans ((hwrap _).trans hmove)

lemma initialized_consoleAfter (t : Terminal) (l : List UInt8) :
    (consoleAfter t l).initialized = true := by
  induction l using List.reverseRecOn with
  | nil => rfl
  | append_singleton l c ih =>
    rw [consoleAfter, List.foldl_append]
    exact (initialized_terminalPutchar _ c).trans ih

/-- `terminal_print_string` prints the characters before the NUL. -/
theorem terminalPrintString_consoleAfter (t : Terminal) (l s : List UInt8) :
    terminalPrintString (consoleAfter t l) s = consoleAfter t (l ++ s.takeWhile (· ≠ 0)) := by
  rw [terminalPrintString, if_pos (initialized_consoleAfter t l), printChars_eq, consoleAfter,
    consoleAfter, List.foldl_append]

end Gummy
