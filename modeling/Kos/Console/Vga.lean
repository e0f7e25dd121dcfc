import Kos.Common.Run
import Kos.Common.Traced
import Kos.Common.Word
/-!
# Console — the text screen

`vga_putchar` writes a character where the cursor stands, moves the
cursor and, where it leaves the last row, moves the rows up in place.
What the screen is for is said by a terminal that never scrolls: it has
a row for every line ever started, and the screen shows the last of them.
-/

namespace Kos

namespace Console

/-- `VGA_WIDTH`. -/
abbrev vgaWidth : ℕ := 80

/-- `VGA_HEIGHT`. -/
abbrev vgaHeight : ℕ := 25

/-- `fg_color`. -/
def fgColor : BitVec 32 := 0xFFFFFF#32

/-- `bg_color`. -/
def bgColor : BitVec 32 := 0x000000#32

/-- The cell of a space, which clears a place of the screen. -/
def blank : BitVec 16 := 0x0720#16

/-- A `char`. -/
abbrev Character : Type := BitVec 8

/-- The character `'\n'`. -/
def newline : Character := 0x0A#8

/-- The character `'\r'`. -/
def carriageReturn : Character := 0x0D#8

/-- The character `'\t'`. -/
def tab : Character := 0x09#8

/-- The console: the memory from `vga_buffer` on, and the cursor. -/
structure State where
  vgaBuffer : Traced (BitVec 16)
  cursorX : ℕ
  cursorY : ℕ

/-- `console_early_init`. -/
def consoleEarlyInit (s : State) : State where
  vgaBuffer := (List.range (80 * 25)).foldl (fun m i => m.write i blank) s.vgaBuffer
  cursorX := 0
  cursorY := 0

/-- `(uint16_t)c | (fg_color << 8) | (bg_color << 12)`, cut to a cell. A
`char` is signed, and the sum has 32 bits. -/
def glyph (c : Character) : BitVec 16 :=
  ((c.signExtend 16).setWidth 32 ||| (fgColor <<< 8) ||| (bgColor <<< 12)).setWidth 16

/-- The branch of `vga_putchar` that the character selects. -/
def place (s : State) (c : Character) : State :=
  if c = newline then { s with cursorX := 0, cursorY := add64 s.cursorY 1 }
  else if c = carriageReturn then { s with cursorX := 0 }
  else if c = tab then { s with cursorX := add64 s.cursorX 4 &&& highMask 2 }
  else
    let idx := add64 (mul64 s.cursorY vgaWidth) s.cursorX
    { s with vgaBuffer := s.vgaBuffer.write idx (glyph c), cursorX := add64 s.cursorX 1 }

/-- The step to the next row where the cursor is past the last column. -/
def wrapLine (s : State) : State :=
  if vgaWidth ≤ s.cursorX then { s with cursorX := 0, cursorY := add64 s.cursorY 1 } else s

/-- The loops of the scroll. -/
def moveRows (m : Traced (BitVec 16)) : Traced (BitVec 16) :=
  let m := (List.range (vgaHeight - 1)).foldl (fun m y => (List.range vgaWidth).foldl
    (fun m x => m.write (y * vgaWidth + x) (m.cell ((y + 1) * vgaWidth + x))) m) m
  (List.range vgaWidth).foldl (fun m x => m.write ((vgaHeight - 1) * vgaWidth + x) blank) m

/-- The scroll, where the cursor is past the last row. -/
def scroll (s : State) : State :=
  if vgaHeight ≤ s.cursorY then { s with vgaBuffer := moveRows s.vgaBuffer, cursorY := vgaHeight - 1 }
  else s

/-- `vga_putchar`. -/
def vgaPutchar (s : State) (c : Character) : State := scroll (wrapLine (place s c))

/-! ## The terminal -/

/-- **A terminal with a row for every line**, and the place it writes to
next. -/
structure Terminal where
  cell : ℕ → ℕ → BitVec 16
  row : ℕ
  col : ℕ

/-- An empty terminal. -/
def Terminal.empty : Terminal := ⟨fun _ _ => blank, 0, 0⟩

/-- A character in white. -/
def Terminal.white (c : Character) : BitVec 16 := 0xFF00#16 ||| c.setWidth 16

/-- What a character does to the row it comes to. -/
def Terminal.type (t : Terminal) (c : Character) : Terminal :=
  if c = newline then { t with row := t.row + 1, col := 0 }
  else if c = carriageReturn then { t with col := 0 }
  else if c = tab then { t with col := 4 * (t.col / 4 + 1) }
  else
    { t with
      cell := Function.update t.cell t.row (Function.update (t.cell t.row) t.col (white c))
      col := t.col + 1 }

/-- A row ends at column 80, and the next one begins. -/
def Terminal.wrap (t : Terminal) : Terminal :=
  if t.col < 80 then t else { t with row := t.row + 1, col := 0 }

/-- The terminal after a character. -/
def Terminal.put (t : Terminal) (c : Character) : Terminal := (t.type c).wrap

/-- The first of the last 25 rows. -/
def Terminal.top (t : Terminal) : ℕ := t.row - 24

theorem glyph_eq (c : Character) : glyph c = Terminal.white c := by
  revert c
  decide +kernel

/-! ## The screen shows the terminal's last rows -/

/-- **The screen shows the rows of the terminal from one on**, and the
rows after those are empty. -/
structure Shows (top : ℕ) (t : Terminal) (s : State) : Prop where
  row : t.row = top + s.cursorY
  col : t.col = s.cursorX
  cells : ∀ y < 25, ∀ x < 80,
    s.vgaBuffer.cell (y * 80 + x) = t.cell (top + y) x
  below : ∀ r, top + 25 ≤ r → ∀ x, t.cell r x = blank

/-- A cursor on the screen. -/
structure OnScreen (s : State) : Prop where
  x_lt : s.cursorX < 80
  y_lt : s.cursorY < 25

/-- The index of a place on the screen, in 64 bits. -/
theorem index_eq {x y : ℕ} (hx : x < 80) (hy : y < 25) :
    add64 (mul64 y 80) x = y * 80 + x := by
  rw [mul64_of_lt (by omega), add64_of_lt (by omega)]

theorem index_lt {x y : ℕ} (hx : x < 80) (hy : y < 25) :
    y * 80 + x < 80 * 25 := by omega

/-- Two places on the screen with one index are one place. -/
theorem index_inj {x x' y y' : ℕ} (hx : x < 80) (hx' : x' < 80) :
    y * 80 + x = y' * 80 + x' ↔ y = y' ∧ x = x' := by omega

/-- The next stop of a tab. -/
theorem tab_stop {x : ℕ} (hx : x < 80) : add64 x 4 &&& highMask 2 = 4 * (x / 4 + 1) := by
  rw [add64_of_lt (by omega), land_highMask (by omega) (by decide)]
  omega

/-- **The character is put in both**, and neither leaves its row or column
by more than one. -/
theorem Shows.place {top : ℕ} {t : Terminal} {s : State} (h : Shows top t s) (hs : OnScreen s)
    (c : Character) : Shows top (t.type c) (place s c) := by
  obtain ⟨hx, hy⟩ := hs
  have hrow := h.row
  rw [Terminal.type, Console.place]
  -- one case for each character that is not drawn, then the drawn ones
  by_cases hn : c = newline
  · rw [if_pos hn, if_pos hn]
    refine ⟨?_, rfl, h.cells, h.below⟩
    change t.row + 1 = top + add64 s.cursorY 1
    rw [add64_of_lt (by omega)]
    omega
  rw [if_neg hn, if_neg hn]
  by_cases hr : c = carriageReturn
  · rw [if_pos hr, if_pos hr]
    exact ⟨h.row, rfl, h.cells, h.below⟩
  rw [if_neg hr, if_neg hr]
  by_cases ht : c = tab
  · rw [if_pos ht, if_pos ht]
    refine ⟨h.row, ?_, h.cells, h.below⟩
    change 4 * (t.col / 4 + 1) = add64 s.cursorX 4 &&& highMask 2
    rw [tab_stop hx, h.col]
  rw [if_neg ht, if_neg ht]
  refine ⟨h.row, ?_, fun y hy' x hx' => ?_, fun r hr' x => ?_⟩
  · change t.col + 1 = add64 s.cursorX 1
    rw [add64_of_lt (by omega), h.col]
  · -- the place written is the cursor's in both, and no other place changes
    dsimp only
    rw [index_eq hx hy, glyph_eq, hrow, h.col]
    by_cases hyy : y = s.cursorY
    · subst hyy
      rw [Function.update_self]
      by_cases hxx : x = s.cursorX
      · subst hxx
        rw [Traced.cell_write_self, Function.update_self]
      · rw [Traced.cell_write_of_ne _ _ (by rw [Ne, index_inj hx' hx]; tauto),
          Function.update_of_ne hxx, h.cells _ hy' x hx']
    · rw [Traced.cell_write_of_ne _ _ (by rw [Ne, index_inj hx' hx]; tauto),
        Function.update_of_ne (by omega), h.cells y hy' x hx']
  · dsimp only at hr' ⊢
    rw [Function.update_of_ne (by omega), h.below r hr']

/-- Where the cursor goes: along its row, or to the start of the next. -/
theorem place_cursor {s : State} (hs : OnScreen s) (c : Character) :
    (place s c).cursorX ≤ 80 ∧ ((place s c).cursorY = s.cursorY ∨
      (place s c).cursorY = s.cursorY + 1 ∧ (place s c).cursorX = 0) := by
  obtain ⟨hx, hy⟩ := hs
  rw [place]
  by_cases hn : c = newline
  · rw [if_pos hn]
    exact ⟨Nat.zero_le 80, Or.inr ⟨add64_of_lt (by omega), rfl⟩⟩
  rw [if_neg hn]
  by_cases hr : c = carriageReturn
  · rw [if_pos hr]
    exact ⟨Nat.zero_le 80, Or.inl rfl⟩
  rw [if_neg hr]
  by_cases ht : c = tab
  · rw [if_pos ht]
    have hstop := tab_stop hx
    exact ⟨by dsimp only; omega, Or.inl rfl⟩
  rw [if_neg ht]
  -- a character that is drawn, at column 79 at most, leaves the cursor at 80 at most
  have hnext : add64 s.cursorX 1 = s.cursorX + 1 := add64_of_lt (by omega)
  exact ⟨by dsimp only; omega, Or.inl rfl⟩

theorem place_within {s : State} (hs : OnScreen s) (c : Character) :
    Traced.Within (80 * 25) s.vgaBuffer (place s c).vgaBuffer := by
  rw [place]
  split_ifs with hn hr ht
  · exact Traced.Within.refl _ _
  · exact Traced.Within.refl _ _
  · exact Traced.Within.refl _ _
  · refine Traced.Within.write s.vgaBuffer (glyph c) ?_
    rw [index_eq hs.x_lt hs.y_lt]
    exact index_lt hs.x_lt hs.y_lt

theorem Shows.wrapLine {top : ℕ} {t : Terminal} {s : State} (h : Shows top t s)
    (hy : s.cursorY < 2 ^ 64 - 1) : Shows top t.wrap (wrapLine s) := by
  rw [Terminal.wrap, Console.wrapLine, h.col]
  by_cases hx : s.cursorX < 80
  · rw [if_pos hx, if_neg (Nat.not_le.2 hx)]
    exact h
  · rw [if_neg hx, if_pos (Nat.not_lt.1 hx)]
    refine ⟨?_, rfl, h.cells, h.below⟩
    have hrow := h.row
    change t.row + 1 = top + add64 s.cursorY 1
    rw [add64_of_lt (by omega)]
    omega

/-- After the step to the next row the cursor is in its row or the next. -/
theorem wrapLine_cursor {s : State} (hs : OnScreen s) (c : Character) :
    (wrapLine (place s c)).cursorX < 80 ∧ ((wrapLine (place s c)).cursorY = s.cursorY ∨
      (wrapLine (place s c)).cursorY = s.cursorY + 1) := by
  have hy := hs.y_lt
  obtain ⟨hle, hrow⟩ := place_cursor hs c
  rw [wrapLine]
  by_cases hx : 80 ≤ (place s c).cursorX
  · -- a new row has been started at column 0 if at all, so this is the only step down
    rw [if_pos hx]
    have hsame : (place s c).cursorY = s.cursorY := by omega
    refine ⟨Nat.succ_pos 79, Or.inr ?_⟩
    change add64 (place s c).cursorY 1 = s.cursorY + 1
    rw [hsame, add64_of_lt (by omega)]
  · rw [if_neg hx]
    omega

theorem wrapLine_vgaBuffer (s : State) : (wrapLine s).vgaBuffer = s.vgaBuffer := by
  rw [wrapLine]
  split_ifs <;> rfl

/-- The loops of the scroll, the first one over all places at once. -/
theorem moveRows_eq (m : Traced (BitVec 16)) :
    moveRows m = (List.range 80).foldl (fun m x => m.write (1920 + x) blank)
      ((List.range 1920).foldl (fun m i => m.write i (m.cell (i + 80))) m) := by
  have hsrc : (fun (m : Traced (BitVec 16)) y => (List.range 80).foldl
      (fun m x => m.write (y * 80 + x) (m.cell ((y + 1) * 80 + x))) m) =
      fun m y => (List.range 80).foldl
        (fun m x => m.write (y * 80 + x) (m.cell (y * 80 + x + 80))) m := by
    funext m y
    have hplace : ∀ x, (y + 1) * 80 + x = y * 80 + x + 80 := fun x => by omega
    simp only [hplace]
  have hone := foldl_range_mul (fun (m : Traced (BitVec 16)) i => m.write i (m.cell (i + 80))) m 24 80
  rw [← hsrc] at hone
  rw [← show 24 * 80 = 1920 from rfl, ← hone]
  rfl

/-- **The scroll moves every row up by one** and clears the last one. -/
theorem moveRows_cell (m : Traced (BitVec 16)) {x y : ℕ} (hx : x < 80) (hy : y < 25) :
    (moveRows m).cell (y * 80 + x) = if y < 24 then m.cell ((y + 1) * 80 + x) else blank := by
  rw [moveRows_eq, Traced.cell_fill, Traced.cell_shift _ (by decide)]
  by_cases hlast : y < 24
  · rw [if_neg (by omega), if_pos (by omega), if_pos hlast, Nat.succ_mul, Nat.add_right_comm]
  · rw [if_pos (by omega), if_neg hlast]

theorem moveRows_within (m : Traced (BitVec 16)) : Traced.Within (80 * 25) m (moveRows m) := by
  rw [moveRows_eq]
  refine Traced.Within.trans (Traced.Within.foldl m fun i hi => ?_)
    (Traced.Within.foldl _ fun i hi => ?_)
  · rw [List.mem_range] at hi
    omega
  · rw [List.mem_range] at hi
    omega

theorem scroll_within (s : State) :
    Traced.Within (80 * 25) s.vgaBuffer (scroll s).vgaBuffer := by
  rw [scroll]
  split_ifs with hy
  · exact moveRows_within s.vgaBuffer
  · exact Traced.Within.refl _ _

/-- **The scroll goes to the terminal's last rows.** Before it the screen
may be one row behind. -/
theorem Shows.scroll {top : ℕ} {t : Terminal} {s : State} (h : Shows top t s)
    (hy : s.cursorY ≤ 25) (htop : top = 0 ∨ 24 ≤ s.cursorY) : Shows t.top t (scroll s) := by
  have hrow := h.row
  rw [Console.scroll, Terminal.top]
  by_cases hend : 25 ≤ s.cursorY
  · rw [if_pos hend]
    have hnew : t.row - 24 = top + 1 := by omega
    rw [hnew]
    refine ⟨?_, h.col, fun y hy' x hx => ?_, fun r hr => h.below r (by omega)⟩
    · change t.row = top + 1 + 24
      omega
    -- every row but the last shows the row below it
    rw [moveRows_cell s.vgaBuffer hx hy']
    by_cases hlast : y < 24
    · rw [if_pos hlast, h.cells (y + 1) (by omega) x hx, show top + (y + 1) = top + 1 + y by omega]
    · -- the row that comes in is one the terminal has not written to
      rw [if_neg hlast, h.below (top + 1 + y) (by omega)]
  · rw [if_neg hend]
    have hsame : t.row - 24 = top := by omega
    rw [hsame]
    exact h

/-- **A screen that follows a terminal**: the cursor is on it, and it shows
the last rows. -/
structure Follows (t : Terminal) (s : State) : Prop extends OnScreen s where
  shows : Shows t.top t s

theorem Follows.put {t : Terminal} {s : State} (h : Follows t s) (c : Character) :
    Follows (t.put c) (vgaPutchar s c) := by
  have hon := h.toOnScreen
  have hy := hon.y_lt
  have hrow : t.row = t.row - 24 + s.cursorY := h.shows.row
  have hplaced := h.shows.place hon c
  obtain ⟨-, hnear⟩ := place_cursor hon c
  have hwrapped := hplaced.wrapLine (by omega)
  obtain ⟨hx', hy'⟩ := wrapLine_cursor hon c
  have hshown : Shows (t.put c).top (t.put c) (vgaPutchar s c) :=
    hwrapped.scroll (by omega) (by rw [Terminal.top]; omega)
  have hend : (t.put c).row = (t.put c).row - 24 + (vgaPutchar s c).cursorY := hshown.row
  refine ⟨⟨?_, by omega⟩, hshown⟩
  have hcol : (t.put c).col = (wrapLine (place s c)).cursorX := hwrapped.col
  rw [← hshown.col, hcol]
  exact hx'

theorem vgaPutchar_within {s : State} (hs : OnScreen s) (c : Character) :
    Traced.Within (80 * 25) s.vgaBuffer (vgaPutchar s c).vgaBuffer := by
  have hscroll := scroll_within (wrapLine (place s c))
  rw [wrapLine_vgaBuffer] at hscroll
  exact (place_within hs c).trans hscroll

theorem consoleEarlyInit_cell (s : State) {i : ℕ} (hi : i < 80 * 25) :
    (consoleEarlyInit s).vgaBuffer.cell i = blank := by
  have hfill := Traced.cell_fill s.vgaBuffer 0 (80 * 25) blank i
  simp only [Nat.zero_add] at hfill
  rw [consoleEarlyInit, hfill, if_pos ⟨Nat.zero_le i, hi⟩]

theorem follows_consoleEarlyInit (s : State) : Follows Terminal.empty (consoleEarlyInit s) := by
  refine ⟨⟨Nat.succ_pos 79, Nat.succ_pos 24⟩, rfl, rfl, fun y hy x hx => ?_, fun _ _ _ => rfl⟩
  exact consoleEarlyInit_cell s (by omega)

theorem consoleEarlyInit_within (s : State) :
    Traced.Within (80 * 25) s.vgaBuffer (consoleEarlyInit s).vgaBuffer := by
  rw [consoleEarlyInit]
  generalize 80 * 25 = n
  exact Traced.Within.foldl s.vgaBuffer fun i hi => List.mem_range.1 hi

/-- Whatever is printed, the screen follows the terminal, and no store
goes past it. -/
theorem follows_run {s : State} {t : Terminal} (h : Follows t s) (cs : List Character) :
    Follows (runFrom Terminal.put t cs) (runFrom vgaPutchar s cs) ∧
      Traced.Within (80 * 25) s.vgaBuffer (runFrom vgaPutchar s cs).vgaBuffer := by
  induction cs generalizing s t with
  | nil => exact ⟨h, Traced.Within.refl _ _⟩
  | cons c cs ih =>
    obtain ⟨hrest, hwithin⟩ := ih (h.put c)
    exact ⟨hrest, (vgaPutchar_within h.toOnScreen c).trans hwithin⟩

/-- **The screen is a window onto the terminal.** After any characters
every store was below `80 * 25`, the cursor is on the screen, and the
screen holds the last 25 rows of what a terminal without an end holds. -/
theorem vgaPutchar_refines (s : State) (cs : List Character) :
    let s' := runFrom vgaPutchar (consoleEarlyInit s) cs
    let t := runFrom Terminal.put Terminal.empty cs
    (∀ i ∈ s'.vgaBuffer.written, i ∈ s.vgaBuffer.written ∨ i < 80 * 25) ∧
      (s'.cursorX < 80 ∧ s'.cursorY < 25) ∧
      (s'.cursorX = t.col ∧ s'.cursorY = t.row - (t.row - 24)) ∧
      ∀ y < 25, ∀ x < 80, s'.vgaBuffer.cell (y * 80 + x) = t.cell (t.row - 24 + y) x := by
  intro s' t
  obtain ⟨hfollows, hwithin⟩ := follows_run (follows_consoleEarlyInit s) cs
  have hrow : t.row = t.row - 24 + s'.cursorY := hfollows.shows.row
  exact ⟨(consoleEarlyInit_within s).trans hwithin, ⟨hfollows.x_lt, hfollows.y_lt⟩,
    ⟨hfollows.shows.col.symm, by omega⟩, hfollows.shows.cells⟩

end Console

end Kos
