import Mathlib.Logic.Function.Basic
import ZurichOS.CString
import ZurichOS.LineDrawing

/-!
The text console of `framebuffer.c`: the cells on the screen, the lines that have scrolled off it,
and what each call does to the arrays and to the back buffer.
-/

namespace ZurichOS

open Words

abbrev fbScrollbackLines : Nat := 1000
abbrev fbMaxCols : Nat := 128
abbrev fbScreenRows : Nat := 48

structure Cell where
  ch : UInt8
  fg : Nat
  bg : Nat

/-- What is done to the arrays and to the back buffer: cells of a row in front of some column,
bytes from the start of the back buffer, a character and a horizontal line at a place. -/
inductive FbEvent where
  | screen (row stop : Nat)
  | scrollback (row stop : Nat)
  | bytes (count : Nat)
  | char (x y : Int) (ch : UInt8) (fg bg : Nat)
  | hline (x y width : Int) (color : Nat)

structure Region where
  r0 : Nat
  c0 : Nat
  r1 : Nat
  c1 : Nat

namespace FbMode

def textCols (mode : FbMode) : Nat := mode.width / 8
def textRows (mode : FbMode) : Nat := mode.height / 16
def size (mode : FbMode) : Nat := u32 (mode.pitch * mode.height)

/-- The pixels that `fb_draw_char` sets. -/
def charPoints (mode : FbMode) (x y : Int) : List Point :=
  (List.range 16).flatMap fun dy : Nat =>
    let py := y + dy
    if py < 0 ∨ int32 mode.height ≤ py then []
    else if 0 ≤ x ∧ x + 7 < int32 mode.width then (List.range 8).map fun dx : Nat => ⟨x + dx, py⟩
    else
      ((List.range 8).map fun dx : Nat => (⟨x + dx, py⟩ : Point)).filter fun point =>
        0 ≤ point.x ∧ point.x < int32 mode.width

/-- The pixels that `fb_draw_hline` sets. -/
def hlinePoints (mode : FbMode) (x y width : Int) : List Point :=
  if y < 0 ∨ int32 mode.height ≤ y then []
  else
    let clipped := if x < 0 then width + x else width
    let left := if x < 0 then 0 else x
    let clipped := if int32 mode.width < left + clipped then int32 mode.width - left else clipped
    (List.range clipped.toNat).map fun i : Nat => ⟨left + i, y⟩

end FbMode

/-- The pixel is inside the back buffer, and an access of the arrays inside them. -/
def FbMode.PixelInside (mode : FbMode) (point : Point) : Prop :=
  4 * mode.pixel point + 4 ≤ mode.size

def FbEvent.Inside (mode : FbMode) : FbEvent → Prop
  | screen row stop => stop = 0 ∨ row < fbScreenRows ∧ stop ≤ fbMaxCols
  | scrollback row stop => stop = 0 ∨ row < fbScrollbackLines ∧ stop ≤ fbMaxCols
  | bytes count => count ≤ mode.size
  | char x y _ _ _ => ∀ point ∈ mode.charPoints x y, mode.PixelInside point
  | hline x y width _ => ∀ point ∈ mode.hlinePoints x y width, mode.PixelInside point

/-- The static variables of the driver.  The lines that have scrolled off the screen and the accesses
that were made are recorded beside them. -/
structure Console extends FbMode where
  cursorX : Nat
  cursorY : Nat
  fgColor : Nat
  bgColor : Nat
  screen : Nat → Nat → Cell
  scrollback : Option (Nat → List Cell)
  sbWrite : Nat
  sbCount : Nat
  sbOffset : Nat
  highlighted : Option Region
  log : List (List Cell)
  events : List FbEvent

def rgb (r g b : Nat) : Nat := r * 65536 + g * 256 + b
def fbTermBg : Nat := rgb 30 30 46
def fbTermFg : Nat := rgb 205 214 244
def fbTermCursor : Nat := rgb 245 224 220
def fbTermYellow : Nat := rgb 249 226 175

/-- `cell->ch > ' '` for a signed `char`. -/
def Cell.Visible (cell : Cell) : Prop := 32 < cell.ch ∧ cell.ch < 128

instance (cell : Cell) : Decidable cell.Visible := inferInstanceAs (Decidable (_ ∧ _))

namespace Console

def emit (s : Console) (events : List FbEvent) : Console := { s with events := s.events ++ events }

def blank (s : Console) : Cell := ⟨32, s.fgColor, s.bgColor⟩

def line (s : Console) (row : Nat) : List Cell := (List.range s.textCols).map (s.screen row)

def fbClear (s : Console) : List FbEvent := [.bytes (s.size / 4 * 4)]

def fbFillRect (x y w : Int) (h : Nat) (color : Nat) : List FbEvent :=
  (List.range h).map fun i : Nat => .hline x (y + i) w color

def keepLine (s : Console) : Console :=
  match s.scrollback with
  | none => s
  | some rows =>
      { s.emit [.screen 0 s.textCols, .scrollback s.sbWrite s.textCols] with
        scrollback := some (Function.update rows s.sbWrite (s.line 0))
        sbWrite := (s.sbWrite + 1) % fbScrollbackLines
        sbCount := if s.sbCount < fbScrollbackLines then s.sbCount + 1 else s.sbCount }

/-- The rows move up, and the last one is cleared. -/
def scrolledScreen (s : Console) (row col : Nat) : Cell :=
  if s.textCols ≤ col then s.screen row col
  else if row + 1 < s.textRows then s.screen (row + 1) col
  else if row + 1 = s.textRows then s.blank
  else s.screen row col

def scrollEvents (s : Console) : List FbEvent :=
  let rowBytes := u32 (s.pitch * 16)
  let totalTextBytes := u32 (s.pitch * u32 (s.textRows * 16))
  ((List.range (s.textRows - 1)).flatMap fun r =>
      [.screen r s.textCols, .screen (r + 1) s.textCols]) ++
    [.screen (s.textRows - 1) s.textCols, .bytes (rowBytes + sub32 totalTextBytes rowBytes)] ++
    fbFillRect 0 ((s.textRows - 1) * 16 : Nat) s.width 16 s.bgColor

def fbConsoleScroll (s : Console) : Console :=
  { s.keepLine.emit s.scrollEvents with screen := s.scrolledScreen, log := s.log ++ [s.line 0] }

def drawCursor (s : Console) (color : Nat) : Console :=
  s.emit [.hline (s.cursorX * 8 : Nat) (s.cursorY * 16 + 14 : Nat) 8 color,
    .hline (s.cursorX * 8 : Nat) (s.cursorY * 16 + 15 : Nat) 8 color]

def fbConsoleInit (s : Console) : Console :=
  { s.emit s.fbClear with cursorX := 0, cursorY := 0, fgColor := fbTermFg, bgColor := fbTermBg }

def fbConsoleClear (s : Console) : Console :=
  { s.emit (((List.range s.textRows).map fun r => .screen r s.textCols) ++ s.fbClear) with
    cursorX := 0, cursorY := 0, sbOffset := 0
    screen := fun row col =>
      if row < s.textRows ∧ col < s.textCols then s.blank else s.screen row col }

/-- The cells of a line that are drawn in a row of the screen. -/
def drawLine (row : Nat) (cells : List Cell) : List FbEvent :=
  cells.zipIdx.filterMap fun place =>
    if place.1.Visible then
      some (.char (place.2 * 8 : Nat) (row * 16 : Nat) place.1.ch place.1.fg place.1.bg)
    else none

def fbConsoleRedraw (s : Console) : Console :=
  (s.emit (s.fbClear ++ (List.range s.textRows).flatMap fun r =>
    .screen r s.textCols :: drawLine r (s.line r))).drawCursor fbTermCursor

/-- The cell at the cursor gets a character. -/
def putCell (s : Console) (ch : UInt8) : Console :=
  { s.emit [.screen s.cursorY (s.cursorX + 1),
      .char (s.cursorX * 8 : Nat) (s.cursorY * 16 : Nat) ch s.fgColor s.bgColor] with
    screen := Function.update s.screen s.cursorY
      (Function.update (s.screen s.cursorY) s.cursorX ⟨ch, s.fgColor, s.bgColor⟩) }

def wrap (s : Console) : Console :=
  if s.textCols ≤ s.cursorX then { s with cursorX := 0, cursorY := s.cursorY + 1 } else s

def feed (s : Console) (c : UInt8) : Console :=
  if c = 10 then { s with cursorX := 0, cursorY := s.cursorY + 1 }
  else if c = 13 then { s with cursorX := 0 }
  else if c = 9 then { s with cursorX := (s.cursorX + 8) / 8 * 8 }.wrap
  else if c = 8 then
    if 0 < s.cursorX then { s with cursorX := s.cursorX - 1 }.putCell 32 else s
  else { s.putCell c with cursorX := s.cursorX + 1 }

/-- The loop that scrolls until the cursor is on the screen.  With no rows at all it never is. -/
def settle : Nat → Console → Option Console
  | 0, s => if s.textRows = 0 then none else some { s with cursorY := 0 }
  | y + 1, s =>
      if s.textRows ≤ y + 1 then settle y s.fbConsoleScroll else some { s with cursorY := y + 1 }

def advance (s : Console) (c : UInt8) : Option Console :=
  let fed := (s.feed c).wrap
  settle fed.cursorY fed

/-- Output goes to the live screen. -/
def live (s : Console) : Console :=
  if 0 < s.sbOffset then { s with sbOffset := 0 }.fbConsoleRedraw else s

def fbConsolePutchar (s : Console) (c : UInt8) : Option Console :=
  ((s.live.drawCursor s.bgColor).advance c).map fun s => s.drawCursor fbTermCursor

def fbConsolePuts (s : Console) (str : CString) : Option Console :=
  (str.chars.foldlM advance (s.live.drawCursor s.bgColor)).map fun s => s.drawCursor fbTermCursor

def fbConsoleSetCursorPos (s : Console) (x y : Nat) : Console :=
  let x := if s.textCols ≤ x then sub32 s.textCols 1 else x
  let y := if s.textRows ≤ y then sub32 s.textRows 1 else y
  { s.drawCursor s.bgColor with cursorX := x, cursorY := y }.drawCursor fbTermCursor

def hlDrawCell (s : Console) (inverted : Bool) (row col : Nat) : List FbEvent :=
  let cell := s.screen row col
  let ch := if cell.Visible then cell.ch else 32
  [.screen row (col + 1),
    if inverted then .char (col * 8 : Nat) (row * 16 : Nat) ch fbTermBg fbTermFg
    else .char (col * 8 : Nat) (row * 16 : Nat) ch cell.fg cell.bg]

def hlDraw (s : Console) (inverted : Bool) (region : Region) : List FbEvent :=
  if region.r0 = region.r1 then
    (List.range' region.c0 (region.c1 + 1 - region.c0)).flatMap (s.hlDrawCell inverted region.r0)
  else
    (List.range' region.c0 (s.textCols - region.c0)).flatMap (s.hlDrawCell inverted region.r0) ++
      ((List.range' (region.r0 + 1) (region.r1 - (region.r0 + 1))).flatMap fun r =>
        (List.range s.textCols).flatMap (s.hlDrawCell inverted r)) ++
      (List.range (region.c1 + 1)).flatMap (s.hlDrawCell inverted region.r1)

def fbConsoleClearHighlight (s : Console) : Console :=
  match s.highlighted with
  | none => s
  | some region => { s.emit (s.hlDraw false region) with highlighted := none }

def fbConsoleHighlight (s : Console) (r0 c0 r1 c1 : Nat) : Console :=
  let region : Region :=
    if r1 < r0 ∨ r0 = r1 ∧ c1 < c0 then ⟨r1, c1, r0, c0⟩ else ⟨r0, c0, r1, c1⟩
  let region : Region :=
    { r0 := region.r0
      c0 := if s.textCols ≤ region.c0 then sub32 s.textCols 1 else region.c0
      r1 := if s.textRows ≤ region.r1 then sub32 s.textRows 1 else region.r1
      c1 := if s.textCols ≤ region.c1 then sub32 s.textCols 1 else region.c1 }
  let cleared := s.fbConsoleClearHighlight
  { cleared.emit (cleared.hlDraw true region) with highlighted := some region }

/-- The line that is shown in a row, and where it is read.  No index is inside of an array that was
not allocated. -/
def windowLine (s : Console) (r : Nat) : List FbEvent × List Cell :=
  let logical : Int := s.sbCount - s.sbOffset + r
  if logical < 0 then ([], [])
  else if logical < s.sbCount then
    let idx := ((s.sbWrite : Int) - s.sbCount + logical + fbScrollbackLines).tmod fbScrollbackLines
    match s.scrollback with
    | none => ([.scrollback fbScrollbackLines s.textCols], [])
    | some rows => ([.scrollback idx.toNat s.textCols], rows idx.toNat)
  else
    let screenRow := logical - s.sbCount
    if screenRow < s.textRows then
      ([.screen screenRow.toNat s.textCols], s.line screenRow.toNat)
    else ([], [])

def scrollMark (s : Console) : List FbEvent :=
  if 0 < s.sbOffset then
    (CString.ofString "[SCROLL]").chars.zipIdx.map fun place =>
      .char (((s.textCols : Int) - 8) * 8 + place.2 * 8) 0 place.1 fbTermYellow fbTermBg
  else []

def renderScrollback (s : Console) : Console :=
  s.emit (s.fbClear ++ ((List.range s.textRows).flatMap fun r =>
    (s.windowLine r).1 ++ drawLine r (s.windowLine r).2) ++ s.scrollMark)

def fbConsoleScrollUp (s : Console) (lines : Nat) : Console :=
  if s.sbCount = 0 then s
  else
    let offset := u32 (s.sbOffset + lines)
    { s with sbOffset := if s.sbCount < offset then s.sbCount else offset }.renderScrollback

def fbConsoleScrollDown (s : Console) (lines : Nat) : Console :=
  if s.sbOffset = 0 then s
  else if s.sbOffset ≤ lines then { s with sbOffset := 0 }.fbConsoleRedraw
  else { s with sbOffset := s.sbOffset - lines }.renderScrollback

def fbConsoleScrollReset (s : Console) : Console := s.live

end Console

inductive FbCall where
  | init
  | clear
  | putchar (c : UInt8)
  | puts (str : CString)
  | setColor (fg bg : Nat)
  | setCursorPos (x y : Nat)
  | highlight (r0 c0 r1 c1 : Nat)
  | clearHighlight
  | scrollUp (lines : Nat)
  | scrollDown (lines : Nat)
  | scrollReset

namespace Console

/-- A call that returns. -/
def step (s : Console) : FbCall → Option Console
  | .init => some s.fbConsoleInit
  | .clear => some s.fbConsoleClear
  | .putchar c => s.fbConsolePutchar c
  | .puts str => s.fbConsolePuts str
  | .setColor fg bg => some { s with fgColor := fg, bgColor := bg }
  | .setCursorPos x y => some (s.fbConsoleSetCursorPos x y)
  | .highlight r0 c0 r1 c1 => some (s.fbConsoleHighlight r0 c0 r1 c1)
  | .clearHighlight => some s.fbConsoleClearHighlight
  | .scrollUp lines => some (s.fbConsoleScrollUp lines)
  | .scrollDown lines => some (s.fbConsoleScrollDown lines)
  | .scrollReset => some s.fbConsoleScrollReset

/-- What `fb_init` leaves behind, given whether the scrollback could be allocated. -/
def fbInit (mode : FbMode) (bpp : Nat) (allocated : Bool) : Option Console :=
  if bpp ≠ 32 then none
  else
    some { mode with
      cursorX := 0
      cursorY := 0
      fgColor := fbTermFg
      bgColor := fbTermBg
      screen := fun _ _ => ⟨0, 0, 0⟩
      scrollback := if allocated then some fun _ => List.replicate fbMaxCols ⟨0, 0, 0⟩ else none
      sbWrite := 0
      sbCount := 0
      sbOffset := 0
      highlighted := none
      log := []
      events := [.bytes (mode.size / 4 * 4)] }

def run (mode : FbMode) (bpp : Nat) (allocated : Bool) (calls : List FbCall) : Option Console :=
  (fbInit mode bpp allocated).bind fun s => calls.foldlM step s

end Console

end ZurichOS
