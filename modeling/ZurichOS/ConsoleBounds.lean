import Mathlib.Algebra.Order.Ring.Nat
import ZurichOS.ConsoleCore

set_option linter.all false

/-!
In which modes the console stays inside its arrays and the back buffer.
-/

namespace ZurichOS

open Words

/-- The text fits the arrays, and the rows of pixels the back buffer. -/
structure FbMode.Fits (mode : FbMode) : Prop where
  cols : 0 < mode.textCols ∧ mode.textCols ≤ fbMaxCols
  rows : 0 < mode.textRows ∧ mode.textRows ≤ fbScreenRows
  pitch : 4 * mode.width ≤ mode.pitch
  size : mode.pitch * mode.height < 4294967296

namespace FbMode

variable {mode : FbMode} {x y : Int}

theorem Fits.width (fits : mode.Fits) : mode.width < 1032 := by
  have cols := fits.cols.2
  dsimp only [textCols, fbMaxCols] at cols
  omega

theorem Fits.height (fits : mode.Fits) : mode.height < 784 := by
  have rows := fits.rows.2
  dsimp only [textRows, fbScreenRows] at rows
  omega

theorem Fits.size_eq (fits : mode.Fits) : mode.size = mode.pitch * mode.height :=
  u32_eq_of_lt fits.size

/-- A pixel on the screen is in the back buffer. -/
theorem Fits.pixelInside (fits : mode.Fits) {point : Point} (x : 0 ≤ point.x)
    (right : point.x < int32 mode.width) (y : 0 ≤ point.y) (down : point.y < int32 mode.height) :
    mode.PixelInside point := by
  have width := fits.width
  have height := fits.height
  have pitch := fits.pitch
  have size := fits.size
  rw [int32_eq_of_lt (by omega)] at right down
  obtain ⟨col, isCol⟩ := Int.eq_ofNat_of_zero_le x
  obtain ⟨row, isRow⟩ := Int.eq_ofNat_of_zero_le y
  rw [isCol] at right
  rw [isRow] at down
  have row_below : row + 1 ≤ mode.height := by omega
  have above : mode.pitch * (row + 1) ≤ mode.pitch * mode.height :=
    Nat.mul_le_mul_left _ row_below
  have stride : 4 * (row * (mode.pitch / 4)) ≤ mode.pitch * row := by
    rw [Nat.mul_left_comm, Nat.mul_comm mode.pitch row]
    exact Nat.mul_le_mul_left _ (Nat.mul_div_le _ _)
  have last : 4 * (row * (mode.pitch / 4) + col) + 4 ≤ mode.pitch * mode.height := by
    rw [Nat.mul_succ] at above
    omega
  rw [PixelInside, pixel, isCol, isRow, fits.size_eq]
  have toCol : (Int.toNat (col : Int)) = col := Int.toNat_natCast col
  have toRow : (Int.toNat (row : Int)) = row := Int.toNat_natCast row
  rw [toCol, toRow, u32_eq_of_lt (by omega)]
  exact last

theorem Fits.charInside (fits : mode.Fits) (ch : UInt8) (fg bg : Nat) :
    (FbEvent.char x y ch fg bg).Inside mode := by
  intro point member
  obtain ⟨dy, -, inRow⟩ := List.mem_flatMap.mp member
  dsimp only at inRow
  split at inRow
  · cases inRow
  · rename_i onScreen
    rw [not_or, Int.not_lt, Int.not_le] at onScreen
    split at inRow
    · rename_i whole
      obtain ⟨dx, inside, rfl⟩ := List.mem_map.mp inRow
      have near := List.mem_range.mp inside
      exact fits.pixelInside (by dsimp only; omega) (by dsimp only; omega) onScreen.1 onScreen.2
    · obtain ⟨among, within⟩ := List.mem_filter.mp inRow
      obtain ⟨dx, inside, rfl⟩ := List.mem_map.mp among
      rw [decide_eq_true_eq] at within
      exact fits.pixelInside within.1 within.2 onScreen.1 onScreen.2

theorem Fits.hlineInside (fits : mode.Fits) (width : Int) (color : Nat) :
    (FbEvent.hline x y width color).Inside mode := by
  intro point member
  rw [hlinePoints] at member
  split at member
  · cases member
  · rename_i onScreen
    rw [not_or, Int.not_lt, Int.not_le] at onScreen
    obtain ⟨i, inside, rfl⟩ := List.mem_map.mp member
    have near := List.mem_range.mp inside
    refine fits.pixelInside ?_ ?_ onScreen.1 onScreen.2
    · dsimp only
      split
      · omega
      · omega
    · dsimp only
      split at near
      · split
        · omega
        · omega
      · split
        · omega
        · omega

end FbMode

/-- The rows and columns of a highlight are in the array. -/
structure Region.Fits (region : Region) (mode : FbMode) : Prop where
  r0 : region.r0 < fbScreenRows
  r1 : region.r1 < mode.textRows
  c0 : region.c0 < mode.textCols
  c1 : region.c1 < mode.textCols

/-- The upper row of a highlight is a row of the array. -/
def FbCall.Fits : FbCall → Prop
  | .highlight r0 _ r1 _ => min r0 r1 < fbScreenRows
  | _ => True

namespace Console

def AllInside (mode : FbMode) (events : List FbEvent) : Prop := ∀ event ∈ events, event.Inside mode

structure Sound (s : Console) : Prop where
  fits : s.toFbMode.Fits
  write : s.sbWrite < fbScrollbackLines
  count : s.sbCount ≤ fbScrollbackLines
  offset : s.sbOffset ≤ s.sbCount
  allocated : s.scrollback = none → s.sbCount = 0
  region : ∀ region, s.highlighted = some region → region.Fits s.toFbMode
  events : AllInside s.toFbMode s.events

/-- The cursor is on the screen, and everything that was done is inside the arrays and the buffer. -/
structure InBounds (s : Console) : Prop where
  events : AllInside s.toFbMode s.events
  cursorX : s.cursorX < s.textCols
  cursorY : s.cursorY < s.textRows

structure Good (s : Console) : Prop extends Sound s where
  cursorX : s.cursorX < s.textCols
  cursorY : s.cursorY < s.textRows

variable {s after : Console} {mode : FbMode}

theorem allInside_append {first second : List FbEvent} (one : AllInside mode first)
    (two : AllInside mode second) : AllInside mode (first ++ second) :=
  fun event member => (List.mem_append.mp member).elim (one event) (two event)

theorem allInside_flatMap {Index : Type} {list : List Index} {events : Index → List FbEvent}
    (each : ∀ i ∈ list, AllInside mode (events i)) : AllInside mode (list.flatMap events) := by
  intro event member
  obtain ⟨i, listed, inEvents⟩ := List.mem_flatMap.mp member
  exact each i listed event inEvents

theorem Sound.keep (sound : s.Sound) {more : List FbEvent} (inside : AllInside s.toFbMode more)
    (same : after.toFbMode = s.toFbMode) (events : after.events = s.events ++ more)
    (write : after.sbWrite = s.sbWrite) (count : after.sbCount = s.sbCount)
    (offset : after.sbOffset ≤ after.sbCount) (scrollback : after.scrollback = s.scrollback)
    (highlighted : after.highlighted = s.highlighted) : after.Sound := by
  refine ⟨same ▸ sound.fits, write ▸ sound.write, count ▸ sound.count, offset, ?_, ?_, ?_⟩
  · rw [scrollback, count]
    exact sound.allocated
  · rw [same, highlighted]
    exact sound.region
  · rw [same, events]
    exact allInside_append sound.events inside

/-- Only the cursor, the colors or the cells change. -/
theorem Sound.vary (sound : s.Sound) (same : after.toFbMode = s.toFbMode)
    (events : after.events = s.events) (write : after.sbWrite = s.sbWrite)
    (count : after.sbCount = s.sbCount) (offset : after.sbOffset ≤ after.sbCount)
    (scrollback : after.scrollback = s.scrollback)
    (highlighted : after.highlighted = s.highlighted) : after.Sound :=
  @Sound.keep s after sound [] nofun same (events.trans (List.append_nil _).symm) write count offset
    scrollback highlighted

theorem fbClear_inside : AllInside s.toFbMode s.fbClear := by
  intro event member
  rw [List.mem_singleton.mp member]
  exact Nat.div_mul_le_self _ 4

theorem Sound.drawCursor (sound : s.Sound) (color : Nat) : (s.drawCursor color).Sound := by
  refine sound.keep ?_ rfl rfl rfl rfl sound.offset rfl rfl
  intro event member
  rcases List.mem_cons.mp member with rfl | second
  · exact sound.fits.hlineInside _ _
  · rw [List.mem_singleton.mp second]
    exact sound.fits.hlineInside _ _

theorem Sound.drawLine (sound : s.Sound) (row : Nat) (cells : List Cell) :
    AllInside s.toFbMode (drawLine row cells) := by
  intro event member
  obtain ⟨place, -, drawn⟩ := List.mem_filterMap.mp member
  split at drawn
  · cases drawn
    exact sound.fits.charInside _ _ _
  · cases drawn

/-- The rows of the screen are rows of the array. -/
theorem Sound.row (sound : s.Sound) {row : Nat} (inside : row < s.textRows) :
    (FbEvent.screen row s.textCols).Inside s.toFbMode :=
  .inr ⟨Nat.lt_of_lt_of_le inside sound.fits.rows.2, sound.fits.cols.2⟩

theorem Sound.cell (sound : s.Sound) {row col : Nat} (inside : row < fbScreenRows)
    (within : col < s.textCols) : (FbEvent.screen row (col + 1)).Inside s.toFbMode :=
  .inr ⟨inside, Nat.le_trans within sound.fits.cols.2⟩

theorem Sound.fbConsoleRedraw (sound : s.Sound) : s.fbConsoleRedraw.Sound := by
  refine Sound.drawCursor ?_ _
  refine sound.keep (allInside_append fbClear_inside (allInside_flatMap fun r member => ?_)) rfl rfl rfl
    rfl sound.offset rfl rfl
  intro event among
  rcases List.mem_cons.mp among with rfl | drawn
  · exact sound.row (List.mem_range.mp member)
  · exact sound.drawLine r _ event drawn

theorem Sound.live (sound : s.Sound) : s.live.Sound := by
  rw [Console.live]
  split
  · exact (sound.vary rfl rfl rfl rfl (Nat.zero_le _) rfl rfl :
      Sound { s with sbOffset := 0 }).fbConsoleRedraw
  · exact sound

theorem Sound.scrollEvents (sound : s.Sound) : AllInside s.toFbMode s.scrollEvents := by
  have some := sound.fits.rows.1
  have size := sound.fits.size
  have whole : s.pitch * (s.textRows * 16) ≤ s.pitch * s.height :=
    Nat.mul_le_mul_left _ (Nat.div_mul_le_self _ 16)
  have first : s.pitch * 16 ≤ s.pitch * (s.textRows * 16) := Nat.mul_le_mul_left _ (by omega)
  have height := sound.fits.height
  have rows : s.textRows * 16 ≤ s.height := Nat.div_mul_le_self _ 16
  rw [Console.scrollEvents, u32_eq_of_lt (show s.textRows * 16 < 4294967296 by omega), u32_eq_of_lt (by omega),
    u32_eq_of_lt (by omega), sub32_eq first (by omega), Nat.add_sub_cancel' first]
  refine allInside_append (allInside_append (allInside_flatMap fun r member => ?_) ?_) ?_
  · have below := List.mem_range.mp member
    intro event among
    rcases List.mem_cons.mp among with rfl | next
    · exact sound.row (by omega)
    · rw [List.mem_singleton.mp next]
      exact sound.row (by omega)
  · intro event among
    rcases List.mem_cons.mp among with rfl | next
    · exact sound.row (by omega)
    · rw [List.mem_singleton.mp next]
      refine Nat.le_trans whole (Nat.le_of_eq ?_)
      exact sound.fits.size_eq.symm
  · intro event member
    obtain ⟨i, -, rfl⟩ := List.mem_map.mp member
    exact sound.fits.hlineInside _ _

theorem Sound.keepLine (sound : s.Sound) : s.keepLine.Sound := by
  rw [Console.keepLine]
  split
  · exact sound
  · refine ⟨sound.fits, Nat.mod_lt _ (by decide), ?_, ?_, nofun, sound.region, ?_⟩
    · have count := sound.count
      dsimp only
      split
      · assumption
      · exact count
    · have offset := sound.offset
      dsimp only [emit]
      split
      · exact Nat.le_succ_of_le offset
      · exact offset
    · refine allInside_append sound.events fun event member => ?_
      rcases List.mem_cons.mp member with rfl | next
      · exact sound.row sound.fits.rows.1
      · rw [List.mem_singleton.mp next]
        exact .inr ⟨sound.write, sound.fits.cols.2⟩

theorem Sound.scroll (sound : s.Sound) : s.fbConsoleScroll.Sound := by
  have kept := sound.keepLine
  have same : s.keepLine.toFbMode = s.toFbMode := by
    rw [Console.keepLine]
    split
    · rfl
    · rfl
  refine kept.keep ?_ rfl rfl rfl rfl kept.offset rfl rfl
  rw [same]
  exact sound.scrollEvents

theorem Sound.wrap (sound : s.Sound) : s.wrap.Sound ∧ s.wrap.cursorX < s.textCols := by
  rw [Console.wrap]
  split
  · exact ⟨sound.vary rfl rfl rfl rfl sound.offset rfl rfl, sound.fits.cols.1⟩
  · exact ⟨sound, by omega⟩

theorem Sound.putCell (sound : s.Sound) (x : s.cursorX < s.textCols) (y : s.cursorY < s.textRows)
    (ch : UInt8) : (s.putCell ch).Sound := by
  refine sound.keep ?_ rfl rfl rfl rfl sound.offset rfl rfl
  intro event member
  rcases List.mem_cons.mp member with rfl | next
  · exact sound.cell (Nat.lt_of_lt_of_le y sound.fits.rows.2) x
  · rw [List.mem_singleton.mp next]
    exact sound.fits.charInside _ _ _

theorem Good.feed (good : s.Good) (c : UInt8) : (s.feed c).Sound := by
  have offset := good.offset
  rw [Console.feed]
  split
  · exact good.toSound.vary rfl rfl rfl rfl offset rfl rfl
  · split
    · exact good.toSound.vary rfl rfl rfl rfl offset rfl rfl
    · split
      · refine (Sound.wrap ?_).1
        exact good.toSound.vary rfl rfl rfl rfl offset rfl rfl
      · split
        · split
          · have x := good.cursorX
            have back : Sound { s with cursorX := s.cursorX - 1 } :=
              good.toSound.vary rfl rfl rfl rfl offset rfl rfl
            exact back.putCell (Nat.lt_of_le_of_lt (Nat.sub_le _ _) x) good.cursorY 32
          · exact good.toSound
        · have put := good.toSound.putCell good.cursorX good.cursorY c
          exact put.vary rfl rfl rfl rfl put.offset rfl rfl

theorem Sound.settle (sound : s.Sound) (y : Nat) (x : s.cursorX < s.textCols) :
    ∃ after, Console.settle y s = some after ∧ after.Good := by
  induction y generalizing s with
  | zero =>
      have rows := sound.fits.rows.1
      refine ⟨_, if_neg (Nat.ne_of_gt rows), ?_, x, rows⟩
      exact sound.vary rfl rfl rfl rfl sound.offset rfl rfl
  | succ y ih =>
      rw [Console.settle]
      split
      · refine ih sound.scroll ?_
        have same : s.keepLine.cursorX = s.cursorX ∧ s.keepLine.toFbMode = s.toFbMode := by
          rw [Console.keepLine]
          split
          · exact ⟨rfl, rfl⟩
          · exact ⟨rfl, rfl⟩
        have is : s.fbConsoleScroll.cursorX = s.cursorX := same.1
        have mode : s.fbConsoleScroll.toFbMode = s.toFbMode := same.2
        rw [is, mode]
        exact x
      · rename_i onScreen
        exact ⟨_, rfl, sound.vary rfl rfl rfl rfl sound.offset rfl rfl, x, Nat.not_le.mp onScreen⟩

theorem Good.advance (good : s.Good) (c : UInt8) :
    ∃ after, s.advance c = some after ∧ after.Good := by
  obtain ⟨sound, x⟩ := (good.feed c).wrap
  refine sound.settle _ ?_
  have same : (s.feed c).wrap.toFbMode = (s.feed c).toFbMode := by
    rw [Console.wrap]
    split
    · rfl
    · rfl
  rwa [same]

theorem Good.advances (good : s.Good) (str : List UInt8) :
    ∃ after, str.foldlM Console.advance s = some after ∧ after.Good := by
  induction str generalizing s with
  | nil => exact ⟨s, rfl, good⟩
  | cons c rest ih =>
      obtain ⟨next, first, kept⟩ := good.advance c
      rw [List.foldlM_cons, first]
      exact ih kept

theorem Good.drawCursor (good : s.Good) (color : Nat) : (s.drawCursor color).Good :=
  ⟨good.toSound.drawCursor color, good.cursorX, good.cursorY⟩

theorem Good.live (good : s.Good) : s.live.Good := by
  refine ⟨good.toSound.live, ?_, ?_⟩
  · rw [Console.live]
    split
    · exact good.cursorX
    · exact good.cursorX
  · rw [Console.live]
    split
    · exact good.cursorY
    · exact good.cursorY

theorem Sound.hlDrawCell (sound : s.Sound) (inverted : Bool) {row col : Nat}
    (inside : row < fbScreenRows) (within : col < s.textCols) :
    AllInside s.toFbMode (s.hlDrawCell inverted row col) := by
  intro event member
  rcases List.mem_cons.mp member with rfl | next
  · exact sound.cell inside within
  · rw [List.mem_singleton.mp next]
    split
    · exact sound.fits.charInside _ _ _
    · exact sound.fits.charInside _ _ _

theorem Sound.hlDraw (sound : s.Sound) (inverted : Bool) {region : Region}
    (fits : region.Fits s.toFbMode) : AllInside s.toFbMode (s.hlDraw inverted region) := by
  have r0 := fits.r0
  have r1 := fits.r1
  have c0 := fits.c0
  have c1 := fits.c1
  have rows := sound.fits.rows.2
  have some := sound.fits.cols.1
  rw [Console.hlDraw]
  split
  · refine allInside_flatMap fun c member => sound.hlDrawCell inverted r0 ?_
    have among := List.mem_range'_1.mp member
    omega
  · refine allInside_append (allInside_append ?_ ?_) ?_
    · refine allInside_flatMap fun c member => sound.hlDrawCell inverted r0 ?_
      have among := List.mem_range'_1.mp member
      omega
    · refine allInside_flatMap fun r member => allInside_flatMap fun c inside =>
        sound.hlDrawCell inverted ?_ (List.mem_range.mp inside)
      have among := List.mem_range'_1.mp member
      omega
    · refine allInside_flatMap fun c member => sound.hlDrawCell inverted ?_ ?_
      · exact Nat.lt_of_lt_of_le r1 rows
      · have among := List.mem_range.mp member
        omega

theorem Sound.clearHighlight (sound : s.Sound) : s.fbConsoleClearHighlight.Sound := by
  rw [fbConsoleClearHighlight]
  split
  · exact sound
  · rename_i region isRegion
    exact ⟨sound.fits, sound.write, sound.count, sound.offset, sound.allocated, nofun,
      allInside_append sound.events (sound.hlDraw false (sound.region region isRegion))⟩

theorem Good.clearHighlight (good : s.Good) : s.fbConsoleClearHighlight.Good := by
  refine ⟨good.toSound.clearHighlight, ?_, ?_⟩
  · rw [fbConsoleClearHighlight]
    split
    · exact good.cursorX
    · exact good.cursorX
  · rw [fbConsoleClearHighlight]
    split
    · exact good.cursorY
    · exact good.cursorY

theorem clamp_lt {value count : Nat} (some : 0 < count) (small : count < 4294967296) :
    (if count ≤ value then sub32 count 1 else value) < count := by
  split
  · rw [sub32_eq some small]
    exact Nat.sub_lt some (by decide)
  · rename_i inside
    exact Nat.not_le.mp inside

theorem Good.highlight (good : s.Good) {r0 c0 r1 c1 : Nat} (fits : min r0 r1 < fbScreenRows) :
    (s.fbConsoleHighlight r0 c0 r1 c1).Good := by
  have cleared := good.clearHighlight
  have same : s.fbConsoleClearHighlight.toFbMode = s.toFbMode := by
    rw [fbConsoleClearHighlight]
    split
    · rfl
    · rfl
  have cols := good.fits.cols
  have rows := good.fits.rows
  have few_cols : s.textCols < 4294967296 := Nat.lt_of_le_of_lt cols.2 (by decide)
  have few_rows : s.textRows < 4294967296 := Nat.lt_of_le_of_lt rows.2 (by decide)
  rw [fbConsoleHighlight]
  generalize isRegion : (if r1 < r0 ∨ r0 = r1 ∧ c1 < c0 then ⟨r1, c1, r0, c0⟩
    else ⟨r0, c0, r1, c1⟩ : Region) = region
  have upper : region.r0 < fbScreenRows := by
    rw [← isRegion]
    split
    · dsimp only
      omega
    · dsimp only
      omega
  have inside : Region.Fits ⟨region.r0, if s.textCols ≤ region.c0 then sub32 s.textCols 1 else region.c0,
      if s.textRows ≤ region.r1 then sub32 s.textRows 1 else region.r1,
      if s.textCols ≤ region.c1 then sub32 s.textCols 1 else region.c1⟩
      s.fbConsoleClearHighlight.toFbMode := by
    rw [same]
    exact ⟨upper, clamp_lt rows.1 few_rows, clamp_lt cols.1 few_cols, clamp_lt cols.1 few_cols⟩
  refine ⟨⟨cleared.fits, cleared.write, cleared.count, cleared.offset, cleared.allocated, ?_, ?_⟩,
    cleared.cursorX, cleared.cursorY⟩
  · rintro _ ⟨⟩
    exact inside
  · exact allInside_append cleared.events (cleared.toSound.hlDraw true inside)

theorem Sound.windowLine (sound : s.Sound) (r : Nat) :
    AllInside s.toFbMode (s.windowLine r).1 := by
  have count := sound.count
  rw [Console.windowLine]
  dsimp only
  split
  · exact nofun
  · split
    · rename_i nonneg old
      split
      · rename_i missing
        have none := sound.allocated missing
        omega
      · intro event member
        rw [List.mem_singleton.mp member]
        refine .inr ⟨?_, sound.fits.cols.2⟩
        have below := Int.tmod_lt_of_pos ((s.sbWrite : Int) - s.sbCount +
          (s.sbCount - s.sbOffset + r) + fbScrollbackLines)
          (show (0 : Int) < fbScrollbackLines by decide)
        dsimp only [fbScrollbackLines] at below ⊢
        omega
    · split
      · rename_i nonneg live below
        intro event member
        rw [List.mem_singleton.mp member]
        exact sound.row (by omega)
      · exact nofun

theorem Sound.render (sound : s.Sound) : s.renderScrollback.Sound := by
  refine sound.keep ?_ rfl rfl rfl rfl sound.offset rfl rfl
  refine allInside_append (allInside_append fbClear_inside ?_) ?_
  · exact allInside_flatMap fun r _ =>
      allInside_append (sound.windowLine r) (sound.drawLine r _)
  · rw [scrollMark]
    split
    · intro event member
      obtain ⟨place, -, rfl⟩ := List.mem_map.mp member
      exact sound.fits.charInside _ _ _
    · exact nofun

theorem Good.move (good : s.Good) {offset : Nat} (within : offset ≤ s.sbCount) :
    Good { s with sbOffset := offset }.renderScrollback := by
  have moved : Sound { s with sbOffset := offset } :=
    good.toSound.vary rfl rfl rfl rfl within rfl rfl
  exact ⟨moved.render, good.cursorX, good.cursorY⟩

theorem Good.scrollUp (good : s.Good) (lines : Nat) : (s.fbConsoleScrollUp lines).Good := by
  rw [fbConsoleScrollUp]
  split
  · exact good
  · refine good.move ?_
    split
    · exact Nat.le_refl _
    · rename_i within
      exact Nat.not_lt.mp within

theorem Good.scrollDown (good : s.Good) (lines : Nat) : (s.fbConsoleScrollDown lines).Good := by
  rw [fbConsoleScrollDown]
  split
  · exact good
  · split
    · have live : Sound { s with sbOffset := 0 } :=
        good.toSound.vary rfl rfl rfl rfl (Nat.zero_le _) rfl rfl
      exact ⟨live.fbConsoleRedraw, good.cursorX, good.cursorY⟩
    · exact good.move (Nat.le_trans (Nat.sub_le _ _) good.offset)

theorem Good.clear (good : s.Good) : s.fbConsoleClear.Good := by
  refine ⟨?_, good.fits.cols.1, good.fits.rows.1⟩
  refine good.toSound.keep (allInside_append ?_ fbClear_inside) rfl rfl rfl rfl (Nat.zero_le _)
    rfl rfl
  intro event member
  obtain ⟨r, inside, rfl⟩ := List.mem_map.mp member
  exact good.toSound.row (List.mem_range.mp inside)

theorem Good.setCursorPos (good : s.Good) (x y : Nat) : (s.fbConsoleSetCursorPos x y).Good := by
  have cols := good.fits.cols
  have rows := good.fits.rows
  have drawn := good.toSound.drawCursor s.bgColor
  have moved : Good { s.drawCursor s.bgColor with
      cursorX := if s.textCols ≤ x then sub32 s.textCols 1 else x
      cursorY := if s.textRows ≤ y then sub32 s.textRows 1 else y } :=
    ⟨drawn.vary rfl rfl rfl rfl drawn.offset rfl rfl,
      clamp_lt cols.1 (Nat.lt_of_le_of_lt cols.2 (by decide)),
      clamp_lt rows.1 (Nat.lt_of_le_of_lt rows.2 (by decide))⟩
  exact moved.drawCursor fbTermCursor

/-- Every call returns and keeps the console good. -/
theorem Good.step (good : s.Good) (call : FbCall) (fits : call.Fits) :
    ∃ after, s.step call = some after ∧ after.Good := by
  have drawn := good.live.drawCursor s.bgColor
  cases call with
  | init =>
      refine ⟨_, rfl, ?_, good.fits.cols.1, good.fits.rows.1⟩
      exact good.toSound.keep fbClear_inside rfl rfl rfl rfl good.offset rfl rfl
  | clear => exact ⟨_, rfl, good.clear⟩
  | putchar c =>
      obtain ⟨put, advances, kept⟩ := drawn.advance c
      exact ⟨_, Option.map_eq_some_iff.mpr ⟨put, advances, rfl⟩, kept.drawCursor _⟩
  | puts str =>
      obtain ⟨put, advances, kept⟩ := drawn.advances str.chars
      exact ⟨_, Option.map_eq_some_iff.mpr ⟨put, advances, rfl⟩, kept.drawCursor _⟩
  | setColor fg bg =>
      refine ⟨_, rfl, ?_, good.cursorX, good.cursorY⟩
      exact good.toSound.vary rfl rfl rfl rfl good.offset rfl rfl
  | setCursorPos x y => exact ⟨_, rfl, good.setCursorPos x y⟩
  | highlight r0 c0 r1 c1 => exact ⟨_, rfl, good.highlight fits⟩
  | clearHighlight => exact ⟨_, rfl, good.clearHighlight⟩
  | scrollUp lines => exact ⟨_, rfl, good.scrollUp lines⟩
  | scrollDown lines => exact ⟨_, rfl, good.scrollDown lines⟩
  | scrollReset => exact ⟨_, rfl, good.live⟩

theorem Good.steps (good : s.Good) (calls : List FbCall) (fits : ∀ call ∈ calls, call.Fits) :
    ∃ after, calls.foldlM Console.step s = some after ∧ after.Good := by
  induction calls generalizing s with
  | nil => exact ⟨s, rfl, good⟩
  | cons call rest ih =>
      obtain ⟨next, first, kept⟩ := good.step call (fits call List.mem_cons_self)
      rw [List.foldlM_cons, first]
      exact ih kept fun other member => fits other (List.mem_cons_of_mem _ member)

/-- In a mode that fits, every run whose highlights start in a row of the array stays inside the
arrays and the back buffer, with the cursor on the screen. -/
theorem console_in_bounds (mode : FbMode) (fits : mode.Fits) (allocated : Bool)
    (calls : List FbCall) (each : ∀ call ∈ calls, call.Fits) :
    ∃ s, run mode 32 allocated calls = some s ∧ s.InBounds := by
  have start : Good { mode with
      cursorX := 0, cursorY := 0, fgColor := fbTermFg, bgColor := fbTermBg
      screen := fun _ _ => ⟨0, 0, 0⟩
      scrollback := if allocated then some fun _ => List.replicate fbMaxCols ⟨0, 0, 0⟩ else none
      sbWrite := 0, sbCount := 0, sbOffset := 0, highlighted := none, log := []
      events := [.bytes (mode.size / 4 * 4)] } := by
    refine ⟨⟨fits, Nat.zero_lt_succ _, Nat.zero_le _, Nat.le_refl 0, fun _ => rfl, nofun, ?_⟩,
      fits.cols.1, fits.rows.1⟩
    intro event member
    rw [List.mem_singleton.mp member]
    exact Nat.div_mul_le_self _ 4
  obtain ⟨s, runs, good⟩ := start.steps calls each
  exact ⟨s, runs, good.events, good.cursorX, good.cursorY⟩

def svga : FbMode := ⟨1024, 768, 4096⟩

theorem console_in_bounds_svga : ∃ s, run svga 32 true
    [.puts (.ofString "zurich"), .highlight 0 0 50 3, .scrollUp 1] = some s ∧ s.InBounds := by
  refine console_in_bounds svga ⟨by decide, by decide, by decide, by decide⟩ true _ ?_
  intro call member
  rcases List.mem_cons.mp member with rfl | rest
  · trivial
  · rcases List.mem_cons.mp rest with rfl | last
    · exact Nat.zero_lt_succ _
    · rw [List.mem_singleton.mp last]
      trivial

def fullHd : FbMode := ⟨1920, 1080, 7680⟩

/-- A row of a wide mode has more columns than the array. -/
theorem wide_mode_overruns : ∃ s, run fullHd 32 true [.setCursorPos 200 0, .putchar 97] = some s ∧
    ¬ s.InBounds := by
  refine ⟨_, rfl, fun inside => ?_⟩
  have written := inside.events (.screen 0 201) (List.mem_of_getElem? (i := 7) rfl)
  have outside : ¬ (201 = 0 ∨ 0 < fbScreenRows ∧ 201 ≤ fbMaxCols) := by decide
  exact outside written

end Console

end ZurichOS
