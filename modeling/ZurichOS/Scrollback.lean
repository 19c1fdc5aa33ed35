import Mathlib.Data.List.GetD
import ZurichOS.ConsoleCore
import ZurichOS.LastEntries

/-!
The scrollback has the last of the lines that have scrolled off the screen, and the window shows
them in front of the live rows.
-/

namespace ZurichOS

open RingBuffer

namespace Console

/-- The scrollback has the last lines of the log, and the window does not start in front of them. -/
structure Window (s : Console) (rows : Nat → List Cell) : Prop where
  scrollback : s.scrollback = some rows
  keeps : Keeps rows fbScrollbackLines s.sbWrite s.sbCount s.log
  offset : s.sbOffset ≤ s.sbCount

/-- The mode is fixed, and the scrollback is there. -/
def HasWindow (s : Console) (mode : FbMode) : Prop := s.toFbMode = mode ∧ ∃ rows, s.Window rows

/-- The lines of the scrollback and behind them the live rows. -/
def lines (s : Console) : List (List Cell) :=
  s.log.drop (s.log.length - s.sbCount) ++ (List.range s.textRows).map s.line

variable {s after : Console} {mode : FbMode} {rows : Nat → List Cell}

theorem Window.keep (window : s.Window rows) (scrollback : after.scrollback = s.scrollback)
    (write : after.sbWrite = s.sbWrite) (count : after.sbCount = s.sbCount)
    (log : after.log = s.log) (offset : after.sbOffset ≤ after.sbCount) : after.Window rows := by
  refine ⟨scrollback.trans window.scrollback, ?_, offset⟩
  rw [write, count, log]
  exact window.keeps

theorem Window.scroll (window : s.Window rows) :
    s.fbConsoleScroll.Window (Function.update rows s.sbWrite (s.line 0)) := by
  have pushed := window.keeps.push (s.line 0)
  have is : s.keepLine = { s.emit [.screen 0 s.textCols, .scrollback s.sbWrite s.textCols] with
      scrollback := some (Function.update rows s.sbWrite (s.line 0))
      sbWrite := (s.sbWrite + 1) % fbScrollbackLines
      sbCount := if s.sbCount < fbScrollbackLines then s.sbCount + 1 else s.sbCount } := by
    rw [keepLine, window.scrollback]
  have offset := window.offset
  rw [fbConsoleScroll, is]
  refine ⟨rfl, pushed, ?_⟩
  dsimp only [emit]
  split
  · exact Nat.le_succ_of_le offset
  · exact offset

theorem scroll_mode (s : Console) : s.fbConsoleScroll.toFbMode = s.toFbMode := by
  have kept : s.keepLine.toFbMode = s.toFbMode := by
    rw [keepLine]
    split
    · rfl
    · rfl
  exact kept

theorem HasWindow.keep (has : s.HasWindow mode) (same : after.toFbMode = s.toFbMode)
    (scrollback : after.scrollback = s.scrollback) (write : after.sbWrite = s.sbWrite) (count : after.sbCount = s.sbCount)
    (log : after.log = s.log) (offset : after.sbOffset ≤ after.sbCount) : after.HasWindow mode := by
  obtain ⟨isMode, rows, window⟩ := has
  exact ⟨same.trans isMode, rows, window.keep scrollback write count log offset⟩

theorem HasWindow.offset (has : s.HasWindow mode) : s.sbOffset ≤ s.sbCount := by
  obtain ⟨-, rows, window⟩ := has
  exact window.offset

theorem HasWindow.wrap (has : s.HasWindow mode) : s.wrap.HasWindow mode := by
  rw [Console.wrap]
  split
  · exact has.keep rfl rfl rfl rfl rfl has.offset
  · exact has

theorem HasWindow.feed (has : s.HasWindow mode) (c : UInt8) : (s.feed c).HasWindow mode := by
  rw [Console.feed]
  split
  · exact has.keep rfl rfl rfl rfl rfl has.offset
  · split
    · exact has.keep rfl rfl rfl rfl rfl has.offset
    · split
      · refine HasWindow.wrap ?_
        exact has.keep rfl rfl rfl rfl rfl has.offset
      · split
        · split
          · exact has.keep rfl rfl rfl rfl rfl has.offset
          · exact has
        · exact has.keep rfl rfl rfl rfl rfl has.offset

theorem HasWindow.settle {y : Nat} (has : s.HasWindow mode) (settles : settle y s = some after) :
    after.HasWindow mode := by
  induction y generalizing s with
  | zero =>
      rw [Console.settle] at settles
      split at settles
      · cases settles
      · cases settles
        exact has.keep rfl rfl rfl rfl rfl has.offset
  | succ y ih =>
      rw [Console.settle] at settles
      split at settles
      · obtain ⟨isMode, rows, window⟩ := has
        exact ih ⟨(scroll_mode s).trans isMode, _, window.scroll⟩ settles
      · cases settles
        exact has.keep rfl rfl rfl rfl rfl has.offset

theorem HasWindow.advance {c : UInt8} (has : s.HasWindow mode) (advances : s.advance c = some after) :
    after.HasWindow mode := (has.feed c).wrap.settle advances

theorem HasWindow.live (has : s.HasWindow mode) : s.live.HasWindow mode := by
  rw [Console.live]
  split
  · exact has.keep rfl rfl rfl rfl rfl (Nat.zero_le _)
  · exact has

theorem HasWindow.puts {str : List UInt8} (has : s.HasWindow mode)
    (advances : str.foldlM Console.advance s = some after) : after.HasWindow mode := by
  induction str generalizing s with
  | nil =>
      cases advances
      exact has
  | cons c rest ih =>
      rw [List.foldlM_cons] at advances
      obtain ⟨next, first, others⟩ := Option.bind_eq_some_iff.mp advances
      exact ih (has.advance first) others

theorem HasWindow.clearHighlight (has : s.HasWindow mode) : s.fbConsoleClearHighlight.HasWindow mode := by
  rw [fbConsoleClearHighlight]
  split
  · exact has
  · exact has.keep rfl rfl rfl rfl rfl has.offset

theorem HasWindow.scrollUp (has : s.HasWindow mode) (lines : Nat) :
    (s.fbConsoleScrollUp lines).HasWindow mode := by
  rw [fbConsoleScrollUp]
  split
  · exact has
  · refine has.keep rfl rfl rfl rfl rfl ?_
    dsimp only [renderScrollback, emit]
    split
    · exact Nat.le_refl _
    · rename_i within
      exact Nat.not_lt.mp within

theorem HasWindow.scrollDown (has : s.HasWindow mode) (lines : Nat) :
    (s.fbConsoleScrollDown lines).HasWindow mode := by
  rw [fbConsoleScrollDown]
  split
  · exact has
  · split
    · exact has.keep rfl rfl rfl rfl rfl (Nat.zero_le _)
    · exact has.keep rfl rfl rfl rfl rfl (Nat.le_trans (Nat.sub_le _ _) has.offset)

/-- Every call that returns keeps the window. -/
theorem HasWindow.step {call : FbCall} (has : s.HasWindow mode) (steps : s.step call = some after) :
    after.HasWindow mode := by
  cases call with
  | init =>
      cases steps
      exact has.keep rfl rfl rfl rfl rfl has.offset
  | clear =>
      cases steps
      exact has.keep rfl rfl rfl rfl rfl (Nat.zero_le _)
  | putchar c =>
      obtain ⟨put, advances, rfl⟩ := Option.map_eq_some_iff.mp steps
      have drawn : (s.live.drawCursor s.bgColor).HasWindow mode :=
        has.live.keep rfl rfl rfl rfl rfl has.live.offset
      exact (drawn.advance advances).keep rfl rfl rfl rfl rfl (drawn.advance advances).offset
  | puts str =>
      obtain ⟨put, advances, rfl⟩ := Option.map_eq_some_iff.mp steps
      have drawn : (s.live.drawCursor s.bgColor).HasWindow mode :=
        has.live.keep rfl rfl rfl rfl rfl has.live.offset
      exact (drawn.puts advances).keep rfl rfl rfl rfl rfl (drawn.puts advances).offset
  | setColor fg bg =>
      cases steps
      exact has.keep rfl rfl rfl rfl rfl has.offset
  | setCursorPos x y =>
      cases steps
      exact has.keep rfl rfl rfl rfl rfl has.offset
  | highlight r0 c0 r1 c1 =>
      cases steps
      exact has.clearHighlight.keep rfl rfl rfl rfl rfl has.clearHighlight.offset
  | clearHighlight =>
      cases steps
      exact has.clearHighlight
  | scrollUp lines =>
      cases steps
      exact has.scrollUp lines
  | scrollDown lines =>
      cases steps
      exact has.scrollDown lines
  | scrollReset =>
      cases steps
      exact has.live

theorem HasWindow.steps {calls : List FbCall} (has : s.HasWindow mode)
    (runs : calls.foldlM Console.step s = some after) : after.HasWindow mode := by
  induction calls generalizing s with
  | nil =>
      cases runs
      exact has
  | cons call rest ih =>
      rw [List.foldlM_cons] at runs
      obtain ⟨next, first, others⟩ := Option.bind_eq_some_iff.mp runs
      exact ih (has.step first) others

theorem HasWindow.run {bpp : Nat} {calls : List FbCall}
    (runs : run mode bpp true calls = some s) : s.HasWindow mode := by
  obtain ⟨start, inits, steps⟩ := Option.bind_eq_some_iff.mp runs
  rw [fbInit] at inits
  split at inits
  · cases inits
  · cases inits
    exact HasWindow.steps ⟨rfl, _, rfl, Keeps.start _ (by decide), Nat.le_refl 0⟩ steps

/-- A row of the window is as far behind the first of all lines as the window has been moved. -/
theorem Window.windowLine (window : s.Window rows) {r : Nat} (inside : r < s.textRows) :
    (s.windowLine r).2 = s.lines.getD (s.sbCount - s.sbOffset + r) [] := by
  have offset := window.offset
  obtain ⟨small, within⟩ := window.keeps.count_le
  have write := window.keeps.inside
  have kept : (s.log.drop (s.log.length - s.sbCount)).length = s.sbCount := by
    rw [List.length_drop]
    omega
  rw [Console.windowLine, Console.lines]
  dsimp only
  rw [if_neg (by omega)]
  by_cases old : s.sbCount - s.sbOffset + r < s.sbCount
  · have idx : (((s.sbWrite : Int) - s.sbCount + (s.sbCount - s.sbOffset + r) +
        fbScrollbackLines).tmod fbScrollbackLines).toNat =
        (s.sbWrite + fbScrollbackLines + (s.sbCount - s.sbOffset + r) - s.sbCount) %
          fbScrollbackLines := by
      have place : (s.sbWrite : Int) - s.sbCount + (s.sbCount - s.sbOffset + r) +
          fbScrollbackLines = ((s.sbWrite + fbScrollbackLines +
            (s.sbCount - s.sbOffset + r) - s.sbCount : Nat) : Int) := by
        omega
      rw [place]
      exact Int.toNat_natCast _
    rw [if_pos (by omega), window.scrollback]
    dsimp only
    rw [idx, List.getD_append _ _ _ _ (by omega), List.getD_eq_getElem?_getD, List.getElem?_drop,
      window.keeps.entry old]
    rfl
  · rw [if_neg (by omega), if_pos (by omega), List.getD_append_right _ _ _ _ (by omega), kept]
    have row : ((s.sbCount : Int) - s.sbOffset + r - s.sbCount).toNat =
        s.sbCount - s.sbOffset + r - s.sbCount := by
      omega
    have below : s.sbCount - s.sbOffset + r - s.sbCount < s.textRows := by omega
    dsimp only
    rw [row, List.getD_eq_getElem?_getD, List.getElem?_map, List.getElem?_range below]
    rfl

theorem HasWindow.settle_returns (has : s.HasWindow mode) (some_rows : 0 < mode.textRows) (y : Nat) :
    ∃ after, Console.settle y s = some after := by
  induction y generalizing s with
  | zero =>
      have rows : s.textRows ≠ 0 := by
        rw [has.1]
        exact Nat.ne_of_gt some_rows
      exact ⟨_, if_neg rows⟩
  | succ y ih =>
      rw [Console.settle]
      split
      · obtain ⟨isMode, rows, window⟩ := has
        exact ih ⟨(scroll_mode s).trans isMode, _, window.scroll⟩
      · exact ⟨_, rfl⟩

theorem HasWindow.puts_returns (has : s.HasWindow mode) (some_rows : 0 < mode.textRows)
    (str : List UInt8) :
    ∃ after, str.foldlM Console.advance s = some after := by
  induction str generalizing s with
  | nil => exact ⟨s, rfl⟩
  | cons c rest ih =>
      obtain ⟨next, first⟩ := (has.feed c).wrap.settle_returns some_rows _
      have advances : s.advance c = some next := first
      rw [List.foldlM_cons, advances]
      exact ih (has.advance advances)

theorem HasWindow.step_returns (has : s.HasWindow mode) (some_rows : 0 < mode.textRows)
    (call : FbCall) :
    ∃ after, s.step call = some after := by
  have drawn : (s.live.drawCursor s.bgColor).HasWindow mode :=
    has.live.keep rfl rfl rfl rfl rfl has.live.offset
  cases call with
  | putchar c =>
      obtain ⟨next, advances⟩ := drawn.puts_returns some_rows [c]
      rw [List.foldlM_cons] at advances
      obtain ⟨put, first, -⟩ := Option.bind_eq_some_iff.mp advances
      exact ⟨_, Option.map_eq_some_iff.mpr ⟨put, first, rfl⟩⟩
  | puts str =>
      obtain ⟨put, advances⟩ := drawn.puts_returns some_rows str.chars
      exact ⟨_, Option.map_eq_some_iff.mpr ⟨put, advances, rfl⟩⟩
  | _ => exact ⟨_, rfl⟩

theorem run_returns (some_rows : 0 < mode.textRows) (calls : List FbCall) : ∃ s, run mode 32 true calls = some s := by
  have steps {s : Console} (has : s.HasWindow mode) :
      ∃ after, calls.foldlM Console.step s = some after := by
    induction calls generalizing s with
    | nil => exact ⟨s, rfl⟩
    | cons call rest ih =>
        obtain ⟨next, first⟩ := has.step_returns some_rows call
        rw [List.foldlM_cons, first]
        exact ih (has.step first)
  exact steps ⟨rfl, _, rfl, Keeps.start _ (by decide), Nat.le_refl 0⟩

theorem windowLine_reads (s : Console) (r : Nat) {event : FbEvent}
    (member : event ∈ (s.windowLine r).1) :
    (∃ row stop, event = .screen row stop) ∨ ∃ row stop, event = .scrollback row stop := by
  rw [Console.windowLine] at member
  dsimp only at member
  split at member
  · cases member
  · split at member
    · split at member
      · exact .inr ⟨_, _, List.mem_singleton.mp member⟩
      · exact .inr ⟨_, _, List.mem_singleton.mp member⟩
    · split at member
      · exact .inl ⟨_, _, List.mem_singleton.mp member⟩
      · cases member

/-- In every run the scrollback has the last of the lines that have scrolled off, and wherever the
window is moved its rows are drawn from the lines from that place on.  With at least one row every
call returns. -/
theorem scrollback_window (mode : FbMode) (calls : List FbCall) :
    (0 < mode.textRows → ∃ s, run mode 32 true calls = some s) ∧
      ∀ s, run mode 32 true calls = some s →
        s.sbOffset ≤ s.sbCount ∧ s.sbCount ≤ fbScrollbackLines ∧
        (∃ rows, s.scrollback = some rows ∧
          elements rows fbScrollbackLines (oldest fbScrollbackLines s.sbWrite s.sbCount) s.sbCount =
            s.log.drop (s.log.length - s.sbCount)) ∧
        ∀ n ≤ s.sbCount, ∃ reads : Nat → List FbEvent,
          (∀ r, ∀ event ∈ reads r, ∀ x y ch fg bg, event ≠ .char x y ch fg bg) ∧
            ({ s with sbOffset := n }.renderScrollback).events =
              s.events ++ (s.fbClear ++ ((List.range s.textRows).flatMap fun r =>
                reads r ++ drawLine r (s.lines.getD (s.sbCount - n + r) [])) ++
                  { s with sbOffset := n }.scrollMark) := by
  refine ⟨fun some_rows => run_returns some_rows calls, fun s runs => ?_⟩
  obtain ⟨-, rows, window⟩ := HasWindow.run runs
  refine ⟨window.offset, window.keeps.count_le.1, ⟨rows, window.scrollback, window.keeps.entries⟩,
    fun n within => ?_⟩
  have moved : { s with sbOffset := n }.Window rows :=
    window.keep rfl rfl rfl rfl within
  refine ⟨fun r => ({ s with sbOffset := n }.windowLine r).1, fun r event member x y ch fg bg => ?_, ?_⟩
  · rintro rfl
    obtain ⟨row, stop, is⟩ | ⟨row, stop, is⟩ := windowLine_reads _ r member
    · cases is
    · cases is
  · have drawn : ((List.range s.textRows).flatMap fun r =>
        ({ s with sbOffset := n }.windowLine r).1 ++
          drawLine r ({ s with sbOffset := n }.windowLine r).2) =
        (List.range s.textRows).flatMap fun r => ({ s with sbOffset := n }.windowLine r).1 ++
          drawLine r (s.lines.getD (s.sbCount - n + r) []) := by
      refine List.flatMap_congr fun r member => ?_
      rw [moved.windowLine (List.mem_range.mp member)]
      rfl
    rw [← drawn]
    rfl

end Console

end ZurichOS
