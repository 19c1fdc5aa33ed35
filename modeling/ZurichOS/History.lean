import Mathlib.Data.List.Destutter
import Mathlib.Data.List.Induction
import Mathlib.Logic.Function.Iterate
import ZurichOS.LastEntries
import ZurichOS.LineEditor

set_option linter.all false

/-!
The history of the line editor: the lines that Up and Down bring back, against the list of the
lines that were entered.
-/

namespace ZurichOS

open ByteBuffer RingBuffer

namespace Editor

/-- The line as Enter reads it. -/
def line (e : Editor) : CString := stringAt (e.put e.inputPos [0]).inputBuffer 0 e.inputPos

/-- The line that a key enters. -/
def entered (e : Editor) (key : KeyPress) : Option (List UInt8) :=
  if key.char = 10 ∧ e.escapeState ≠ 2 ∧ e.line.chars ≠ [] then some e.line.chars else none

def enteredLines (commands : List CString) : Editor → List KeyPress → List (List UInt8)
  | _, [] => []
  | e, key :: rest =>
      (e.entered key).toList ++ enteredLines commands (shellInput commands e key) rest

/-- The lines that are entered, those that repeat the one before counted once. -/
def pastLines (commands : List CString) (keys : List KeyPress) : List (List UInt8) :=
  (enteredLines commands init keys).destutter (· ≠ ·)

/-- The cursor keys send three characters. -/
def arrow (direction : UInt8) : List KeyPress := [⟨0x1B, []⟩, ⟨91, []⟩, ⟨direction, []⟩]

def pressUp (commands : List CString) (e : Editor) : Editor :=
  (arrow 65).foldl (shellInput commands) e

def pressDown (commands : List CString) (e : Editor) : Editor :=
  (arrow 66).foldl (shellInput commands) e

/-- No key of the line has been pressed yet. -/
structure Fresh (e : Editor) : Prop where
  inputPos : e.inputPos = 0
  historyIndex : e.historyIndex = e.historyCount
  escapeState : e.escapeState = 0

/-- The line that is so many lines back; the one in front of all of them is empty. -/
def back (lines : List (List UInt8)) (distance : Nat) : List UInt8 :=
  ([] :: lines.reverse).getD distance []

/-- The ring has the last of the lines. -/
structure Remembers (e : Editor) (lines : List (List UInt8)) : Prop where
  index : e.historyIndex ≤ e.historyCount
  keeps : Keeps (fun i => (e.history i).chars) historySize e.historyWrite e.historyCount lines

/-- A line behind the others counts unless it repeats the last one. -/
def note (lines : List (List UInt8)) (line : List UInt8) : List (List UInt8) :=
  if lines.getLast? = some line then lines else lines ++ [line]

section Destutter

variable {α : Type} [DecidableEq α]

theorem destutter'_concat (first last : α) (list : List α) :
    (list ++ [last]).destutter' (· ≠ ·) first =
      if (list.destutter' (· ≠ ·) first).getLast? = some last then list.destutter' (· ≠ ·) first
      else list.destutter' (· ≠ ·) first ++ [last] := by
  induction list generalizing first with
  | nil => simp [List.destutter'_singleton, ite_not]
  | cons second rest ih =>
      rw [List.cons_append, List.destutter'_cons, List.destutter'_cons, ih second, ih first]
      by_cases same : first ≠ second
      · rw [if_pos same, if_pos same]
        obtain ⟨head, tail, isCons⟩ := List.exists_cons_of_ne_nil
          (@List.destutter'_ne_nil α rest (· ≠ ·) _ second)
        rw [isCons, List.getLast?_cons_cons]
        split
        · rfl
        · rfl
      · rw [if_neg same, if_neg same]

/-- A line at the end counts unless it repeats the one before. -/
theorem destutter_concat (list : List α) (last : α) :
    (list ++ [last]).destutter (· ≠ ·) =
      if (list.destutter (· ≠ ·)).getLast? = some last then list.destutter (· ≠ ·)
      else list.destutter (· ≠ ·) ++ [last] := by
  cases list with
  | nil => rfl
  | cons first rest => exact destutter'_concat first last rest

end Destutter

variable {e after : Editor} {commands : List CString} {lines : List (List UInt8)} {line : CString}

theorem Remembers.start : Remembers init [] := ⟨Nat.le_refl 0, Keeps.start _ (by decide)⟩

theorem Remembers.keep (past : Remembers e lines) (history : after.history = e.history)
    (write : after.historyWrite = e.historyWrite) (count : after.historyCount = e.historyCount)
    (index : after.historyIndex ≤ after.historyCount) : Remembers after lines := by
  refine ⟨index, ?_⟩
  rw [history, write, count]
  exact past.keeps

theorem Remembers.repeats_iff (past : Remembers e lines) :
    lines.getLast? = some line.chars ↔ 0 < e.historyCount ∧
      (e.history ((e.historyWrite + historySize - 1) % historySize)).chars = line.chars := by
  have full := past.keeps.full
  by_cases none : e.historyCount = 0
  · have empty : lines.length = 0 := by
      dsimp only [historySize] at full
      omega
    rw [List.length_eq_zero_iff.mp empty]
    refine iff_of_false (fun same => nomatch same) fun repeats => ?_
    have positive := repeats.1
    omega
  · have newest := past.keeps.entry (show e.historyCount - 1 < e.historyCount by omega)
    have within := past.keeps.count_le.2
    rw [show lines.length - e.historyCount + (e.historyCount - 1) = lines.length - 1 by omega,
      show e.historyWrite + historySize + (e.historyCount - 1) - e.historyCount =
        e.historyWrite + historySize - 1 by omega] at newest
    rw [List.getLast?_eq_getElem?, newest, Option.some.injEq]
    exact (and_iff_right (Nat.pos_of_ne_zero none)).symm

/-- What `history_add` puts into the ring behind the other lines. -/
theorem Remembers.append (past : Remembers e lines) (line : CString) :
    Remembers { e with
      history := Function.update e.history e.historyWrite line
      historyWrite := (e.historyWrite + 1) % historySize
      historyCount := if e.historyCount < historySize then e.historyCount + 1 else e.historyCount }
      (lines ++ [line.chars]) := by
  have index := past.index
  refine ⟨?_, ?_⟩
  · dsimp only
    split
    · exact Nat.le_succ_of_le index
    · exact index
  · have pushed : Keeps (Function.update (CString.chars ∘ e.history) e.historyWrite line.chars) _ _ _ _ :=
      past.keeps.push line.chars
    rw [← Function.comp_update] at pushed
    exact pushed

theorem Remembers.historyAdd (past : Remembers e lines) (some : line.chars ≠ []) :
    Remembers (e.historyAdd line) (note lines line.chars) := by
  rw [Editor.historyAdd, if_neg some, note]
  dsimp only
  by_cases repeats : lines.getLast? = Option.some line.chars
  · rw [if_pos repeats, if_pos (past.repeats_iff.mp repeats)]
    exact past
  · rw [if_neg repeats, if_neg (past.repeats_iff.not.mp repeats)]
    exact past.append line

theorem Remembers.enter (past : Remembers e lines) :
    Remembers e.enter (if e.line.chars ≠ [] then note lines e.line.chars else lines) := by
  have ended : Remembers (e.put e.inputPos [0]) lines := past.keep rfl rfl rfl past.index
  rw [Editor.enter]
  by_cases typed : 0 < e.inputPos
  · rw [if_pos (show 0 < (e.put e.inputPos [0]).inputPos from typed)]
    by_cases some : e.line.chars ≠ []
    · rw [if_pos some]
      exact (ended.historyAdd some).keep rfl rfl rfl (Nat.le_refl _)
    · have same : (e.put e.inputPos [0]).historyAdd e.line = e.put e.inputPos [0] :=
        if_pos (not_not.mp some)
      rw [if_neg some]
      change Remembers { (e.put e.inputPos [0]).historyAdd e.line with
        historyIndex := ((e.put e.inputPos [0]).historyAdd e.line).historyCount, inputPos := 0 } lines
      rw [same]
      exact ended.keep rfl rfl rfl (Nat.le_refl _)
  · have empty : e.line.chars = [] := by
      rw [line, Nat.eq_zero_of_not_pos typed]
      rfl
    rw [if_neg (show ¬ 0 < (e.put e.inputPos [0]).inputPos from typed), if_neg (not_not.mpr empty)]
    exact ended.keep rfl rfl rfl (Nat.le_refl _)

theorem Remembers.doTabCompletion (past : Remembers e lines) (entries : List CString) :
    Remembers (e.doTabCompletion commands entries) lines := by
  rw [Editor.doTabCompletion]
  split
  · exact past
  · dsimp only
    split
    · exact past.keep rfl rfl rfl past.index
    · exact past.keep rfl rfl rfl past.index

theorem Remembers.press (past : Remembers e lines) (key : KeyPress) :
    Remembers (e.press commands key)
      (if key.char = 10 ∧ e.line.chars ≠ [] then note lines e.line.chars else lines) := by
  by_cases enters : key.char = 10
  · have is : e.press commands key = e.enter := by
      rw [Editor.press, enters]
      rfl
    simp only [is, enters, true_and]
    exact past.enter
  · have unchanged : ¬ (key.char = 10 ∧ e.line.chars ≠ []) := fun both => enters both.1
    rw [if_neg unchanged, Editor.press, if_neg enters]
    split
    · exact past.keep rfl rfl rfl past.index
    · split
      · exact past.keep rfl rfl rfl past.index
      · split
        · exact past.doTabCompletion key.entries
        · split
          · exact past.keep rfl rfl rfl (Nat.le_refl _)
          · split
            · split
              · exact past.keep rfl rfl rfl past.index
              · exact past
            · exact past

theorem Remembers.escape (past : Remembers e lines) (c : UInt8) : Remembers (e.escape c) lines := by
  have index := past.index
  rw [Editor.escape]
  dsimp only
  split
  · split
    · refine past.keep rfl rfl rfl ?_
      dsimp only [recallEntry, setInput, put]
      split
      · omega
      · exact Nat.zero_le _
    · exact past.keep rfl rfl rfl index
  · split
    · split
      · rename_i below
        exact past.keep rfl rfl rfl (Nat.le_of_lt below)
      · split
        · exact past.keep rfl rfl rfl (Nat.le_refl _)
        · exact past.keep rfl rfl rfl index
    · exact past.keep rfl rfl rfl index

/-- A key adds the line that it enters. -/
theorem Remembers.shellInput (past : Remembers e lines) (key : KeyPress) :
    Remembers (shellInput commands e key) ((e.entered key).elim lines (note lines)) := by
  have closed : e.escapeState ≠ 2 → (e.entered key).elim lines (note lines) =
      if key.char = 10 ∧ e.line.chars ≠ [] then note lines e.line.chars else lines := by
    intro closed
    rw [entered]
    simp only [ne_eq, closed, not_false_eq_true, true_and]
    split
    · rfl
    · rfl
  rw [Editor.shellInput]
  split
  · rename_i opened
    rw [closed (by rw [opened]; decide)]
    split
    · rename_i bracket
      rw [if_neg (by rw [bracket]; exact fun both => absurd both.1 (by decide))]
      exact past.keep rfl rfl rfl past.index
    · exact @Remembers.press { e with escapeState := 0 } commands lines
        (past.keep rfl rfl rfl past.index) key
  · split
    · rename_i escapes
      rw [entered, if_neg fun all => all.2.1 escapes]
      exact past.escape key.char
    · rename_i plain
      rw [closed plain]
      exact past.press key

theorem enteredLines_concat (e : Editor) (keys : List KeyPress) (key : KeyPress) :
    enteredLines commands e (keys ++ [key]) =
      enteredLines commands e keys ++ ((keys.foldl (shellInput commands) e).entered key).toList := by
  induction keys generalizing e with
  | nil => simp [enteredLines]
  | cons first rest ih =>
      rw [List.cons_append, enteredLines, enteredLines, ih, List.foldl_cons, List.append_assoc]

theorem pastLines_concat (keys : List KeyPress) (key : KeyPress) :
    pastLines commands (keys ++ [key]) =
      ((keys.foldl (shellInput commands) init).entered key).elim (pastLines commands keys)
        (note (pastLines commands keys)) := by
  rw [pastLines, enteredLines_concat]
  cases (keys.foldl (shellInput commands) init).entered key with
  | none => rw [Option.toList_none, List.append_nil]; rfl
  | some line => exact destutter_concat _ line

/-- After every run of keys the ring has the last of the lines that were entered. -/
theorem remembers (commands : List CString) (keys : List KeyPress) :
    Remembers (keys.foldl (shellInput commands) init) (pastLines commands keys) := by
  induction keys using List.reverseRecOn with
  | nil => exact Remembers.start
  | append_singleton keys key ih =>
      rw [List.foldl_concat, pastLines_concat]
      exact ih.shellInput key

theorem arrow_eq_escape (closed : e.escapeState = 0) (direction : UInt8) :
    (arrow direction).foldl (shellInput commands) e = e.escape direction := by
  have opened : shellInput commands e ⟨0x1B, []⟩ = { e with escapeState := 1 } := by
    rw [shellInput, closed]
    rfl
  rw [arrow, List.foldl_cons, opened]
  rfl

theorem historyAdd_escapeState (e : Editor) (line : CString) :
    (e.historyAdd line).escapeState = e.escapeState := by
  rw [historyAdd]
  split
  · rfl
  · dsimp only
    split
    · rfl
    · rfl

theorem enter_escapeState (e : Editor) : e.enter.escapeState = e.escapeState := by
  rw [enter]
  dsimp only
  split
  · exact historyAdd_escapeState _ _
  · rfl

theorem doTabCompletion_escapeState (e : Editor) (commands entries : List CString) :
    (e.doTabCompletion commands entries).escapeState = e.escapeState := by
  rw [doTabCompletion]
  split
  · rfl
  · dsimp only
    split
    · rfl
    · rfl

theorem press_escapeState (e : Editor) (key : KeyPress) :
    (e.press commands key).escapeState = if key.char = 0x1B then 1 else e.escapeState := by
  rw [press]
  split
  · rfl
  · split
    · exact enter_escapeState e
    · split
      · rfl
      · split
        · exact doTabCompletion_escapeState e commands key.entries
        · split
          · rfl
          · split
            · split
              · rfl
              · rfl
            · rfl

theorem shellInput_escapeState (small : e.escapeState ≤ 2) (key : KeyPress) :
    (shellInput commands e key).escapeState ≤ 2 := by
  rw [shellInput]
  split
  · split
    · exact Nat.le_refl 2
    · rw [press_escapeState]
      split
      · exact Nat.le_succ 1
      · exact Nat.zero_le 2
  · split
    · rw [escape]
      dsimp only
      split
      · split
        · exact Nat.zero_le 2
        · exact Nat.zero_le 2
      · split
        · split
          · exact Nat.zero_le 2
          · split
            · exact Nat.zero_le 2
            · exact Nat.zero_le 2
        · exact Nat.zero_le 2
    · rw [press_escapeState]
      split
      · exact Nat.le_succ 1
      · exact small

/-- Every Enter outside of an escape sequence starts a fresh line. -/
theorem fresh_enter (small : e.escapeState ≤ 2) (outside : e.escapeState ≠ 2) :
    Fresh (shellInput commands e ⟨10, []⟩) := by
  have pressed : Editor.shellInput commands e ⟨10, []⟩ = enter { e with escapeState := 0 } := by
    rw [Editor.shellInput, if_neg outside]
    split
    · rfl
    · have closed : e.escapeState = 0 := by omega
      cases e
      cases closed
      rfl
  rw [pressed]
  exact ⟨rfl, rfl, enter_escapeState { e with escapeState := 0 }⟩

theorem fresh_after_enter (commands : List CString) (keys : List KeyPress)
    (outside : (keys.foldl (shellInput commands) init).escapeState ≠ 2) :
    Fresh ((keys ++ [(⟨10, []⟩ : KeyPress)]).foldl (shellInput commands) init) := by
  rw [List.foldl_concat]
  have small : (keys.foldl (shellInput commands) init).escapeState ≤ 2 :=
    List.foldlRecOn (motive := fun e : Editor => e.escapeState ≤ 2) keys _ (Nat.zero_le 2)
      fun e below key _ => shellInput_escapeState below key
  exact fresh_enter small outside

/-- The line is the one at the index, and the editor is ready for the next key. -/
structure Browses (e : Editor) (lines : List (List UInt8)) (position : Nat) : Prop
    extends Remembers e lines where
  at_index : e.historyIndex = position
  closed : e.escapeState = 0

theorem setInput_shows (e : Editor) (str : CString) : Shows (e.setInput str) str.chars := by
  refine ⟨rfl, ?_⟩
  have bytes := @bytesAt_putBytes e.inputBuffer 0 (str.chars ++ [0])
  rwa [List.length_append] at bytes

/-- The entry at the index is the line that is as far back. -/
theorem Remembers.recallEntry (past : Remembers e lines) (inside : e.historyIndex < e.historyCount) :
    Shows e.recallEntry (back lines (e.historyCount - e.historyIndex)) := by
  have within := past.keeps.count_le.2
  have entry := past.keeps.entry inside
  have is : back lines (e.historyCount - e.historyIndex) = (e.history
      ((e.historyWrite + historySize + e.historyIndex - e.historyCount) % historySize)).chars := by
    obtain ⟨distance, far⟩ : ∃ distance, e.historyCount - e.historyIndex = distance + 1 :=
      ⟨e.historyCount - e.historyIndex - 1, by omega⟩
    rw [back, far, List.getD_cons_succ, List.getD_eq_getElem?_getD,
      List.getElem?_reverse (by omega), show lines.length - 1 - distance =
        lines.length - e.historyCount + e.historyIndex by omega, entry]
    rfl
  rw [is]
  exact setInput_shows e _

theorem Browses.pressUp {position : Nat} (browses : Browses e lines position)
    (some : 0 < e.historyCount) :
    Browses (pressUp commands e) lines (position - 1) ∧
      Shows (pressUp commands e) (back lines (e.historyCount - (position - 1))) := by
  have index := browses.index
  have stepped : Remembers { e with escapeState := 0, historyIndex := position - 1 } lines := by
    refine browses.keep rfl rfl rfl ?_
    rw [browses.at_index] at index
    exact Nat.le_trans (Nat.sub_le _ _) index
  have is : Editor.pressUp commands e =
      Editor.recallEntry { e with escapeState := 0, historyIndex := position - 1 } := by
    rw [Editor.pressUp, arrow_eq_escape browses.closed, escape, if_pos rfl, if_pos some,
      browses.at_index]
    congr 2
    split
    · rfl
    · omega
  rw [is]
  refine ⟨⟨stepped.keep rfl rfl rfl stepped.index, rfl, rfl⟩, stepped.recallEntry ?_⟩
  rw [browses.at_index] at index
  dsimp only
  omega

theorem Browses.pressDown {position : Nat} (browses : Browses e lines position)
    (shown : Shows e (back lines (e.historyCount - position))) :
    Browses (pressDown commands e) lines (min (position + 1) e.historyCount) ∧
      Shows (pressDown commands e) (back lines (e.historyCount - (position + 1))) := by
  have index := browses.index
  rw [browses.at_index] at index
  have is : Editor.pressDown commands e = e.escape 66 := arrow_eq_escape browses.closed 66
  rw [is, escape, if_neg (by decide), if_pos rfl]
  dsimp only
  rw [browses.at_index]
  by_cases inside : position + 1 < e.historyCount
  · rw [if_pos inside, Nat.min_eq_left (Nat.le_of_lt inside)]
    have stepped : Remembers { e with escapeState := 0, historyIndex := position + 1 } lines :=
      browses.keep rfl rfl rfl (Nat.le_of_lt inside)
    exact ⟨⟨stepped.keep rfl rfl rfl stepped.index, rfl, rfl⟩, stepped.recallEntry inside⟩
  · rw [if_neg inside, Nat.min_eq_right (Nat.not_lt.mp inside),
      Nat.sub_eq_zero_of_le (Nat.not_lt.mp inside)]
    by_cases last : position + 1 = e.historyCount
    · rw [if_pos last]
      exact ⟨⟨browses.keep rfl rfl rfl (Nat.le_refl _), rfl, rfl⟩, rfl,
        @bytesAt_putBytes e.inputBuffer 0 [0]⟩
    · rw [if_neg last]
      have atEnd : position = e.historyCount := by omega
      rw [atEnd, Nat.sub_self] at shown
      exact ⟨⟨browses.keep rfl rfl rfl index, atEnd, rfl⟩,
        shown.inputPos, shown.inputBuffer⟩

/-- Up moves one line back at a time and stays at the oldest one. -/
theorem Browses.ups {count : Nat} (browses : Browses e lines count)
    (isCount : count = min historySize lines.length) (some : 0 < count) (k : Nat) :
    Browses ((Editor.pressUp commands)^[k] e) lines (count - k) ∧
      (0 < k → Shows ((Editor.pressUp commands)^[k] e) (back lines (min k count))) := by
  induction k with
  | zero => exact ⟨browses, fun positive => absurd positive (Nat.lt_irrefl 0)⟩
  | succ k ih =>
      have same := ih.1.keeps.full.trans isCount.symm
      obtain ⟨stays, shown⟩ := @Browses.pressUp _ commands _ _ ih.1 (same ▸ some)
      rw [same, show count - (count - k - 1) = min (k + 1) count by omega] at shown
      rw [Function.iterate_succ_apply']
      exact ⟨stays, fun _ => shown⟩

/-- Down moves one line forth at a time and stays at the empty one. -/
theorem Browses.downs {count distance : Nat} (browses : Browses e lines (count - distance))
    (isCount : count = min historySize lines.length) (within : distance ≤ count)
    (shown : Shows e (back lines distance)) (j : Nat) :
    Browses ((Editor.pressDown commands)^[j] e) lines (count - (distance - j)) ∧
      Shows ((Editor.pressDown commands)^[j] e) (back lines (distance - j)) := by
  induction j with
  | zero => exact ⟨browses, shown⟩
  | succ j ih =>
      have same := ih.1.keeps.full.trans isCount.symm
      have now := ih.2
      rw [show distance - j = (((Editor.pressDown commands)^[j] e).historyCount -
        (count - (distance - j))) by omega] at now
      obtain ⟨stays, shows_next⟩ := @Browses.pressDown _ commands _ _ ih.1 now
      rw [same, show min (count - (distance - j) + 1) count = count - (distance - (j + 1)) by omega]
        at stays
      rw [same, show count - (count - (distance - j) + 1) = distance - (j + 1) by omega]
        at shows_next
      rw [Function.iterate_succ_apply']
      exact ⟨stays, shows_next⟩

/-- Two lines, of which the second is entered twice. -/
def twoLines : List KeyPress :=
  [⟨97, []⟩, ⟨10, []⟩, ⟨98, []⟩, ⟨10, []⟩, ⟨98, []⟩, ⟨10, []⟩]

end Editor

end ZurichOS
