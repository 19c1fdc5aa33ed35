import Mathlib.Data.List.TakeWhile
import Mathlib.Logic.Function.Basic
import ZurichOS.ByteBuffer
import ZurichOS.CString
import ZurichOS.Transitions

set_option linter.all false

/-!
The line editor of `shell.c`: what each key does to `input_buffer`, `input_pos` and the history.
-/

namespace ZurichOS

open ByteBuffer Transitions

abbrev shellBufferSize : Nat := 256
abbrev historySize : Nat := 16

/-- The string from `start` on, which is terminated at `stop` at the latest. -/
def stringAt (buffer : Buffer) (start stop : Nat) : CString where
  chars := cString (bytesAt buffer start (stop - start))
  plain member := by simpa using List.mem_takeWhile_imp member

/-- The static variables of the editor, and the end of what has been written in `input_buffer`. -/
structure Editor where
  inputBuffer : Buffer
  inputPos : Nat
  history : Nat → CString
  historyCount : Nat
  historyIndex : Nat
  historyWrite : Nat
  escapeState : Nat
  written : Nat

/-- A character, and the names in the current directory when it comes. -/
structure KeyPress where
  char : UInt8
  entries : List CString

def Editor.init : Editor where
  inputBuffer := fun _ => 0
  inputPos := 0
  history := fun _ => ⟨[], List.not_mem_nil⟩
  historyCount := 0
  historyIndex := 0
  historyWrite := 0
  escapeState := 0
  written := 1

namespace Editor

def put (e : Editor) (start : Nat) (bytes : List UInt8) : Editor :=
  { e with
    inputBuffer := putBytes e.inputBuffer start bytes
    written := max e.written (start + bytes.length) }

def historyAdd (e : Editor) (cmd : CString) : Editor :=
  if cmd.chars = [] then e
  else
    let last := (e.historyWrite + historySize - 1) % historySize
    if 0 < e.historyCount ∧ (e.history last).chars = cmd.chars then e
    else
      { e with
        history := Function.update e.history e.historyWrite cmd
        historyWrite := (e.historyWrite + 1) % historySize
        historyCount :=
          if e.historyCount < historySize then e.historyCount + 1 else e.historyCount }

def setInput (e : Editor) (str : CString) : Editor :=
  { e.put 0 (str.chars ++ [0]) with inputPos := str.chars.length }

/-- The entry of the history at `history_index`. -/
def recallEntry (e : Editor) : Editor :=
  e.setInput (e.history
    ((e.historyWrite + historySize + e.historyIndex - e.historyCount) % historySize))

/-- The position behind the last space in front of the given one. -/
def wordStart (buffer : Buffer) : Nat → Nat
  | 0 => 0
  | i + 1 => if buffer i = 32 then i + 1 else wordStart buffer i

def word (e : Editor) : CString :=
  stringAt e.inputBuffer (wordStart e.inputBuffer e.inputPos) e.inputPos

/-- The first word of the line is a command. -/
def matching (e : Editor) (commands entries : List CString) : List CString :=
  let names := if wordStart e.inputBuffer e.inputPos = 0 then commands else entries
  names.filter fun name => e.word.chars.isPrefixOf name.chars

/-- Where the word at the cursor starts, and the one name that completes it.  A directory hands out
all its entries in one place, so that a match there reads as the last of them. -/
def completion (e : Editor) (commands entries : List CString) : Option (Nat × CString) :=
  if e.word.chars = [] ∨ (e.matching commands entries).length ≠ 1 then none
  else
    let start := wordStart e.inputBuffer e.inputPos
    (if start = 0 then (e.matching commands entries).head? else entries.getLast?).map (start, ·)

/-- `strcpy` at the word, `strcat` of a space, and the new position. -/
def complete (e : Editor) (start : Nat) (name : CString) : Editor :=
  let e := e.put start (name.chars ++ [0])
  let len := (stringAt e.inputBuffer 0 (start + name.chars.length)).chars.length
  let e := e.put len [32, 0]
  { e with inputPos := (stringAt e.inputBuffer 0 (len + 1)).chars.length }

def doTabCompletion (e : Editor) (commands entries : List CString) : Editor :=
  if e.inputPos = 0 then e
  else
    let ended := e.put e.inputPos [0]
    match e.completion commands entries with
    | none => ended
    | some place => ended.complete place.1 place.2

def escape (e : Editor) (c : UInt8) : Editor :=
  let e := { e with escapeState := 0 }
  if c = 65 then
    if 0 < e.historyCount then
      recallEntry { e with historyIndex := if 0 < e.historyIndex then e.historyIndex - 1 else 0 }
    else e
  else if c = 66 then
    if e.historyIndex + 1 < e.historyCount then
      recallEntry { e with historyIndex := e.historyIndex + 1 }
    else if e.historyIndex + 1 = e.historyCount then
      { e.put 0 [0] with inputPos := 0, historyIndex := e.historyCount }
    else e
  else e

def enter (e : Editor) : Editor :=
  let e := e.put e.inputPos [0]
  let e := if 0 < e.inputPos then e.historyAdd (stringAt e.inputBuffer 0 e.inputPos) else e
  { e with historyIndex := e.historyCount, inputPos := 0 }

def press (e : Editor) (commands : List CString) (key : KeyPress) : Editor :=
  if key.char = 0x1B then { e with escapeState := 1 }
  else if key.char = 10 then e.enter
  else if key.char = 8 then { e with inputPos := e.inputPos - 1 }
  else if key.char = 9 then e.doTabCompletion commands key.entries
  else if key.char = 3 then
    { e.put 0 [0] with inputPos := 0, historyIndex := e.historyCount }
  else if 32 ≤ key.char ∧ key.char < 127 then
    if e.inputPos < shellBufferSize - 1 then
      { e.put e.inputPos [key.char] with inputPos := e.inputPos + 1 }
    else e
  else e

def shellInput (commands : List CString) (e : Editor) (key : KeyPress) : Editor :=
  if e.escapeState = 1 then
    if key.char = 91 then { e with escapeState := 2 }
    else press { e with escapeState := 0 } commands key
  else if e.escapeState = 2 then e.escape key.char
  else e.press commands key

structure InBounds (e : Editor) : Prop where
  inputPos : e.inputPos ≤ shellBufferSize - 1
  written : e.written ≤ shellBufferSize

/-- The line in the buffer, with its terminator. -/
structure Shows (e : Editor) (line : List UInt8) : Prop where
  inputPos : e.inputPos = line.length
  inputBuffer : bytesAt e.inputBuffer 0 (line.length + 1) = line ++ [0]

/-- A tab that completes a word leaves room for the space and the terminator. -/
def TabFits (commands : List CString) (e : Editor) (key : KeyPress) : Prop :=
  key.char = 9 → e.escapeState ≠ 2 →
    ∀ start name, e.completion commands key.entries = some (start, name) →
      start + name.chars.length + 2 ≤ shellBufferSize

structure Sound (e : Editor) : Prop extends e.InBounds where
  typed : ∀ i < e.inputPos, e.inputBuffer i ≠ 0
  history : ∀ i, (e.history i).chars.length ≤ shellBufferSize - 1

variable {e : Editor} {commands entries : List CString} {start : Nat} {name : CString}

theorem wordStart_le (buffer : Buffer) (pos : Nat) : wordStart buffer pos ≤ pos := by
  induction pos with
  | zero => exact Nat.le_refl 0
  | succ pos ih =>
      rw [wordStart]
      split
      · exact Nat.le_refl _
      · omega

theorem stringAt_length_le (buffer : Buffer) (start stop : Nat) :
    (stringAt buffer start stop).chars.length ≤ stop - start := by
  have isPrefix : cString (bytesAt buffer start (stop - start)) <+:
      bytesAt buffer start (stop - start) := List.takeWhile_prefix _
  have short := isPrefix.length_le
  rwa [bytesAt_length] at short

/-- Bytes that are not zero are all in the string. -/
theorem stringAt_length {buffer : Buffer} {start stop : Nat}
    (typed : ∀ i, start ≤ i → i < stop → buffer i ≠ 0) :
    (stringAt buffer start stop).chars.length = stop - start := by
  have whole : cString (bytesAt buffer start (stop - start)) =
      bytesAt buffer start (stop - start) := by
    rw [cString, List.takeWhile_eq_self_iff]
    intro byte member
    obtain ⟨i, inside, rfl⟩ := List.mem_map.mp member
    have below := List.mem_range.mp inside
    exact decide_eq_true (typed _ (by omega) (by omega))
  exact (congrArg List.length whole).trans (bytesAt_length _ _ _)

theorem completion_start (completes : e.completion commands entries = some (start, name)) :
    start ≤ e.inputPos := by
  rw [completion] at completes
  by_cases none : e.word.chars = [] ∨ (e.matching commands entries).length ≠ 1
  · rw [if_pos none] at completes
    cases completes
  · rw [if_neg none] at completes
    obtain ⟨found, -, is⟩ := Option.map_eq_some_iff.mp completes
    rw [← (Prod.mk.inj is).1]
    exact wordStart_le _ _

/-- A write inside the buffer that keeps the characters in front of a position keeps the editor
sound at it. -/
theorem Sound.put (sound : e.Sound) {bytes : List UInt8} {pos : Nat}
    (inside : start + bytes.length ≤ shellBufferSize) (below : pos ≤ shellBufferSize - 1)
    (typed : ∀ i < pos, putBytes e.inputBuffer start bytes i ≠ 0) :
    Sound { e.put start bytes with inputPos := pos } :=
  ⟨⟨below, Nat.max_le.mpr ⟨sound.written, inside⟩⟩, typed, sound.history⟩

/-- The end of the line is written behind its characters. -/
theorem Sound.ended (sound : e.Sound) : (e.put e.inputPos [0]).Sound := by
  have pos : e.inputPos ≤ 255 := sound.inputPos
  refine sound.put (Nat.succ_le_succ pos) pos fun i before => ?_
  rw [putBytes_outside _ (.inl before)]
  exact sound.typed i before

theorem Sound.cleared (sound : e.Sound) : Sound { e.put 0 [0] with inputPos := 0 } :=
  sound.put (by decide) (Nat.zero_le _) fun i below => absurd below (Nat.not_lt_zero i)

theorem Sound.setInput (sound : e.Sound) {str : CString}
    (short : str.chars.length ≤ shellBufferSize - 1) : (e.setInput str).Sound := by
  refine sound.put ?_ short fun i inside => ?_
  · rw [List.length_append, Nat.zero_add]
    exact Nat.succ_le_succ short
  · rw [putBytes_inside _ (Nat.zero_le i) (by rw [List.length_append]; omega)]
    exact str.char_ne [0] inside

theorem Sound.historyAdd (sound : e.Sound) {cmd : CString}
    (short : cmd.chars.length ≤ shellBufferSize - 1) : (e.historyAdd cmd).Sound := by
  rw [Editor.historyAdd]
  split
  · exact sound
  · dsimp only
    split
    · exact sound
    · refine ⟨⟨sound.inputPos, sound.written⟩, sound.typed, fun i => ?_⟩
      dsimp only
      by_cases new : i = e.historyWrite
      · rw [new, Function.update_self]
        exact short
      · rw [Function.update_of_ne new]
        exact sound.history i

/-- What a completion writes, and where it leaves the position. -/
theorem Sound.complete_eq (sound : e.Sound) (within : start ≤ e.inputPos) (name : CString) :
    e.complete start name =
      { (e.put start (name.chars ++ [0])).put (start + name.chars.length) [32, 0] with
        inputPos := start + name.chars.length + 1 } ∧
      ∀ i < start + name.chars.length + 1, (e.complete start name).inputBuffer i ≠ 0 := by
  generalize isStop : start + name.chars.length = stop
  have copied : ∀ i < stop, putBytes e.inputBuffer start (name.chars ++ [0]) i ≠ 0 := by
    intro i below
    by_cases before : i < start
    · rw [putBytes_outside _ (.inl before)]
      exact sound.typed i (by omega)
    · rw [putBytes_inside _ (by omega) (by rw [List.length_append]; omega)]
      exact name.char_ne [0] (by omega)
  have len : (stringAt (putBytes e.inputBuffer start (name.chars ++ [0])) 0 stop).chars.length =
      stop := stringAt_length fun i _ below => copied i below
  have spaced : ∀ i < stop + 1,
      putBytes (putBytes e.inputBuffer start (name.chars ++ [0])) stop [32, 0] i ≠ 0 := by
    intro i below
    by_cases before : i < stop
    · rw [putBytes_outside _ (.inl before)]
      exact copied i before
    · obtain rfl : i = stop := by omega
      rw [putBytes_inside _ (Nat.le_refl _) (Nat.lt_add_of_pos_right (by decide)), Nat.sub_self]
      decide
  have is : e.complete start name = { (e.put start (name.chars ++ [0])).put stop [32, 0] with
      inputPos := stop + 1 } := by
    have pos := stringAt_length fun i (_ : 0 ≤ i) below => spaced i below
    rw [Editor.complete, isStop]
    dsimp only [Editor.put]
    rw [len, pos]
    rfl
  exact ⟨is, is ▸ spaced⟩

theorem Sound.complete (sound : e.Sound) (within : start ≤ e.inputPos) (name : CString) :
    (e.complete start name).inputPos = start + name.chars.length + 1 ∧
      start + name.chars.length + 2 ≤ (e.complete start name).written ∧
      (start + name.chars.length + 2 ≤ shellBufferSize → (e.complete start name).Sound) := by
  obtain ⟨is, typed⟩ := sound.complete_eq within name
  rw [is] at typed ⊢
  refine ⟨rfl, Nat.le_max_right _ _, fun fits => ?_⟩
  have first : (e.put start (name.chars ++ [0])).written ≤ shellBufferSize := by
    refine Nat.max_le.mpr ⟨sound.written, ?_⟩
    rw [List.length_append, ← Nat.add_assoc]
    exact Nat.le_of_succ_le fits
  exact ⟨⟨Nat.le_sub_of_add_le fits, Nat.max_le.mpr ⟨first, fits⟩⟩, typed,
    sound.history⟩

/-- The other variables are free. -/
theorem Sound.vary (sound : e.Sound) (index escapeState : Nat) :
    Sound { e with historyIndex := index, escapeState } :=
  ⟨⟨sound.inputPos, sound.written⟩, sound.typed, sound.history⟩

theorem Sound.recallEntry (sound : e.Sound) : e.recallEntry.Sound := sound.setInput (sound.history _)

theorem Sound.escape (sound : e.Sound) (c : UInt8) : (e.escape c).Sound := by
  rw [Editor.escape]
  dsimp only
  split
  · split
    · exact (sound.vary _ 0).recallEntry
    · exact sound.vary _ 0
  · split
    · split
      · exact (sound.vary _ 0).recallEntry
      · split
        · exact (sound.vary _ 0).cleared.vary _ 0
        · exact sound.vary _ 0
    · exact sound.vary _ 0

theorem Sound.enter (sound : e.Sound) : e.enter.Sound := by
  have restart {after : Editor} (kept : after.Sound) :
      Sound { after with historyIndex := after.historyCount, inputPos := 0 } :=
    ⟨⟨Nat.zero_le _, kept.written⟩, fun i below => absurd below (Nat.not_lt_zero i), kept.history⟩
  rw [Editor.enter]
  split
  · refine restart (sound.ended.historyAdd ?_)
    have length := stringAt_length_le (e.put e.inputPos [0]).inputBuffer 0 e.inputPos
    exact Nat.le_trans length sound.inputPos
  · exact restart sound.ended

theorem Sound.doTabCompletion (sound : e.Sound)
    (fits : ∀ start name, e.completion commands entries = some (start, name) →
      start + name.chars.length + 2 ≤ shellBufferSize) :
    (e.doTabCompletion commands entries).Sound := by
  rw [Editor.doTabCompletion]
  split
  · exact sound
  · cases completes : e.completion commands entries with
    | none => exact sound.ended
    | some place =>
        have before : place.1 ≤ e.inputPos := completion_start completes
        exact (sound.ended.complete before place.2).2.2 (fits place.1 place.2 completes)

theorem Sound.press (sound : e.Sound) {key : KeyPress}
    (fits : key.char = 9 → ∀ start name, e.completion commands key.entries = some (start, name) →
      start + name.chars.length + 2 ≤ shellBufferSize) : (e.press commands key).Sound := by
  rw [Editor.press]
  split
  · exact sound.vary _ 1
  · split
    · exact sound.enter
    · split
      · exact ⟨⟨Nat.le_trans (Nat.sub_le _ _) sound.inputPos, sound.written⟩,
          fun i below => sound.typed i (Nat.lt_of_lt_of_le below (Nat.sub_le _ _)), sound.history⟩
      · split
        · rename_i tab
          exact sound.doTabCompletion (fits tab)
        · split
          · exact sound.cleared.vary _ _
          · split
            · rename_i printable
              split
              · rename_i room
                refine sound.put (Nat.le_trans room (Nat.sub_le _ _)) room fun i below => ?_
                by_cases before : i < e.inputPos
                · rw [putBytes_outside _ (.inl before)]
                  exact sound.typed i before
                · obtain rfl : i = e.inputPos := by omega
                  rw [putBytes_inside _ (Nat.le_refl _) (Nat.lt_succ_self _), Nat.sub_self]
                  rintro zero
                  have is : key.char = 0 := zero
                  exact absurd printable.1 (by rw [is]; decide)
              · exact sound
            · exact sound

/-- A key that is no tab with too long a completion keeps the editor sound. -/
theorem Sound.shellInput (sound : e.Sound) {key : KeyPress} (fits : TabFits commands e key) :
    (shellInput commands e key).Sound := by
  rw [Editor.shellInput]
  split
  · split
    · exact sound.vary _ 2
    · rename_i opened _
      refine (sound.vary e.historyIndex 0).press fun tab => fits tab ?_
      rw [opened]
      decide
  · split
    · exact sound.escape key.char
    · rename_i closed
      exact sound.press fun tab => fits tab closed

theorem press_tab {key : KeyPress} (tab : key.char = 9) :
    e.press commands key = e.doTabCompletion commands key.entries := by
  rw [press, tab]
  rfl

/-- A completion that does not fit is written all the same. -/
theorem Sound.doTabCompletion_fits (sound : e.Sound)
    (completes : e.completion commands entries = some (start, name))
    (inside : (e.doTabCompletion commands entries).InBounds) :
    start + name.chars.length + 2 ≤ shellBufferSize := by
  have some : e.inputPos ≠ 0 := by
    intro empty
    have none : e.word.chars = [] := by
      rw [word, empty]
      rfl
    rw [completion, if_pos (.inl none)] at completes
    cases completes
  have written := inside.written
  rw [Editor.doTabCompletion, if_neg some, completes] at written
  have before : start ≤ e.inputPos := completion_start completes
  exact Nat.le_trans (sound.ended.complete before name).2.1 written

theorem Sound.tabFits (sound : e.Sound) {key : KeyPress}
    (inside : (Editor.shellInput commands e key).InBounds) : TabFits commands e key := by
  intro tab outside start name completes
  rw [Editor.shellInput] at inside
  by_cases opened : e.escapeState = 1
  · rw [if_pos opened, if_neg (by rw [tab]; decide), press_tab tab] at inside
    exact (sound.vary e.historyIndex 0).doTabCompletion_fits completes inside
  · rw [if_neg opened, if_neg outside, press_tab tab] at inside
    exact sound.doTabCompletion_fits completes inside

/-- In every run of keys the position and the writes stay inside the buffer exactly if every tab
leaves room for the name that it completes. -/
theorem editor_in_bounds_iff (commands : List CString) (keys : List KeyPress) :
    Along (shellInput commands) (fun e key => (shellInput commands e key).InBounds) init keys ↔
      Along (shellInput commands) (TabFits commands) init keys := by
  refine along_iff Sound InBounds (fun e sound => sound.toInBounds)
    (fun e key sound fits => sound.shellInput fits) (fun e key sound => sound.tabFits) ?_ keys
  exact ⟨⟨Nat.zero_le _, by decide⟩, fun i below => absurd below (Nat.not_lt_zero i),
    fun i => Nat.zero_le _⟩

def longEntry : CString := ⟨List.replicate 63 98, by decide⟩

/-- The letter of the one name in the directory, and a tab that completes it. -/
def completed : List KeyPress := [⟨98, []⟩, ⟨9, [longEntry]⟩]

/-- The fourth name of 63 characters on the line behind a command runs over its end. -/
theorem completion_overruns : ¬ Along (shellInput [])
    (fun e key => (shellInput [] e key).InBounds) init
    ([⟨97, []⟩, ⟨32, []⟩] ++ completed ++ completed ++ completed ++ completed) := by
  intro inside
  have last := (along_append.mp inside).2.2.1
  exact absurd last.written (by decide +kernel)

end Editor

end ZurichOS
