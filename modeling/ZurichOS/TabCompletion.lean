import Mathlib.Data.List.Induction
import ZurichOS.LineEditor

/-!
What a tab makes of the line when one name completes the word in front of the cursor.
-/

namespace ZurichOS

open ByteBuffer Transitions

namespace Editor

variable {e : Editor} {commands entries : List CString} {start : Nat} {name other : CString}

/-- The word gives way to the name and a space. -/
def Completes (e : Editor) (commands entries : List CString) (name : CString) : Prop :=
  (e.doTabCompletion commands entries).InBounds ∧
    Shows (e.doTabCompletion commands entries)
      (bytesAt e.inputBuffer 0 (wordStart e.inputBuffer e.inputPos) ++ name.chars ++ [32])

theorem Sound.complete_shows (sound : e.Sound) (within : start ≤ e.inputPos) (name : CString) :
    Shows (e.complete start name) (bytesAt e.inputBuffer 0 start ++ name.chars ++ [32]) := by
  have is := (sound.complete_eq within name).1
  have length : (bytesAt e.inputBuffer 0 start ++ name.chars ++ [32]).length =
      start + name.chars.length + 1 := by
    rw [List.length_append, List.length_append, bytesAt_length, List.length_singleton]
  generalize isStop : start + name.chars.length = stop at is length
  have pos : (e.complete start name).inputPos = stop + 1 := congrArg Editor.inputPos is
  have buffer : (e.complete start name).inputBuffer =
      putBytes (putBytes e.inputBuffer start (name.chars ++ [0])) stop [32, 0] :=
    congrArg Editor.inputBuffer is
  have before : bytesAt (e.complete start name).inputBuffer 0 start =
      bytesAt e.inputBuffer 0 start := by
    rw [buffer]
    refine bytesAt_congr fun i below => ?_
    rw [putBytes_outside _ (.inl (by omega)), putBytes_outside _ (.inl (by omega))]
  have copied : bytesAt (e.complete start name).inputBuffer start name.chars.length =
      name.chars := by
    have whole := @bytesAt_putBytes e.inputBuffer start (name.chars ++ [0])
    rw [List.length_append, ← bytesAt_append] at whole
    have first := (List.append_inj whole (bytesAt_length _ _ _)).1
    rw [buffer]
    refine Eq.trans (bytesAt_congr fun i below => ?_) first
    exact putBytes_outside _ (.inl (by omega))
  have space : bytesAt (e.complete start name).inputBuffer stop 2 = [32, 0] := by
    rw [buffer]
    exact @bytesAt_putBytes _ stop [32, 0]
  have split : bytesAt (e.complete start name).inputBuffer 0 (stop + 2) =
      bytesAt (e.complete start name).inputBuffer 0 start ++
        bytesAt (e.complete start name).inputBuffer start name.chars.length ++
        bytesAt (e.complete start name).inputBuffer stop 2 := by
    have front := @bytesAt_append (e.complete start name).inputBuffer 0 start name.chars.length
    have whole := @bytesAt_append (e.complete start name).inputBuffer 0 (start + name.chars.length) 2
    rw [Nat.zero_add] at front whole
    rw [← isStop, front, whole]
  refine ⟨pos.trans length.symm, ?_⟩
  rw [length, split, before, copied, space, List.append_assoc _ [32] [0]]
  rfl

theorem wordStart_pos (some : e.word.chars ≠ []) : e.inputPos ≠ 0 := by
  intro empty
  rw [word, empty] at some
  exact some rfl

theorem doTabCompletion_complete (completes : e.completion commands entries = some (start, name)) :
    e.doTabCompletion commands entries = (e.put e.inputPos [0]).complete start name := by
  have some : e.inputPos ≠ 0 := by
    refine wordStart_pos fun none => ?_
    rw [completion, if_pos (.inl none)] at completes
    cases completes
  rw [doTabCompletion, if_neg some, completes]

/-- What is copied is the one match if that is a command or the last entry of the directory. -/
theorem completion_of_one (some : e.word.chars ≠ [])
    (one : e.matching commands entries = [name]) :
    ∃ taken, e.completion commands entries =
        Option.some (wordStart e.inputBuffer e.inputPos, taken) ∧
      (taken = name ↔
        wordStart e.inputBuffer e.inputPos = 0 ∨ entries.getLast? = Option.some name) := by
  have single : ¬ (e.word.chars = [] ∨ [name].length ≠ 1) := by simp [some]
  rw [completion, one, if_neg single]
  dsimp only
  by_cases first : wordStart e.inputBuffer e.inputPos = 0
  · exact ⟨name, by rw [if_pos first]; rfl, iff_of_true rfl (.inl first)⟩
  · rw [if_neg first]
    have listed : entries ≠ [] := by
      rintro rfl
      rw [matching, if_neg first] at one
      cases one
    rw [List.getLast?_eq_some_getLast listed]
    refine ⟨entries.getLast listed, rfl, ?_⟩
    rw [or_iff_right first, Option.some.injEq]

theorem Shows.inj {first second : List UInt8} (shown : Shows e first) (other : Shows e second) :
    first = second := by
  have same := shown.inputPos.symm.trans other.inputPos
  have bytes := shown.inputBuffer
  rw [same, other.inputBuffer] at bytes
  exact (List.append_cancel_right bytes).symm

/-- A tab after a word with one match completes it if there is room, and if the match is a command
or the last entry of the directory, and only then. -/
theorem tab_completes_iff (sound : e.Sound) (some : e.word.chars ≠ [])
    (one : e.matching commands entries = [name]) :
    Completes e commands entries name ↔
      (wordStart e.inputBuffer e.inputPos = 0 ∨ entries.getLast? = Option.some name) ∧
        wordStart e.inputBuffer e.inputPos + name.chars.length + 2 ≤ shellBufferSize := by
  obtain ⟨taken, completes, isName⟩ := completion_of_one some one
  have within := completion_start completes
  have shown := sound.ended.complete_shows within taken
  have before : bytesAt (e.put e.inputPos [0]).inputBuffer 0 (wordStart e.inputBuffer e.inputPos) =
      bytesAt e.inputBuffer 0 (wordStart e.inputBuffer e.inputPos) :=
    bytesAt_congr fun i below => putBytes_outside _ (.inl (by omega))
  rw [before, ← doTabCompletion_complete completes] at shown
  rw [← isName]
  constructor
  · rintro ⟨inside, shows_name⟩
    have line := shown.inj shows_name
    have chars := List.append_cancel_left (List.append_cancel_right line)
    have same : taken = name := by
      cases taken
      cases name
      cases chars
      rfl
    exact ⟨same, same ▸ sound.doTabCompletion_fits completes inside⟩
  · rintro ⟨rfl, fits⟩
    rw [Completes]
    refine ⟨?_, shown⟩
    rw [doTabCompletion_complete completes]
    exact ((sound.ended.complete within taken).2.2 fits).toInBounds

/-- The editor is sound after keys that fit. -/
theorem sound_after (keys : List KeyPress)
    (fits : Along (shellInput commands) (TabFits commands) init keys) :
    (keys.foldl (shellInput commands) init).Sound := by
  induction keys using List.reverseRecOn with
  | nil =>
      exact ⟨⟨Nat.zero_le _, Nat.succ_le_succ (Nat.zero_le _)⟩,
        fun i below => absurd below (Nat.not_lt_zero i), fun i => Nat.zero_le _⟩
  | append_singleton keys key ih =>
      rw [List.foldl_concat]
      exact (ih (along_append.mp fits).1).shellInput fits.last

def first : CString := ⟨[98, 99], by decide⟩
def second : CString := ⟨[100], by decide⟩

/-- A command, a space and the first letter of the first entry. -/
def partialWord : Editor := [97, 32, 98].foldl (fun e c => shellInput [] e ⟨c, []⟩) init

theorem partialWord_sound : partialWord.Sound :=
  @sound_after [] [⟨97, []⟩, ⟨32, []⟩, ⟨98, []⟩]
    ⟨fun tab => absurd tab (by decide), fun tab => absurd tab (by decide),
      fun tab => absurd tab (by decide), trivial⟩

theorem tab_completes_last : Completes partialWord [] [second, first] first :=
  (tab_completes_iff partialWord_sound (by decide) rfl).mpr ⟨.inr rfl, by decide⟩

/-- The word becomes the entry that is listed last. -/
theorem completion_takes_last :
    partialWord.word.chars ≠ [] ∧ partialWord.matching [] [first, second] = [first] ∧
      ¬ Completes partialWord [] [first, second] first := by
  refine ⟨by decide, rfl, fun completes => ?_⟩
  have pos := completes.2.inputPos
  exact absurd pos (by decide)

end Editor

end ZurichOS
