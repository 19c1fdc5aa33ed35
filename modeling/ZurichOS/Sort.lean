import Mathlib.Data.List.TakeWhile
import ZurichOS.BubbleSort
import ZurichOS.ByteBuffer
import ZurichOS.CString
import ZurichOS.Words

set_option linter.all false

/-!
`sort`: the lines of a file are counted, cut at their ends and put in order.
-/

namespace ZurichOS

open ByteBuffer Words

/-- A file of any file system, with what a read of it gives and leaves in the buffer. -/
structure VfsFile where
  isDirectory : Bool
  length : Nat
  word : length < 4294967296
  read : Nat → Nat → Int × List UInt8

/-- The heap starts at `0xD0000000`, so that no block is larger than what is behind. -/
def kmallocSucceeds (memory : Bool) (size : Nat) : Bool :=
  memory && 0 < size && size ≤ 0x30000000

/-- The buffer with its terminator. -/
def readFileContents (memory : Bool) (file : VfsFile) : Option (List UInt8) :=
  if file.isDirectory || file.length = 0 then none
  else if !kmallocSucceeds memory (u32 (file.length + 1)) then none
  else
    let result := file.read 0 file.length
    if result.1 ≤ 0 then none else some (result.2.take result.1.toNat ++ [0])

section Memory

/-! The functions on strings take what is left of a buffer; none stands for an access behind it. -/

def strcmp : List UInt8 → List UInt8 → Option Int
  | c :: s, d :: t => if c ≠ 0 ∧ c = d then strcmp s t else some (c.toNat - d.toNat)
  | _, _ => none

/-- How far the character is, if it comes before the end of the string. -/
def strchr (char : UInt8) : List UInt8 → Option (Option Nat)
  | [] => none
  | c :: s =>
      if c = 0 then some none
      else if c = char then some (some 0)
      else (strchr char s).map fun found => found.map (· + 1)

def puts : List UInt8 → Option (List UInt8)
  | [] => none
  | c :: s => if c = 0 then some [] else (puts s).map (c :: ·)

end Memory

def countLines (contents : List UInt8) : Nat :=
  contents.count 10 + if contents.getLast? ≠ none ∧ contents.getLast? ≠ some 10 then 1 else 0

/-- The ends of the lines become terminators, and the table gets where the lines start. -/
def cutLines (capacity : Nat) : (left idx : Nat) → List UInt8 → Nat →
    Option (List UInt8 × List Nat)
  | 0, _, data, p => if p < data.length then some (data, []) else none
  | left + 1, idx, data, p =>
      match data[p]? with
      | none => none
      | some c =>
          if c = 0 then some (data, [])
          else if capacity ≤ idx then none
          else
            match strchr 10 (data.drop p) with
            | none => none
            | some none => some (data, [p])
            | some (some far) =>
                (cutLines capacity left (idx + 1) (data.set (p + far) 0) (p + far + 1)).map
                  fun rest => (rest.1, p :: rest.2)

/-- A turn of the inner loop of `cmd_sort`. -/
def sortTurn (reverse : Bool) (capacity : Nat) (data : List UInt8) (lines : Nat → Nat) (j : Nat) :
    Option (Nat → Nat) :=
  if capacity ≤ j + 1 then none
  else
    (strcmp (data.drop (lines j)) (data.drop (lines (j + 1)))).map fun cmp =>
      let cmp := if reverse then -cmp else cmp
      if 0 < cmp then
        Function.update (Function.update lines j (lines (j + 1))) (j + 1) (lines j)
      else lines

def sortLines (reverse : Bool) (capacity : Nat) (data : List UInt8) (count : Nat)
    (lines : Nat → Nat) : Option (Nat → Nat) :=
  (List.range (count - 1)).foldlM (fun lines i =>
    (List.range (count - 1 - i)).foldlM (sortTurn reverse capacity data) lines) lines

def putLines (capacity : Nat) (data : List UInt8) (lines : Nat → Nat) (count : Nat) :
    Option (List UInt8) :=
  (List.range count).foldlM (fun out i =>
    if capacity ≤ i then none
    else (puts (data.drop (lines i))).map fun line => out ++ line ++ [10]) []

def message (text : String) : List UInt8 := (CString.ofString text).chars

/-- What is printed; none stands for an access outside of the table or the buffer. -/
def sortFile (reverse : Bool) (file : VfsFile) (memory : Nat → Bool) : Option (List UInt8) :=
  if file.isDirectory then some (message "sort: is a directory\n")
  else
    match readFileContents (memory 0) file with
    | none => some (if file.length = 0 then [] else message "sort: cannot read file\n")
    | some data =>
        let numLines := countLines (data.take (data.length - 1))
        if numLines = 0 then some []
        else
          let bytes := u32 (numLines * 4)
          if !kmallocSucceeds (memory 1) bytes then some (message "sort: out of memory\n")
          else
            match cutLines (bytes / 4) numLines 0 data 0 with
            | none => none
            | some (data, starts) =>
                (sortLines reverse (bytes / 4) data starts.length fun i => starts.getD i 0).bind
                  fun lines => putLines (bytes / 4) data lines starts.length

def cmdSort (args : List CString) (resolvePath : CString → Option VfsFile)
    (memory : Nat → Bool) : Option (List UInt8) :=
  let reverse := args.head? = some (.ofString "-r")
  match if reverse then args.tail else args with
  | [] => some (message "Usage: sort [-r] <file>\n")
  | path :: _ =>
      match resolvePath path with
      | none => some (message "sort: file not found: " ++ path.chars ++ [10])
      | some file => sortFile reverse file memory

/-- The lines of a text, the last of which need not be ended. -/
def fileLines : List UInt8 → List (List UInt8)
  | [] => []
  | c :: rest =>
      if c = 10 then [] :: fileLines rest
      else
        match fileLines rest with
        | [] => [[c]]
        | line :: others => (c :: line) :: others

/-- `strcmp` of two strings. -/
def compareChars : List UInt8 → List UInt8 → Int
  | [], [] => 0
  | [], d :: _ => -d.toNat
  | c :: _, [] => c.toNat
  | c :: s, d :: t => if c = d then compareChars s t else c.toNat - d.toNat

/-- The strings come in the order that is asked for. -/
def InOrder (reverse : Bool) (s t : List UInt8) : Prop :=
  (if reverse then -compareChars s t else compareChars s t) ≤ 0

instance (reverse : Bool) (s t : List UInt8) : Decidable (InOrder reverse s t) :=
  inferInstanceAs (Decidable (_ ≤ _))

section Compare

variable {s t u : List UInt8}

theorem cString_plain (s : List UInt8) : 0 ∉ cString s :=
  fun member => by simpa using List.mem_takeWhile_imp member

theorem cString_cons {c : UInt8} (some : c ≠ 0) (s : List UInt8) :
    cString (c :: s) = c :: cString s :=
  List.takeWhile_cons_of_pos (decide_eq_true some)

theorem cString_append_zero (plain : 0 ∉ s) (behind : List UInt8) :
    cString (s ++ 0 :: behind) = s := by
  rw [cString, List.takeWhile_append_of_pos]
  · rw [List.takeWhile_cons_of_neg (by decide), List.append_nil]
  · intro c member
    exact decide_eq_true fun zero => plain (zero ▸ member)

theorem compareChars_swap (s t : List UInt8) : compareChars t s = -compareChars s t := by
  induction s generalizing t with
  | nil =>
      cases t with
      | nil => rfl
      | cons d t => exact (Int.neg_neg _).symm
  | cons c s ih =>
      cases t with
      | nil => rfl
      | cons d t =>
          rw [compareChars, compareChars]
          by_cases same : c = d
          · rw [if_pos same, if_pos same.symm, ih]
          · rw [if_neg same, if_neg fun other => same other.symm, Int.neg_sub]

theorem compareChars_trans (plain : 0 ∉ s) (plain_t : 0 ∉ t) (first : compareChars s t ≤ 0)
    (second : compareChars t u ≤ 0) : compareChars s u ≤ 0 := by
  induction s generalizing t u with
  | nil =>
      cases u with
      | nil => exact Int.le_refl 0
      | cons e u => exact Int.neg_nonpos_of_nonneg (Int.natCast_nonneg _)
  | cons c s ih =>
      have positive {d : UInt8} {rest : List UInt8} (some : 0 ∉ d :: rest) : 0 < d.toNat := by
        refine Nat.pos_of_ne_zero fun zero => some ?_
        rw [show d = 0 from UInt8.toNat_inj.mp zero]
        exact List.mem_cons_self
      have head := positive plain
      cases t with
      | nil =>
          have below : (c.toNat : Int) ≤ 0 := first
          omega
      | cons d t =>
          have head_t := positive plain_t
          cases u with
          | nil =>
              have below : (d.toNat : Int) ≤ 0 := second
              omega
          | cons e u =>
              rw [compareChars] at first second ⊢
              by_cases same : c = d
              · rw [if_pos same] at first
                rw [same]
                by_cases next : d = e
                · rw [if_pos next] at second ⊢
                  exact ih (fun member => plain (List.mem_cons_of_mem _ member))
                    (fun member => plain_t (List.mem_cons_of_mem _ member)) first second
                · rw [if_neg next] at second ⊢
                  exact second
              · rw [if_neg same] at first
                have differ : c.toNat ≠ d.toNat := fun equal => same (UInt8.toNat_inj.mp equal)
                by_cases next : d = e
                · rw [← next, if_neg same]
                  exact first
                · rw [if_neg next] at second
                  have apart : c ≠ e := by
                    rintro rfl
                    omega
                  rw [if_neg apart]
                  omega

theorem inOrder_total (reverse : Bool) (s t : List UInt8) :
    InOrder reverse s t ∨ InOrder reverse t s := by
  rw [InOrder, InOrder, compareChars_swap s t]
  split
  · omega
  · omega

theorem inOrder_trans {reverse : Bool} (plain : 0 ∉ s) (plain_t : 0 ∉ t) (plain_u : 0 ∉ u)
    (first : InOrder reverse s t) (second : InOrder reverse t u) : InOrder reverse s u := by
  rw [InOrder] at first second ⊢
  cases reverse with
  | false => exact compareChars_trans plain plain_t first second
  | true =>
      rw [if_pos rfl, ← compareChars_swap] at first second ⊢
      exact compareChars_trans plain_u plain_t second first

/-- Strings that end in the buffer are compared without leaving it. -/
theorem strcmp_eq (ends : 0 ∈ s) (ends_t : 0 ∈ t) :
    strcmp s t = some (compareChars (cString s) (cString t)) := by
  induction s generalizing t with
  | nil => cases ends
  | cons c s ih =>
      cases t with
      | nil => cases ends_t
      | cons d t =>
          rw [strcmp]
          by_cases more : c ≠ 0 ∧ c = d
          · obtain ⟨some, rfl⟩ := more
            rw [if_pos ⟨some, rfl⟩, cString_cons some, cString_cons some, compareChars, if_pos rfl]
            exact ih ((List.mem_cons.mp ends).resolve_left (Ne.symm some))
              ((List.mem_cons.mp ends_t).resolve_left (Ne.symm some))
          · rw [if_neg more]
            by_cases zero : c = 0
            · by_cases zero_t : d = 0
              · rw [zero, zero_t]
                rfl
              · rw [zero, cString_cons zero_t]
                exact congrArg some (Int.zero_sub _)
            · by_cases zero_t : d = 0
              · rw [zero_t, cString_cons zero]
                exact congrArg some (Int.sub_zero _)
              · rw [cString_cons zero, cString_cons zero_t, compareChars,
                  if_neg fun same => more ⟨zero, same⟩]

theorem puts_eq (ends : 0 ∈ s) : puts s = some (cString s) := by
  induction s with
  | nil => cases ends
  | cons c s ih =>
      rw [puts]
      by_cases zero : c = 0
      · rw [if_pos zero, zero]
        rfl
      · rw [if_neg zero, ih ((List.mem_cons.mp ends).resolve_left (Ne.symm zero)), cString_cons zero]
        rfl

theorem strchr_eq_some {char : UInt8} (some : char ≠ 0) (plain : 0 ∉ s) (before : char ∉ s)
    (behind : List UInt8) : strchr char (s ++ char :: behind) = Option.some (Option.some s.length) := by
  induction s with
  | nil => rw [List.nil_append, strchr, if_neg some, if_pos rfl]; rfl
  | cons c s ih =>
      rw [List.cons_append, strchr, if_neg fun zero : c = 0 => plain (zero ▸ List.mem_cons_self),
        if_neg fun same : c = char => before (same ▸ List.mem_cons_self),
        ih (fun member => plain (List.mem_cons_of_mem _ member))
          (fun member => before (List.mem_cons_of_mem _ member))]
      rfl

theorem strchr_eq_none {char : UInt8} (plain : 0 ∉ s) (before : char ∉ s) (behind : List UInt8) :
    strchr char (s ++ 0 :: behind) = Option.some none := by
  induction s with
  | nil => rfl
  | cons c s ih =>
      rw [List.cons_append, strchr, if_neg fun zero : c = 0 => plain (zero ▸ List.mem_cons_self),
        if_neg fun same : c = char => before (same ▸ List.mem_cons_self),
        ih (fun member => plain (List.mem_cons_of_mem _ member))
          (fun member => before (List.mem_cons_of_mem _ member))]
      rfl

end Compare

section Lines

variable {line rest contents : List UInt8}

theorem fileLines_ended (inside : 10 ∉ line) (rest : List UInt8) :
    fileLines (line ++ 10 :: rest) = line :: fileLines rest := by
  induction line with
  | nil => rfl
  | cons c line ih =>
      rw [List.cons_append, fileLines, if_neg fun same : c = 10 => inside (same ▸ List.mem_cons_self),
        ih fun member => inside (List.mem_cons_of_mem _ member)]

theorem fileLines_last (some : line ≠ []) (inside : 10 ∉ line) : fileLines line = [line] := by
  induction line with
  | nil => exact absurd rfl some
  | cons c line ih =>
      rw [fileLines, if_neg fun same : c = 10 => inside (same ▸ List.mem_cons_self)]
      by_cases last : line = []
      · rw [last]
        rfl
      · rw [ih last fun member => inside (List.mem_cons_of_mem _ member)]

theorem fileLines_ne_nil (c : UInt8) (rest : List UInt8) : fileLines (c :: rest) ≠ [] := by
  rw [fileLines]
  split
  · exact List.cons_ne_nil _ _
  · split
    · exact List.cons_ne_nil _ _
    · exact List.cons_ne_nil _ _

theorem fileLines_cons_length (c d : UInt8) (rest : List UInt8) :
    (fileLines (c :: d :: rest)).length =
      (fileLines (d :: rest)).length + if c = 10 then 1 else 0 := by
  rw [fileLines]
  by_cases ends : c = 10
  · rw [if_pos ends, if_pos ends, List.length_cons]
  · rw [if_neg ends, if_neg ends]
    cases isLines : fileLines (d :: rest) with
    | nil => exact absurd isLines (fileLines_ne_nil d rest)
    | cons line others => rfl

/-- The first pass counts the lines that the second one cuts. -/
theorem countLines_eq (contents : List UInt8) : countLines contents = (fileLines contents).length := by
  induction contents with
  | nil => rfl
  | cons c rest ih =>
      cases rest with
      | nil =>
          rw [countLines, fileLines]
          by_cases ends : c = 10
          · rw [ends]
            rfl
          · simp [ends, fileLines]
      | cons d rest =>
          have same : countLines (c :: d :: rest) =
              countLines (d :: rest) + if c = 10 then 1 else 0 := by
            rw [countLines, countLines, List.getLast?_cons_cons, List.count_cons]
            simp only [beq_iff_eq]
            omega
          rw [same, ih, fileLines_cons_length]

theorem fileLines_length_le (contents : List UInt8) :
    (fileLines contents).length ≤ contents.length := by
  induction contents with
  | nil => exact Nat.le_refl 0
  | cons c rest ih =>
      rw [fileLines]
      split
      · exact Nat.succ_le_succ ih
      · split
        · exact Nat.succ_le_succ (Nat.zero_le _)
        · rename_i isLines
          rw [isLines] at ih
          exact Nat.le_succ_of_le ih

/-- What is cut are the lines of the rest of the text. -/
theorem cutLines_spec (capacity left idx : Nat) (cut remaining : List UInt8)
    (plain : 0 ∉ remaining) (room : (fileLines remaining).length ≤ left)
    (fits : idx + (fileLines remaining).length ≤ capacity) :
    ∃ front starts, cutLines capacity left idx (cut ++ (remaining ++ [0])) cut.length =
        some (cut ++ (front ++ [0]), starts) ∧ front.length = remaining.length ∧
      starts.map (fun start => cString ((cut ++ (front ++ [0])).drop start)) =
        fileLines remaining ∧
      ∀ start ∈ starts, start ≤ (cut ++ front).length := by
  induction left generalizing idx cut remaining with
  | zero =>
      have none : remaining = [] := by
        cases remaining with
        | nil => rfl
        | cons c rest =>
            exact absurd (List.length_eq_zero_iff.mp (Nat.le_zero.mp room)) (fileLines_ne_nil c rest)
      subst none
      refine ⟨[], [], ?_, rfl, rfl, nofun⟩
      rw [cutLines, if_pos]
      rw [List.nil_append, List.length_append, List.length_singleton]
      exact Nat.lt_succ_self _
  | succ left ih =>
      have first : (cut ++ (remaining ++ [0]))[cut.length]? = (remaining ++ [0])[0]? := by
        rw [List.getElem?_append_right (Nat.le_refl _), Nat.sub_self]
      have ahead : (cut ++ (remaining ++ [0])).drop cut.length = remaining ++ [0] := by
        rw [List.drop_append_of_le_length (Nat.le_refl _), List.drop_length, List.nil_append]
      rw [cutLines, first, ahead]
      cases isRemaining : remaining with
      | nil => exact ⟨[], [], rfl, rfl, rfl, nofun⟩
      | cons c rest =>
          have some : c ≠ 0 := fun zero : c = 0 =>
            plain (by rw [isRemaining, zero]; exact List.mem_cons_self)
          have more : 0 < (fileLines remaining).length := by
            rw [isRemaining]
            exact List.length_pos_iff.mpr (fileLines_ne_nil c rest)
          rw [List.cons_append, List.getElem?_cons_zero]
          dsimp only
          rw [if_neg some, if_neg (by omega), ← List.cons_append, ← isRemaining]
          by_cases ended : 10 ∈ remaining
          · obtain ⟨line, others, isLine, inside⟩ := List.eq_append_cons_of_mem ended
            have plain_line : 0 ∉ line := fun member =>
              plain (by rw [isLine]; exact List.mem_append_left _ member)
            have plain_others : 0 ∉ others := fun member => plain (by
              rw [isLine]
              exact List.mem_append_right _ (List.mem_cons_of_mem _ member))
            have isLines := fileLines_ended inside others
            rw [isLine, isLines, List.length_cons] at room fits
            obtain ⟨front, starts, cuts, length, strings, within⟩ := ih (idx + 1) (cut ++ line ++ [0])
              others plain_others (by omega) (by omega)
            have split : cut ++ (line ++ 10 :: others ++ [0]) =
                cut ++ line ++ 10 :: (others ++ [0]) := by simp
            have set : (cut ++ line ++ 10 :: (others ++ [0])).set (cut.length + line.length) 0 =
                cut ++ line ++ [0] ++ (others ++ [0]) := by
              rw [← List.length_append, List.set_append_right _ _ (Nat.le_refl _), Nat.sub_self]
              simp
            have position : cut.length + line.length + 1 = (cut ++ line ++ [0]).length := by
              simp [Nat.add_assoc]
            rw [isLine, List.append_assoc line, List.cons_append,
              strchr_eq_some (by decide) plain_line inside]
            dsimp only
            rw [← List.cons_append, ← List.append_assoc line, split, set, position, cuts]
            refine ⟨line ++ 0 :: front, cut.length :: starts, ?_, ?_, ?_, ?_⟩
            · simp
            · simp [length]
            · have same : cut ++ (line ++ 0 :: front ++ [0]) =
                  cut ++ line ++ [0] ++ (front ++ [0]) := by simp
              rw [same, List.map_cons, strings, isLines]
              congr 1
              have behind : (cut ++ line ++ [0] ++ (front ++ [0])).drop cut.length =
                  line ++ 0 :: (front ++ [0]) := by simp
              rw [behind, cString_append_zero plain_line]
            · intro start member
              rcases List.mem_cons.mp member with rfl | later
              · simp
              · have near := within start later
                simp only [List.length_append, List.length_cons, List.length_nil] at near ⊢
                omega
          · rw [strchr_eq_none plain ended]
            refine ⟨remaining, [cut.length], rfl, rfl, ?_, ?_⟩
            · rw [List.map_singleton, ahead, cString_append_zero plain,
                fileLines_last (by rw [isRemaining]; exact List.cons_ne_nil _ _) ended]
            · intro start member
              rw [List.mem_singleton.mp member, List.length_append]
              exact Nat.le_add_right _ _

end Lines

/-- Where every turn of a loop succeeds, so does the loop. -/
theorem foldlM_some {State Index : Type} (invariant : State → Prop)
    {step : State → Index → Option State} {next : State → Index → State} (list : List Index)
    (keeps : ∀ i ∈ list, ∀ state, invariant state →
      step state i = some (next state i) ∧ invariant (next state i))
    {state : State} (inv : invariant state) :
    list.foldlM step state = some (list.foldl next state) ∧ invariant (list.foldl next state) := by
  induction list generalizing state with
  | nil => exact ⟨rfl, inv⟩
  | cons i rest ih =>
      obtain ⟨is, kept⟩ := keeps i List.mem_cons_self state inv
      rw [List.foldlM_cons, is, List.foldl_cons]
      exact ih (fun j member => keeps j (List.mem_cons_of_mem _ member)) kept

section Sorting

variable {reverse : Bool} {capacity count : Nat} {data : List UInt8} {lines : Nat → Nat}

def textAt (data : List UInt8) (start : Nat) : List UInt8 := cString (data.drop start)

/-- The lines in the table end in the buffer. -/
def Ended (data : List UInt8) (count : Nat) (lines : Nat → Nat) : Prop :=
  ∀ k < count, 0 ∈ data.drop (lines k)

theorem sortTurn_eq (ended : Ended data count lines) (within : count ≤ capacity) {j : Nat}
    (inside : j + 1 < count) :
    sortTurn reverse capacity data lines j =
        some (BubbleSort.orderPair
          (fun a b => InOrder reverse (textAt data a) (textAt data b)) lines j) ∧
      Ended data count (BubbleSort.orderPair
        (fun a b => InOrder reverse (textAt data a) (textAt data b)) lines j) := by
  have swapped : Function.update (Function.update lines j (lines (j + 1))) (j + 1) (lines j) =
      lines ∘ Equiv.swap j (j + 1) := by
    funext k
    rw [Function.comp_apply]
    by_cases second : k = j + 1
    · rw [second, Function.update_self, Equiv.swap_apply_right]
    · rw [Function.update_of_ne second]
      by_cases first : k = j
      · rw [first, Function.update_self, Equiv.swap_apply_left]
      · rw [Function.update_of_ne first, Equiv.swap_apply_of_ne_of_ne first second]
  rw [sortTurn, if_neg (by omega), strcmp_eq (ended j (by omega)) (ended (j + 1) inside),
    BubbleSort.orderPair, swapped]
  by_cases inOrder : InOrder reverse (textAt data (lines j)) (textAt data (lines (j + 1)))
  · rw [if_pos inOrder]
    refine ⟨congrArg some (if_neg ?_), ended⟩
    exact Int.not_lt.mpr inOrder
  · rw [if_neg inOrder]
    refine ⟨congrArg some (if_pos ?_), fun k below => ?_⟩
    · exact Int.not_le.mp inOrder
    · rw [Function.comp_apply]
      by_cases first : k = j
      · rw [first, Equiv.swap_apply_left]
        exact ended (j + 1) inside
      · by_cases second : k = j + 1
        · rw [second, Equiv.swap_apply_right]
          exact ended j (by omega)
        · rw [Equiv.swap_apply_of_ne_of_ne first second]
          exact ended k below

theorem sortLines_eq (ended : Ended data count lines) (within : count ≤ capacity) :
    sortLines reverse capacity data count lines =
        some (BubbleSort.bubble
          (fun a b => InOrder reverse (textAt data a) (textAt data b)) count lines) ∧
      Ended data count (BubbleSort.bubble
        (fun a b => InOrder reverse (textAt data a) (textAt data b)) count lines) := by
  refine foldlM_some (Ended data count) _ (fun i member table endedI => ?_) ended
  refine foldlM_some (Ended data count) _ (fun j memberJ table endedJ => ?_) endedI
  have insideI := List.mem_range.mp member
  have insideJ := List.mem_range.mp memberJ
  exact sortTurn_eq endedJ within (by omega)

theorem putLines_eq (ended : Ended data count lines) (within : count ≤ capacity) :
    putLines capacity data lines count =
      some (((List.range count).map fun k => textAt data (lines k)).flatMap (· ++ [10])) := by
  have printed := (@foldlM_some (List UInt8) Nat (fun _ => True)
    (fun out i => if capacity ≤ i then none
      else (puts (data.drop (lines i))).map fun line => out ++ line ++ [10])
    (fun out i => out ++ textAt data (lines i) ++ [10]) (List.range count)
    (fun i member out _ => ?_) [] trivial).1
  · rw [putLines, printed]
    congr 1
    rw [List.flatMap_map, List.flatMap_eq_foldl]
    simp only [List.append_assoc]
  · have inside := List.mem_range.mp member
    rw [if_neg (by omega), puts_eq (ended i inside)]
    exact ⟨rfl, trivial⟩

end Sorting

/-- The file has the contents, and a read of all of it succeeds. -/
structure VfsFile.Holds (file : VfsFile) (contents : List UInt8) : Prop where
  isFile : file.isDirectory = false
  length : file.length = contents.length
  read : file.read 0 file.length = ((contents.length : Int), contents)

/-- The second pass and the two loops behind it. -/
theorem cut_and_sort (reverse : Bool) {contents : List UInt8} (plain : 0 ∉ contents) :
    ∃ lines : List (List UInt8), lines.Perm (fileLines contents) ∧
      lines.Pairwise (InOrder reverse) ∧
      ∃ data starts table, cutLines (fileLines contents).length (fileLines contents).length 0
          (contents ++ [0]) 0 = some (data, starts) ∧
        sortLines reverse (fileLines contents).length data starts.length
          (fun i => starts.getD i 0) = some table ∧
        putLines (fileLines contents).length data table starts.length =
          some (lines.flatMap (· ++ [10])) := by
  obtain ⟨front, starts, cuts, -, strings, within⟩ := cutLines_spec (fileLines contents).length
    (fileLines contents).length 0 [] contents plain (Nat.le_refl _) (by rw [Nat.zero_add])
  simp only [List.nil_append, List.length_nil] at cuts strings within
  have count : (fileLines contents).length = starts.length := by
    rw [← strings, List.length_map]
  have ended : Ended (front ++ [0]) starts.length fun i => starts.getD i 0 := by
    intro k below
    dsimp only
    rw [List.getD_eq_getElem _ _ below,
      List.drop_append_of_le_length (within _ (List.getElem_mem below))]
    exact List.mem_append_right _ List.mem_cons_self
  have listed : (List.range starts.length).map (fun i => starts.getD i 0) = starts := by
    refine List.ext_getElem (by simp) fun k _ below => ?_
    rw [List.getElem_map, List.getElem_range, List.getD_eq_getElem _ _ below]
  obtain ⟨sorts, ended_after⟩ := @sortLines_eq reverse (fileLines contents).length starts.length
    (front ++ [0]) _ ended (by omega)
  obtain ⟨perm, sorted⟩ := @BubbleSort.bubble_spec Nat
    (fun a b => InOrder reverse (textAt (front ++ [0]) a) (textAt (front ++ [0]) b)) _
    (fun a b => inOrder_total reverse _ _)
    (fun a b c => inOrder_trans (cString_plain _) (cString_plain _) (cString_plain _))
    (fun i => starts.getD i 0) starts.length
  have prints := putLines_eq ended_after (show starts.length ≤ (fileLines contents).length by omega)
  refine ⟨_, ?_, ?_, front ++ [0], starts, _, cuts, sorts, prints⟩
  · have texts := perm.map (textAt (front ++ [0]))
    rw [listed, List.map_map] at texts
    exact texts.trans (List.Perm.of_eq strings)
  · rw [List.pairwise_map] at sorted ⊢
    exact sorted

theorem kmallocSucceeds_u32 (memory : Bool) {size : Nat} (word : size ≤ 4294967296) :
    kmallocSucceeds memory (u32 size) = kmallocSucceeds memory size := by
  by_cases wraps : size = 4294967296
  · rw [wraps, kmallocSucceeds, kmallocSucceeds]
    cases memory with
    | false => rfl
    | true => rfl
  · rw [u32_eq_of_lt (by omega)]

theorem kmallocSucceeds_le {memory : Bool} {size : Nat}
    (succeeds : kmallocSucceeds memory size = true) : size ≤ 805306368 := by
  rw [kmallocSucceeds, Bool.and_eq_true] at succeeds
  exact of_decide_eq_true succeeds.2

theorem VfsFile.Holds.readFileContents_eq {file : VfsFile} {contents : List UInt8}
    (holds : file.Holds contents) (memory : Bool) :
    readFileContents memory file =
      if contents = [] ∨ kmallocSucceeds memory (contents.length + 1) = false then none
      else some (contents ++ [0]) := by
  have word := file.word
  rw [holds.length] at word
  rw [readFileContents, holds.isFile, holds.read, holds.length, kmallocSucceeds_u32 _ (by omega)]
  by_cases empty : contents = []
  · simp [empty]
  · have positive : contents.length ≠ 0 := fun none => empty (List.length_eq_zero_iff.mp none)
    cases kmallocSucceeds memory (contents.length + 1) with
    | false => simp
    | true =>
        have isSize : (contents.length : Int).toNat = contents.length := Int.toNat_natCast _
        simp [empty, isSize]

/-- Where the memory suffices the lines of the file are printed in order; otherwise there is
a message. -/
theorem sortFile_sorts (reverse : Bool) {file : VfsFile} {contents : List UInt8}
    (holds : file.Holds contents) (plain : 0 ∉ contents) (memory : Nat → Bool) :
    ∃ lines : List (List UInt8), lines.Perm (fileLines contents) ∧
      lines.Pairwise (InOrder reverse) ∧
      sortFile reverse file memory = some (
        if contents = [] then []
        else if !kmallocSucceeds (memory 0) (contents.length + 1) then
          message "sort: cannot read file\n"
        else if !kmallocSucceeds (memory 1) (4 * (fileLines contents).length) then
          message "sort: out of memory\n"
        else lines.flatMap (· ++ [10])) := by
  obtain ⟨lines, perm, sorted, data, starts, table, cuts, sorts, prints⟩ :=
    cut_and_sort reverse plain
  refine ⟨lines, perm, sorted, ?_⟩
  rw [sortFile, if_neg (by rw [holds.isFile]; decide), holds.readFileContents_eq, holds.length]
  by_cases empty : contents = []
  · rw [if_pos empty, empty]
    rfl
  · have some : contents.length ≠ 0 := fun none => empty (List.length_eq_zero_iff.mp none)
    rw [if_neg empty]
    by_cases first : kmallocSucceeds (memory 0) (contents.length + 1) = true
    · have small := kmallocSucceeds_le first
      have within := fileLines_length_le contents
      have whole : (contents ++ [0]).take ((contents ++ [0]).length - 1) = contents := by simp
      have lines_some : (fileLines contents).length ≠ 0 := by
        cases contents with
        | nil => exact absurd rfl empty
        | cons c rest => exact fun none => fileLines_ne_nil c rest (List.length_eq_zero_iff.mp none)
      have held : ¬ (contents = [] ∨
          kmallocSucceeds (memory 0) (contents.length + 1) = false) := by
        rw [first]
        simpa using empty
      rw [if_neg held, first]
      simp only [Bool.not_true, Bool.false_eq_true, if_false]
      rw [whole, countLines_eq, if_neg lines_some, u32_eq_of_lt (by omega),
        Nat.mul_div_cancel _ (by decide), Nat.mul_comm, cuts]
      dsimp only
      rw [sorts, Option.bind_some, prints]
      split
      · rfl
      · rfl
    · rw [Bool.not_eq_true] at first
      rw [if_pos (.inr first), first]
      exact congrArg Option.some (if_neg some)

/-- `sort` with its arguments; behind `-r` the order is turned round. -/
theorem cmdSort_sorts {args : List CString} {path : CString} {others : List CString}
    {resolvePath : CString → Option VfsFile} {file : VfsFile} {contents : List UInt8}
    (isPath : (if args.head? = some (.ofString "-r") then args.tail else args) = path :: others)
    (resolves : resolvePath path = some file) (holds : file.Holds contents)
    (plain : 0 ∉ contents) (memory : Nat → Bool) :
    ∃ lines : List (List UInt8), lines.Perm (fileLines contents) ∧
      lines.Pairwise (InOrder (decide (args.head? = some (.ofString "-r")))) ∧
      cmdSort args resolvePath memory = some (
        if contents = [] then []
        else if !kmallocSucceeds (memory 0) (contents.length + 1) then
          message "sort: cannot read file\n"
        else if !kmallocSucceeds (memory 1) (4 * (fileLines contents).length) then
          message "sort: out of memory\n"
        else lines.flatMap (· ++ [10])) := by
  obtain ⟨lines, perm, sorted, is⟩ :=
    sortFile_sorts (decide (args.head? = some (.ofString "-r"))) holds plain memory
  refine ⟨lines, perm, sorted, ?_⟩
  rw [cmdSort]
  simp only [isPath, resolves]
  exact is

def notes : VfsFile where
  isDirectory := false
  length := 5
  word := by decide
  read := fun _ _ => (5, [98, 10, 10, 97, 10])

theorem cmdSort_sorts_notes : ∃ lines : List (List UInt8),
    lines.Perm [[98], [], [97]] ∧ lines.Pairwise (InOrder false) ∧
      cmdSort [.ofString "notes"] (fun _ => some notes) (fun _ => true) =
        some (lines.flatMap (· ++ [10])) :=
  @cmdSort_sorts [.ofString "notes"] (.ofString "notes") [] (fun _ => some notes) notes
    [98, 10, 10, 97, 10] (by decide) rfl ⟨rfl, rfl, rfl⟩ (by decide) fun _ => true

end ZurichOS
