import Mathlib.Data.List.Infix
import ZurichOS.Formatting
import ZurichOS.Sort

set_option linter.all false

/-!
`grep`, `head`, `tail` and `uniq` go through the lines of a file; `find` matches names.  A text is
what the buffer of `read_file_contents` holds up to its first terminator, and the options are the
ones that the command has read from its arguments.
-/

namespace ZurichOS.TextTools

open Formatting (ascii decimal)

/-- The line at the head of a text, and what is behind its end, if it has one. -/
def splitLine (p : List UInt8) : List UInt8 × Option (List UInt8) :=
  (p.takeWhile (· != 10),
    match p.dropWhile (· != 10) with
    | [] => none
    | _ :: rest => some rest)

/-- The loop of the commands, which cuts the text at each end of a line.  Each turn takes a
character at least, so that the length is enough fuel. -/
def forLines {State : Type} (visit : State → List UInt8 → State) :
    Nat → State → List UInt8 → State
  | 0, state, _ => state
  | fuel + 1, state, p =>
      if p = [] then state
      else
        match (splitLine p).2 with
        | none => visit state (splitLine p).1
        | some rest => forLines visit fuel (visit state (splitLine p).1) rest

def lower (c : UInt8) : UInt8 := if 65 ≤ c ∧ c ≤ 90 then c + 32 else c

/-- Whether `strstr` finds the needle. -/
def strstrFinds (needle : List UInt8) : List UInt8 → Bool
  | [] => needle.isEmpty
  | c :: rest => needle.isPrefixOf (c :: rest) || strstrFinds needle rest

def matchPattern (line pattern : List UInt8) (ignoreCase : Bool) : Bool :=
  if !ignoreCase then strstrFinds pattern line
  else (List.range (line.length + 1 - pattern.length)).any fun i =>
    (List.range pattern.length).all fun j =>
      lower (line.getD (i + j) 0) == lower (pattern.getD j 0)

structure GrepOptions where
  ignoreCase : Bool
  showLinenum : Bool
  countOnly : Bool

structure Grep where
  lineNum : Nat
  matchCount : Nat
  out : List UInt8

/-- What is printed for a line that matches. -/
def grepLine (options : GrepOptions) (lineNum : Nat) (line : List UInt8) : List UInt8 :=
  (if options.showLinenum then decimal lineNum ++ ascii ": " else []) ++ line ++ [10]

def grepVisit (options : GrepOptions) (pattern : List UInt8) (s : Grep) (line : List UInt8) : Grep :=
  if matchPattern line pattern options.ignoreCase then
    { lineNum := s.lineNum + 1
      matchCount := s.matchCount + 1
      out := if options.countOnly then s.out else s.out ++ grepLine options s.lineNum line }
  else { s with lineNum := s.lineNum + 1 }

def cmdGrep (options : GrepOptions) (pattern text : List UInt8) : List UInt8 :=
  let s := forLines (grepVisit options pattern) text.length ⟨1, 0, []⟩ text
  if options.countOnly then s.out ++ decimal s.matchCount ++ [10] else s.out

def cmdHead : (numLines : Nat) → List UInt8 → List UInt8
  | 0, _ => []
  | numLines + 1, p =>
      if p = [] then []
      else
        match (splitLine p).2 with
        | none => (splitLine p).1 ++ [10]
        | some rest => (splitLine p).1 ++ [10] ++ cmdHead numLines rest

/-- The number of the line, and what has been printed. -/
def tailVisit (skip : Nat) (s : Nat × List UInt8) (line : List UInt8) : Nat × List UInt8 :=
  (s.1 + 1, if skip ≤ s.1 then s.2 ++ line ++ [10] else s.2)

def cmdTail (numLines : Nat) (text : List UInt8) : List UInt8 :=
  (forLines (tailVisit (countLines text - numLines)) text.length (0, []) text).2

structure Uniq where
  prevLine : Option (List UInt8)
  count : Nat
  out : List UInt8

/-- What is printed for a line that stands there so many times. -/
def uniqLine (showCount dupesOnly : Bool) (count : Nat) (line : List UInt8) : List UInt8 :=
  if !dupesOnly || 1 < count then
    (if showCount then ascii "  " ++ decimal count ++ ascii " " else []) ++ line ++ [10]
  else []

def uniqFlush (showCount dupesOnly : Bool) (s : Uniq) : List UInt8 :=
  match s.prevLine with
  | none => s.out
  | some line => s.out ++ uniqLine showCount dupesOnly s.count line

def uniqVisit (showCount dupesOnly : Bool) (s : Uniq) (line : List UInt8) : Uniq :=
  if s.prevLine = some line then { s with count := s.count + 1 }
  else ⟨some line, 1, uniqFlush showCount dupesOnly s⟩

def cmdUniq (showCount dupesOnly : Bool) (text : List UInt8) : List UInt8 :=
  uniqFlush showCount dupesOnly
    (forLines (uniqVisit showCount dupesOnly) text.length ⟨none, 0, []⟩ text)

abbrev vfsMaxName : Nat := 64

/-- The star is the character 42; none stands for a write behind `inner`. -/
def findNameMatch (name pattern : List UInt8) : Option Bool :=
  if pattern = [] then some true
  else if 42 ∉ pattern then some (name == pattern)
  else if pattern.head? = some 42 ∧ 42 ∉ pattern.drop 1 then
    if name.length < pattern.length - 1 then some false
    else some (name.drop (name.length - (pattern.length - 1)) == pattern.drop 1)
  else if pattern.getLast? = some 42 ∧ 42 ∉ pattern.take (pattern.length - 1) then
    some ((pattern.take (pattern.length - 1)).isPrefixOf name)
  else if pattern.head? = some 42 ∧ pattern.getLast? = some 42 then
    if pattern.length - 2 < vfsMaxName then
      some (strstrFinds ((pattern.drop 1).take (pattern.length - 2)) name)
    else none
  else some (strstrFinds pattern name)

/-- A star stands for any characters, and every other character for itself. -/
def Glob : (pattern name : List UInt8) → Prop
  | [], name => name = []
  | c :: pattern, name =>
      if c = 42 then ∃ passed left, name = passed ++ left ∧ Glob pattern left
      else ∃ left, name = c :: left ∧ Glob pattern left

def Contains (ignoreCase : Bool) (pattern line : List UInt8) : Prop :=
  if ignoreCase then pattern.map lower <:+: line.map lower else pattern <:+: line

instance (ignoreCase : Bool) (pattern line : List UInt8) :
    Decidable (Contains ignoreCase pattern line) := by
  unfold Contains
  infer_instance

def printed (lines : List (List UInt8)) : List UInt8 := lines.flatMap (· ++ [10])

variable {p text pattern name : List UInt8} {State : Type}

/-- The lines of a text are the first one and those of what is behind it. -/
theorem fileLines_split (some : p ≠ []) :
    fileLines p = (splitLine p).1 ::
      ((splitLine p).2.map fileLines).getD [] := by
  have whole := List.takeWhile_append_dropWhile (p := (· != 10)) (l := p)
  have inside : (10 : UInt8) ∉ p.takeWhile (· != 10) := by
    intro member
    have differs := List.mem_takeWhile_imp member
    simp at differs
  rw [splitLine]
  cases isRest : p.dropWhile (· != 10) with
  | nil =>
      rw [isRest, List.append_nil] at whole
      rw [whole] at inside ⊢
      exact fileLines_last some inside
  | cons c rest =>
      have isEnd : c = 10 := by
        have first := List.head?_dropWhile_not (· != 10) p
        rw [isRest] at first
        simpa using first
      rw [isRest, isEnd] at whole
      have cut := fileLines_ended inside rest
      rw [whole] at cut
      exact cut

theorem splitLine_shorter {rest : List UInt8} (isRest : (splitLine p).2 = some rest) :
    rest.length < p.length := by
  have short := List.length_dropWhile_le (· != 10) p
  rw [splitLine] at isRest
  cases isDrop : p.dropWhile (· != 10) with
  | nil =>
      rw [isDrop] at isRest
      exact absurd isRest (Option.some_ne_none rest).symm
  | cons c left =>
      rw [isDrop] at isRest short
      obtain rfl := Option.some.inj isRest
      exact short

/-- The loop visits the lines of the text one after the other. -/
theorem forLines_eq (visit : State → List UInt8 → State) (state : State) {fuel : Nat}
    (enough : p.length ≤ fuel) : forLines visit fuel state p = (fileLines p).foldl visit state := by
  induction fuel generalizing state p with
  | zero =>
      rw [List.length_eq_zero_iff.mp (Nat.le_zero.mp enough)]
      rfl
  | succ fuel ih =>
      rw [forLines]
      by_cases empty : p = []
      · rw [if_pos empty, empty]
        rfl
      · rw [if_neg empty, fileLines_split empty]
        cases isRest : (splitLine p).2 with
        | none => rfl
        | some rest =>
            have shorter := splitLine_shorter isRest
            exact ih _ (by omega)

theorem strstrFinds_iff (needle line : List UInt8) :
    strstrFinds needle line = true ↔ needle <:+: line := by
  induction line with
  | nil =>
      rw [strstrFinds, List.isEmpty_iff, List.infix_nil]
  | cons c rest ih =>
      rw [strstrFinds, Bool.or_eq_true, ih, List.isPrefixOf_iff_prefix, List.infix_cons_iff]

theorem infix_iff_drop (needle line : List UInt8) :
    needle <:+: line ↔ ∃ i < line.length + 1 - needle.length,
      (line.drop i).take needle.length = needle := by
  constructor
  · rintro ⟨before, after, rfl⟩
    refine ⟨before.length, ?_, ?_⟩
    · simp only [List.length_append]
      omega
    · rw [List.append_assoc, List.drop_left, List.take_left]
  · rintro ⟨i, _, same⟩
    refine ⟨line.take i, (line.drop i).drop needle.length, ?_⟩
    have middle := List.take_append_drop needle.length (line.drop i)
    rw [same] at middle
    rw [List.append_assoc, middle, List.take_append_drop]

theorem matchPattern_iff (line pattern : List UInt8) (ignoreCase : Bool) :
    matchPattern line pattern ignoreCase = true ↔ Contains ignoreCase pattern line := by
  cases ignoreCase with
  | false => exact strstrFinds_iff pattern line
  | true =>
      rw [Contains, if_pos rfl, infix_iff_drop, matchPattern]
      simp only [Bool.not_true, Bool.false_eq_true, if_false, List.any_eq_true, List.all_eq_true,
        List.mem_range, beq_iff_eq, List.length_map]
      refine exists_congr fun i => and_congr_right fun near => ?_
      constructor
      · intro same
        refine List.ext_getElem (by simp; omega) fun j inTaken inPattern => ?_
        rw [List.length_map] at inPattern
        have one := same j inPattern
        rw [List.getD_eq_getElem _ _ (by omega), List.getD_eq_getElem _ _ inPattern] at one
        simpa using one
      · intro same j inPattern
        have one := congrArg (·.getD j 0) same
        rw [List.getD_eq_getElem _ _ (by omega), List.getD_eq_getElem _ _ inPattern]
        have taken : j < (((line.map lower).drop i).take pattern.length).length := by
          simp
          omega
        rw [List.getD_eq_getElem _ _ taken, List.getD_eq_getElem _ _ (by simpa using inPattern)] at one
        simpa using one

/-- The lines with their numbers, from one on. -/
def numbered (first : Nat) (lines : List (List UInt8)) : List (List UInt8 × Nat) :=
  lines.zipIdx first

theorem grep_fold (options : GrepOptions) (pattern : List UInt8) (s : Grep)
    (lines : List (List UInt8)) :
    lines.foldl (grepVisit options pattern) s =
      { lineNum := s.lineNum + lines.length
        matchCount := s.matchCount +
          (lines.filter (Contains options.ignoreCase pattern ·)).length
        out := if options.countOnly then s.out else s.out ++
          ((numbered s.lineNum lines).filter (Contains options.ignoreCase pattern ·.1)).flatMap
            fun line => grepLine options line.2 line.1 } := by
  induction lines generalizing s with
  | nil => simp [numbered]
  | cons line rest ih =>
      rw [List.foldl_cons, ih, grepVisit]
      have isNumbered : numbered s.lineNum (line :: rest) =
          (line, s.lineNum) :: numbered (s.lineNum + 1) rest := List.zipIdx_cons
      rw [isNumbered]
      by_cases found : Contains options.ignoreCase pattern line
      · have isMatch := (matchPattern_iff line pattern options.ignoreCase).mpr found
        cases options.countOnly with
        | true => simp [isMatch, found, Nat.add_assoc, Nat.add_comm 1]
        | false => simp [isMatch, found, Nat.add_assoc, Nat.add_comm 1]
      · have noMatch : matchPattern line pattern options.ignoreCase = false := by
          rw [← Bool.not_eq_true, matchPattern_iff]
          exact found
        cases options.countOnly with
        | true => simp [noMatch, found, Nat.add_assoc, Nat.add_comm 1]
        | false => simp [noMatch, found, Nat.add_assoc, Nat.add_comm 1]

theorem head_take (numLines : Nat) (text : List UInt8) :
    cmdHead numLines text = printed ((fileLines text).take numLines) := by
  induction numLines generalizing text with
  | zero => rfl
  | succ numLines ih =>
      rw [cmdHead]
      by_cases empty : text = []
      · rw [if_pos empty, empty]
        rfl
      · rw [if_neg empty, fileLines_split empty, List.take_succ_cons]
        cases isRest : (splitLine text).2 with
        | none =>
            rw [Option.map_none, Option.getD_none, List.take_nil]
            simp [printed]
        | some rest =>
            rw [Option.map_some, Option.getD_some]
            dsimp only
            rw [ih]
            simp [printed]

theorem tail_fold (skip : Nat) (s : Nat × List UInt8) (lines : List (List UInt8)) :
    (lines.foldl (tailVisit skip) s).2 = s.2 ++ printed (lines.drop (skip - s.1)) := by
  induction lines generalizing s with
  | nil => simp [printed]
  | cons line rest ih =>
      rw [List.foldl_cons, ih, tailVisit]
      by_cases reached : skip ≤ s.1
      · have none : skip - s.1 = 0 := by omega
        have later : skip - (s.1 + 1) = 0 := by omega
        simp [reached, none, later, printed]
      · have one : skip - s.1 = skip - (s.1 + 1) + 1 := by omega
        simp [reached, one]

/-- From a line that stands there so many times on, the lines fall into runs. -/
theorem uniq_fold (showCount dupesOnly : Bool) (line : List UInt8) (count : Nat)
    (out : List UInt8) (nonzero : 0 < count) (lines : List (List UInt8)) :
    ∃ runs : List (Nat × List UInt8),
      runs.head?.map (·.2) = some line ∧
      runs.flatMap (fun run => List.replicate run.1 run.2) = List.replicate count line ++ lines ∧
      (∀ run ∈ runs, 0 < run.1) ∧ runs.IsChain (fun run next => run.2 ≠ next.2) ∧
      uniqFlush showCount dupesOnly
          (lines.foldl (uniqVisit showCount dupesOnly) ⟨some line, count, out⟩) =
        out ++ runs.flatMap fun run => uniqLine showCount dupesOnly run.1 run.2 := by
  induction lines generalizing line count out with
  | nil =>
      refine ⟨[(count, line)], rfl, by simp, ?_, List.isChain_singleton _, by simp [uniqFlush]⟩
      intro run member
      rw [List.mem_singleton.mp member]
      exact nonzero
  | cons next rest ih =>
      rw [List.foldl_cons, uniqVisit]
      by_cases same : line = next
      · subst same
        obtain ⟨runs, first, whole, positive, differ, flushed⟩ :=
          ih line (count + 1) out (Nat.succ_pos count)
        refine ⟨runs, first, ?_, positive, differ, ?_⟩
        · rw [whole, List.replicate_succ']
          simp
        · rw [if_pos rfl]
          exact flushed
      · obtain ⟨runs, first, whole, positive, differ, flushed⟩ :=
          ih next 1 (out ++ uniqLine showCount dupesOnly count line) (Nat.succ_pos 0)
        refine ⟨(count, line) :: runs, rfl, ?_, ?_, ?_, ?_⟩
        · rw [List.flatMap_cons, whole]
          rfl
        · intro run member
          rcases List.mem_cons.mp member with rfl | member
          · exact nonzero
          · exact positive run member
        · cases runs with
          | nil => exact List.isChain_singleton _
          | cons run others =>
              have isNext : run.2 = next := Option.some.inj first
              exact List.isChain_cons_cons.mpr ⟨fun equal => same (equal.trans isNext), differ⟩
        · have other : ¬(Option.some line = Option.some next) := fun equal =>
            same (Option.some.inj equal)
          rw [if_neg other, List.flatMap_cons, ← List.append_assoc]
          exact flushed

/-- `uniq` prints the runs of equal lines: taken together they are the lines of the file, no two
neighbours are equal, and each is printed once, with its length if that is asked for, and only if
it is longer than one where duplicates are asked for. -/
theorem uniq_runs (showCount dupesOnly : Bool) (text : List UInt8) :
    ∃ runs : List (Nat × List UInt8),
      runs.flatMap (fun run => List.replicate run.1 run.2) = fileLines text ∧
      (∀ run ∈ runs, 0 < run.1) ∧ runs.IsChain (fun run next => run.2 ≠ next.2) ∧
      cmdUniq showCount dupesOnly text =
        runs.flatMap fun run => uniqLine showCount dupesOnly run.1 run.2 := by
  rw [cmdUniq, forLines_eq _ _ (Nat.le_refl _)]
  cases fileLines text with
  | nil => exact ⟨[], rfl, fun run member => absurd member List.not_mem_nil, List.isChain_nil, rfl⟩
  | cons line rest =>
      obtain ⟨runs, _, whole, positive, differ, flushed⟩ :=
        uniq_fold showCount dupesOnly line 1 [] (Nat.succ_pos 0) rest
      exact ⟨runs, whole, positive, differ, flushed⟩

theorem glob_plain (plain : 42 ∉ pattern) (rest name : List UInt8) :
    Glob (pattern ++ rest) name ↔ ∃ left, name = pattern ++ left ∧ Glob rest left := by
  induction pattern generalizing name with
  | nil => exact ⟨fun glob => ⟨name, rfl, glob⟩, fun ⟨left, same, glob⟩ => same ▸ glob⟩
  | cons c pattern ih =>
      have noStar : c ≠ 42 := fun same => plain (same ▸ List.mem_cons_self)
      have later := ih fun member => plain (List.mem_cons_of_mem _ member)
      rw [List.cons_append, Glob, if_neg noStar]
      constructor
      · rintro ⟨left, rfl, glob⟩
        obtain ⟨behind, rfl, meets⟩ := (later left).mp glob
        exact ⟨behind, rfl, meets⟩
      · rintro ⟨behind, rfl, glob⟩
        exact ⟨pattern ++ behind, rfl, (later _).mpr ⟨behind, rfl, glob⟩⟩

theorem glob_star (rest name : List UInt8) :
    Glob (42 :: rest) name ↔ ∃ passed left, name = passed ++ left ∧ Glob rest left := by
  rw [Glob, if_pos rfl]

theorem glob_ends (name : List UInt8) : Glob [42] name :=
  (glob_star [] name).mpr ⟨name, [], (List.append_nil _).symm, rfl⟩

theorem glob_exact (plain : 42 ∉ pattern) : Glob pattern name ↔ name = pattern := by
  have parts := glob_plain plain [] name
  rw [List.append_nil] at parts
  rw [parts]
  constructor
  · rintro ⟨left, rfl, rfl⟩
    exact List.append_nil _
  · rintro rfl
    exact ⟨[], (List.append_nil _).symm, rfl⟩

theorem glob_end (plain : 42 ∉ pattern) :
    Glob (42 :: pattern) name ↔ pattern <:+ name := by
  rw [glob_star]
  constructor
  · rintro ⟨passed, left, rfl, glob⟩
    rw [(glob_exact plain).mp glob]
    exact List.suffix_append _ _
  · rintro ⟨passed, rfl⟩
    exact ⟨passed, pattern, rfl, (glob_exact plain).mpr rfl⟩

theorem glob_front (plain : 42 ∉ pattern) :
    Glob (pattern ++ [42]) name ↔ pattern <+: name := by
  rw [glob_plain plain]
  constructor
  · rintro ⟨left, rfl, _⟩
    exact List.prefix_append _ _
  · rintro ⟨left, rfl⟩
    exact ⟨left, rfl, glob_ends left⟩

theorem glob_inside (plain : 42 ∉ pattern) :
    Glob (42 :: (pattern ++ [42])) name ↔ pattern <:+: name := by
  rw [glob_star]
  constructor
  · rintro ⟨passed, left, rfl, glob⟩
    obtain ⟨behind, rfl⟩ := (glob_front plain).mp glob
    exact ⟨passed, behind, List.append_assoc _ _ _⟩
  · rintro ⟨passed, behind, rfl⟩
    exact ⟨passed, pattern ++ behind, List.append_assoc _ _ _,
      (glob_front plain).mpr (List.prefix_append _ _)⟩

theorem suffix_iff_drop (name suffix : List UInt8) :
    suffix <:+ name ↔ ¬name.length < suffix.length ∧
      name.drop (name.length - suffix.length) = suffix := by
  constructor
  · rintro ⟨passed, rfl⟩
    refine ⟨by simp, ?_⟩
    rw [List.length_append, Nat.add_sub_cancel, List.drop_left]
  · rintro ⟨_, same⟩
    exact same ▸ List.drop_suffix _ _

end ZurichOS.TextTools
