import Mathlib.Data.List.TakeWhile

set_option linter.all false

/-!
A line of the shell: `parse_command` cuts it into arguments in place, `parse_redirections` cuts off
the redirections, and `shell_run_script` cuts a script into lines.
-/

namespace ZurichOS.CommandLine

abbrev shellMaxArgs : Nat := 16
abbrev shellBufferSize : Nat := 256

def isBlank (c : UInt8) : Bool := c == 32 || c == 9

/-- What is passed over before an argument, the argument, and what is left behind it. -/
structure Word where
  before : List UInt8
  arg : List UInt8
  left : List UInt8

def cut (before : List UInt8) (keep : UInt8 → Bool) (chars : List UInt8) : Word :=
  ⟨before, chars.takeWhile keep, chars.dropWhile keep⟩

/-- The next argument: up to the closing quote, or up to the next blank. -/
def nextWord (chars : List UInt8) : Option Word :=
  let blanks := chars.takeWhile isBlank
  match chars.dropWhile isBlank with
  | [] => none
  | c :: rest =>
      if c = 34 ∨ c = 39 then some (cut (blanks ++ [c]) (· != c) rest)
      else some (cut blanks (!isBlank ·) (c :: rest))

/-- The loop of `parse_command` behind the bytes that are done: where the arguments start, and the
bytes of the buffer, in which the end of each argument has become a terminator. -/
def parseFrom : (maxArgs : Nat) → (done chars : List UInt8) → List Nat × List UInt8
  | 0, done, chars => ([], done ++ chars)
  | maxArgs + 1, done, chars =>
      match nextWord chars with
      | none => ([], done ++ chars)
      | some word =>
          let start := done.length + word.before.length
          match word.left with
          | [] => ([start], done ++ word.before ++ word.arg)
          | _ :: after =>
              let rest := parseFrom maxArgs (done ++ word.before ++ word.arg ++ [0]) after
              (start :: rest.1, rest.2)

def parseCommand (input : List UInt8) : List Nat × List UInt8 := parseFrom shellMaxArgs [] input

/-- The string that a pointer into a buffer with a terminator behind it points to. -/
def stringFrom (buffer : List UInt8) (start : Nat) : List UInt8 :=
  (buffer.drop start).takeWhile (· != 0)

/-- The arguments of a line, as text. -/
def arguments : (maxArgs : Nat) → List UInt8 → List (List UInt8)
  | 0, _ => []
  | maxArgs + 1, chars =>
      match nextWord chars with
      | none => []
      | some word => word.arg :: arguments maxArgs (word.left.drop 1)

/-- An argument in quotes, of the kind that does not occur in it. -/
def quote (arg : List UInt8) : List UInt8 :=
  let mark : UInt8 := if 34 ∈ arg then 39 else 34
  [mark] ++ arg ++ [mark]

def Quotable (arg : List UInt8) : Prop := 0 ∉ arg ∧ ¬(34 ∈ arg ∧ 39 ∈ arg)

/-- The arguments as a line, with a blank behind each. -/
def line (args : List (List UInt8)) : List UInt8 := args.flatMap fun arg => quote arg ++ [32]

variable {chars done : List UInt8} {word : Word}

/-- A line falls into what is passed over, the argument, and what is left. -/
theorem nextWord_eq (isWord : nextWord chars = some word) :
    chars = word.before ++ word.arg ++ word.left := by
  have whole := List.takeWhile_append_dropWhile (p := isBlank) (l := chars)
  rw [nextWord] at isWord
  cases isRest : chars.dropWhile isBlank with
  | nil =>
      rw [isRest] at isWord
      exact absurd isWord (Option.some_ne_none word).symm
  | cons c rest =>
      rw [isRest] at isWord whole
      dsimp only at isWord
      split at isWord
      · obtain rfl := Option.some.inj isWord
        rw [cut, List.append_assoc, List.takeWhile_append_dropWhile, List.append_assoc]
        exact whole.symm
      · obtain rfl := Option.some.inj isWord
        rw [cut, List.append_assoc, List.takeWhile_append_dropWhile]
        exact whole.symm

theorem bne_of_not_mem {text : List UInt8} {mark : UInt8} (absent : mark ∉ text) :
    ∀ c ∈ text, (c != mark) = true := by
  intro c member
  rw [bne_iff_ne]
  rintro rfl
  exact absent member

theorem stringFrom_append (arg rest : List UInt8) (start : List UInt8) (plain : 0 ∉ arg)
    (ended : rest = [] ∨ rest.head? = some 0) :
    stringFrom (start ++ arg ++ rest) start.length = arg := by
  have stays : ∀ c ∈ arg, (c != 0) = true := bne_of_not_mem plain
  have whole : arg.takeWhile (· != 0) = arg := List.takeWhile_eq_self_iff.mpr stays
  rw [stringFrom, List.append_assoc, List.drop_left]
  rcases ended with rfl | isZero
  · rw [List.append_nil, whole]
  · obtain ⟨tail, rfl⟩ := List.head?_eq_some_iff.mp isZero
    rw [List.takeWhile_append_of_pos stays]
    simp

/-- The bytes that are done stay as they are, and the buffer keeps its length. -/
theorem parseFrom_frame (maxArgs : Nat) (done chars : List UInt8) :
    ∃ rest : List UInt8, (parseFrom maxArgs done chars).2 = done ++ rest ∧
      rest.length = chars.length := by
  induction maxArgs generalizing done chars with
  | zero => exact ⟨chars, rfl, rfl⟩
  | succ maxArgs ih =>
      rw [parseFrom]
      cases isWord : nextWord chars with
      | none => exact ⟨chars, rfl, rfl⟩
      | some word =>
          have parts := nextWord_eq isWord
          cases isLeft : word.left with
          | nil =>
              rw [isLeft, List.append_nil] at parts
              refine ⟨word.before ++ word.arg, ?_, parts ▸ rfl⟩
              simp only [isLeft, List.append_assoc]
          | cons c after =>
              obtain ⟨rest, same, length⟩ := ih (done ++ word.before ++ word.arg ++ [0]) after
              rw [isLeft] at parts
              refine ⟨word.before ++ word.arg ++ [0] ++ rest, ?_, ?_⟩
              · simp only [isLeft]
                exact same.trans (by simp only [List.append_assoc])
              · rw [parts]
                simp only [List.length_append, List.length_cons, List.length_nil, length]
                omega

/-- The pointers stay in the buffer, and what they point to after the parse are the arguments. -/
theorem parseFrom_reads (maxArgs : Nat) (plain : 0 ∉ chars) :
    (∀ start ∈ (parseFrom maxArgs done chars).1,
      done.length ≤ start ∧ start ≤ done.length + chars.length) ∧
    (parseFrom maxArgs done chars).1.map (stringFrom (parseFrom maxArgs done chars).2) =
      arguments maxArgs chars := by
  induction maxArgs generalizing done chars with
  | zero => exact ⟨fun start member => absurd member List.not_mem_nil, rfl⟩
  | succ maxArgs ih =>
      rw [parseFrom, arguments]
      cases isWord : nextWord chars with
      | none => exact ⟨fun start member => absurd member List.not_mem_nil, rfl⟩
      | some word =>
          have parts := nextWord_eq isWord
          have plainArg : 0 ∉ word.arg := fun zero => plain (parts ▸ by simp [zero])
          have isStart : done.length + word.before.length = (done ++ word.before).length :=
            List.length_append.symm
          have length : chars.length =
              word.before.length + word.arg.length + word.left.length := by
            rw [parts, List.length_append, List.length_append]
          cases isLeft : word.left with
          | nil =>
              simp only [isLeft]
              constructor
              · intro start member
                rw [List.mem_singleton.mp member]
                omega
              · have one := stringFrom_append word.arg [] (done ++ word.before) plainArg (.inl rfl)
                rw [List.append_nil] at one
                rw [List.map_singleton, isStart, one, List.drop_nil]
                cases maxArgs <;> rfl
          | cons c after =>
              rw [isLeft] at parts length
              have plainAfter : 0 ∉ after := fun zero => plain (parts ▸ by simp [zero])
              obtain ⟨near, texts⟩ := @ih after (done ++ word.before ++ word.arg ++ [0]) plainAfter
              obtain ⟨rest, same, _⟩ :=
                parseFrom_frame maxArgs (done ++ word.before ++ word.arg ++ [0]) after
              simp only [isLeft]
              constructor
              · intro start member
                rw [List.length_cons] at length
                rcases List.mem_cons.mp member with rfl | member
                · omega
                · have placed := near start member
                  simp only [List.length_append, List.length_singleton] at placed
                  omega
              · have one := stringFrom_append word.arg ([0] ++ rest) (done ++ word.before)
                  plainArg (.inr rfl)
                rw [List.map_cons, texts, same, isStart, List.append_assoc _ [0] rest, one]
                rfl

theorem nextWord_quoted (arg rest : List UInt8) (quotable : Quotable arg) :
    ∃ word, nextWord (quote arg ++ rest) = some word ∧ word.arg = arg ∧
      word.left.drop 1 = rest := by
  generalize isMark : (if 34 ∈ arg then 39 else 34 : UInt8) = mark
  have isQuote : mark = 34 ∨ mark = 39 := by
    subst isMark
    split
    · exact .inr rfl
    · exact .inl rfl
  have fresh : mark ∉ arg := by
    subst isMark
    split
    · rename_i double
      exact fun single => quotable.2 ⟨double, single⟩
    · assumption
  have noBlank : isBlank mark = false := by
    rcases isQuote with rfl | rfl <;> decide
  have quoted : quote arg ++ rest = mark :: (arg ++ mark :: rest) := by
    simp [quote, isMark]
  have inside : ∀ c ∈ arg, (c != mark) = true := bne_of_not_mem fresh
  refine ⟨cut ([] ++ [mark]) (· != mark) (arg ++ mark :: rest), ?_, ?_, ?_⟩
  · rw [quoted, nextWord]
    simp [noBlank, isQuote]
  · rw [cut, List.takeWhile_append_of_pos inside]
    simp
  · rw [cut, List.dropWhile_append_of_pos inside]
    simp

theorem nextWord_blank (c : UInt8) (blank : isBlank c = true) (rest : List UInt8) :
    (nextWord (c :: rest)).map (fun word => (word.arg, word.left)) =
      (nextWord rest).map fun word => (word.arg, word.left) := by
  simp only [nextWord, List.dropWhile_cons, blank, if_true]
  cases rest.dropWhile isBlank with
  | nil => rfl
  | cons first tail =>
      dsimp only
      split <;> rfl

theorem arguments_blank (c : UInt8) (blank : isBlank c = true) (maxArgs : Nat)
    (rest : List UInt8) : arguments maxArgs (c :: rest) = arguments maxArgs rest := by
  cases maxArgs with
  | zero => rfl
  | succ maxArgs =>
      have same := nextWord_blank c blank rest
      rw [arguments, arguments]
      cases first : nextWord (c :: rest) with
      | none =>
          rw [first] at same
          rw [Option.map_eq_none_iff.mp same.symm]
      | some word =>
          rw [first] at same
          obtain ⟨other, isOther, pair⟩ := Option.map_eq_some_iff.mp same.symm
          obtain ⟨isArg, isLeft⟩ := Prod.mk.inj pair
          rw [isOther]
          dsimp only
          rw [isArg, isLeft]

theorem arguments_line {args : List (List UInt8)} (quotable : ∀ arg ∈ args, Quotable arg)
    {maxArgs : Nat} (few : args.length ≤ maxArgs) : arguments maxArgs (line args) = args := by
  induction args generalizing maxArgs with
  | nil => cases maxArgs <;> rfl
  | cons arg rest ih =>
      obtain ⟨maxArgs, rfl⟩ : ∃ n, maxArgs = n + 1 := Nat.exists_eq_add_one.mpr (by
        rw [List.length_cons] at few
        omega)
      have isLine : line (arg :: rest) = quote arg ++ 32 :: line rest := by
        simp [line]
      obtain ⟨word, isWord, isArg, isLeft⟩ :=
        nextWord_quoted arg (32 :: line rest) (quotable arg List.mem_cons_self)
      rw [isLine, arguments, isWord]
      dsimp only
      rw [isArg, isLeft, arguments_blank 32 rfl]
      rw [ih (fun other member => quotable other (List.mem_cons_of_mem _ member))
        (Nat.le_of_succ_le_succ few)]

/-- For every line, the pointers of `parse_command` lie in the line and point, in the buffer as the
parse leaves it, to the arguments of the text; and up to 16 arguments, whatever they contain, come
back from the line in which they are quoted. -/
theorem parse_command_reads (input : List UInt8) (plain : 0 ∉ input) :
    (∀ start ∈ (parseCommand input).1, start ≤ input.length) ∧
      (parseCommand input).2.length = input.length ∧
      (parseCommand input).1.map (stringFrom (parseCommand input).2) =
        arguments shellMaxArgs input ∧
      ∀ args : List (List UInt8), (∀ arg ∈ args, Quotable arg) → args.length ≤ shellMaxArgs →
        input = line args →
        (parseCommand input).1.map (stringFrom (parseCommand input).2) = args := by
  obtain ⟨near, texts⟩ := @parseFrom_reads input [] shellMaxArgs plain
  obtain ⟨rest, same, length⟩ := parseFrom_frame shellMaxArgs [] input
  refine ⟨fun start member => ?_, same ▸ length, texts, fun args quotable few isLine => ?_⟩
  · have upper := (near start member).2
    rwa [List.length_nil, Nat.zero_add] at upper
  · have isArgs := arguments_line quotable few
    rw [← isLine] at isArgs
    exact texts.trans isArgs

theorem parse_command_reads_quoted :
    (parseCommand (line [[97, 32, 98], [34]])).1.map
      (stringFrom (parseCommand (line [[97, 32, 98], [34]])).2) = [[97, 32, 98], [34]] :=
  (parse_command_reads _ (by decide)).2.2.2 _ (by simp [Quotable]) (by decide) rfl

/-- The buffer as `parse_redirections` leaves it so far; whether the output is appended to a file,
and its name; and the file of the input. -/
structure Redirections where
  buffer : List UInt8
  out : Option (Bool × List UInt8)
  input : Option (List UInt8)

inductive Operator
  | out
  | append
  | input

structure Redirect where
  operator : Operator
  name : List UInt8

def Redirections.set (r : Redirections) (redirect : Redirect) : Redirections :=
  match redirect.operator with
  | .out => { r with out := some (false, redirect.name) }
  | .append => { r with out := some (true, redirect.name) }
  | .input => { r with input := some redirect.name }

/-- The name of a file is at most 127 characters long. -/
def filename (chars : List UInt8) : List UInt8 :=
  ((chars.dropWhile (· == 32)).takeWhile (· != 32)).take 127

/-- What is left behind the blanks and the name. -/
def behindName (chars : List UInt8) : List UInt8 :=
  (chars.dropWhile (· == 32)).drop (filename chars).length

/-- The operator at the head of the characters, and what is left behind it. -/
def operatorAt : List UInt8 → Option (Operator × List UInt8)
  | 62 :: 62 :: rest => some (.append, rest)
  | 62 :: rest => some (.out, rest)
  | 60 :: rest => some (.input, rest)
  | _ => none

/-- The loop.  Each turn takes a character at least, so that the length is enough fuel. -/
def redirectLoop : Nat → Redirections → List UInt8 → Redirections
  | 0, r, _ => r
  | _, r, [] => r
  | fuel + 1, r, c :: rest =>
      match operatorAt (c :: rest) with
      | some (operator, behind) =>
          let read := (c :: rest).take ((c :: rest).length - (behindName behind).length)
          redirectLoop fuel ({ r with buffer := r.buffer ++ 0 :: read.drop 1 }.set
            ⟨operator, filename behind⟩) (behindName behind)
      | none => redirectLoop fuel { r with buffer := r.buffer ++ [c] } rest

def parseRedirections (input : List UInt8) : Redirections :=
  redirectLoop input.length ⟨[], none, none⟩ input

def Operator.text : Operator → List UInt8
  | .out => [62]
  | .append => [62, 62]
  | .input => [60]

def Redirect.text (redirect : Redirect) : List UInt8 :=
  redirect.operator.text ++ [32] ++ redirect.name ++ [32]

def Redirect.Valid (redirect : Redirect) : Prop :=
  redirect.name ≠ [] ∧ 32 ∉ redirect.name ∧ redirect.name.length ≤ 127

def Redirect.output (redirect : Redirect) : Option (Bool × List UInt8) :=
  match redirect.operator with
  | .out => some (false, redirect.name)
  | .append => some (true, redirect.name)
  | .input => none

def Redirect.source (redirect : Redirect) : Option (List UInt8) :=
  match redirect.operator with
  | .input => some redirect.name
  | _ => none

theorem filename_read {name rest : List UInt8} (some : name ≠ []) (solid : 32 ∉ name)
    (short : name.length ≤ 127) :
    filename (32 :: (name ++ 32 :: rest)) = name ∧
      behindName (32 :: (name ++ 32 :: rest)) = 32 :: rest := by
  have starts : (32 :: (name ++ 32 :: rest)).dropWhile (· == 32) = name ++ 32 :: rest := by
    cases name with
    | nil => exact absurd rfl some
    | cons c tail =>
        have noBlank : (c == 32) = false := beq_false_of_ne fun blank =>
          solid (blank ▸ List.mem_cons_self)
        simp [noBlank]
  have inside : ∀ c ∈ name, (c != 32) = true := bne_of_not_mem solid
  have isName : filename (32 :: (name ++ 32 :: rest)) = name := by
    rw [filename, starts, List.takeWhile_append_of_pos inside]
    simp [List.take_of_length_le short]
  refine ⟨isName, ?_⟩
  rw [behindName, isName, starts, List.drop_left]

theorem operatorAt_text (operator : Operator) (rest : List UInt8) :
    operatorAt (operator.text ++ 32 :: rest) = some (operator, 32 :: rest) := by
  cases operator <;> rfl

theorem operatorAt_none {c : UInt8} (noOut : c ≠ 62) (noIn : c ≠ 60) (rest : List UInt8) :
    operatorAt (c :: rest) = none := by
  unfold operatorAt
  split
  · rename_i same
    exact absurd (List.cons.inj same).1 noOut
  · rename_i same
    exact absurd (List.cons.inj same).1 noOut
  · rename_i same
    exact absurd (List.cons.inj same).1 noIn
  · rfl

/-- The bytes of the command are passed over. -/
theorem redirectLoop_text {text : List UInt8} (noOut : 62 ∉ text) (noIn : 60 ∉ text)
    (fuel : Nat) (r : Redirections) (rest : List UInt8) :
    redirectLoop (text.length + fuel) r (text ++ rest) =
      redirectLoop fuel { r with buffer := r.buffer ++ text } rest := by
  induction text generalizing r with
  | nil => simp
  | cons c tail ih =>
      have isNone := operatorAt_none (fun same => noOut (same ▸ List.mem_cons_self))
        (fun same => noIn (same ▸ List.mem_cons_self)) (tail ++ rest)
      have later := ih (fun member => noOut (List.mem_cons_of_mem _ member))
        (fun member => noIn (List.mem_cons_of_mem _ member)) { r with buffer := r.buffer ++ [c] }
      rw [List.length_cons, Nat.add_right_comm, List.cons_append, redirectLoop, isNone]
      dsimp only
      rw [later, List.append_assoc]
      rfl

/-- What a redirection leaves in the buffer starts with the terminator of the command. -/
theorem redirectLoop_redirect {redirect : Redirect} (valid : redirect.Valid) (fuel : Nat)
    (r : Redirections) (rest : List UInt8) :
    ∃ read : List UInt8, redirectLoop (fuel + 2) r (redirect.text ++ rest) =
      redirectLoop fuel ({ r with buffer := r.buffer ++ 0 :: read }.set redirect) rest := by
  obtain ⟨some, solid, short⟩ := valid
  obtain ⟨isName, isLeft⟩ := @filename_read redirect.name rest some solid short
  have whole : redirect.text ++ rest =
      redirect.operator.text ++ 32 :: (redirect.name ++ 32 :: rest) := by
    simp [Redirect.text]
  obtain ⟨c, tail, isCons⟩ : ∃ c tail, redirect.operator.text ++
      32 :: (redirect.name ++ 32 :: rest) = c :: tail := by
    cases redirect.operator
    · exact ⟨_, _, rfl⟩
    · exact ⟨_, _, rfl⟩
    · exact ⟨_, _, rfl⟩
  have isOperator := operatorAt_text redirect.operator (redirect.name ++ 32 :: rest)
  rw [isCons] at isOperator
  have blank := operatorAt_none (show (32 : UInt8) ≠ 62 by decide) (by decide) rest
  rw [whole, isCons, redirectLoop, isOperator]
  dsimp only
  rw [isName, isLeft, redirectLoop, blank]
  refine ⟨((c :: tail).take ((c :: tail).length - (32 :: rest).length)).drop 1 ++ [32], ?_⟩
  cases redirect with
  | mk operator name =>
      cases operator
      · simp [Redirections.set]
      · simp [Redirections.set]
      · simp [Redirections.set]

theorem redirectLoop_all {redirects : List Redirect} (valid : ∀ r ∈ redirects, r.Valid)
    (fuel : Nat) (r : Redirections) :
    ∃ read : List UInt8,
      (read = [] ∨ read.head? = some 0) ∧
      redirectLoop (2 * redirects.length + fuel) r (redirects.flatMap Redirect.text) =
        { buffer := r.buffer ++ read
          out := ((redirects.filterMap Redirect.output).getLast?).or r.out
          input := ((redirects.filterMap Redirect.source).getLast?).or r.input } := by
  induction redirects generalizing r with
  | nil =>
      refine ⟨[], .inl rfl, ?_⟩
      rw [List.append_nil]
      cases fuel <;> rfl
  | cons first rest ih =>
      have isFuel : 2 * (first :: rest).length + fuel = 2 * rest.length + fuel + 2 := by
        rw [List.length_cons]
        omega
      obtain ⟨read, one⟩ := redirectLoop_redirect (valid first List.mem_cons_self)
        (2 * rest.length + fuel) r (rest.flatMap Redirect.text)
      obtain ⟨later, _, all⟩ := ih (fun other member => valid other (List.mem_cons_of_mem _ member))
        ({ r with buffer := r.buffer ++ 0 :: read }.set first)
      refine ⟨0 :: read ++ later, .inr rfl, ?_⟩
      rw [List.flatMap_cons, isFuel, one, all]
      have last {β : Type} (x : β) (xs : List β) (y : Option β) :
          (x :: xs).getLast?.or y = xs.getLast?.or (some x) := by
        cases xs with
        | nil => rfl
        | cons head tail =>
            rw [List.getLast?_cons_cons]
            cases isLast : (head :: tail).getLast? with
            | none => exact absurd (List.getLast?_eq_none_iff.mp isLast) (List.cons_ne_nil _ _)
            | some z => rfl
      cases first with
      | mk operator name =>
          cases operator
          · simp [Redirections.set, Redirect.output, Redirect.source, last]
          · simp [Redirections.set, Redirect.output, Redirect.source, last]
          · simp [Redirections.set, Redirect.output, Redirect.source, last]

theorem redirectLoop_fuel (fuel more : Nat) (r : Redirections) (chars : List UInt8)
    (enough : chars.length ≤ fuel) :
    redirectLoop (fuel + more) r chars = redirectLoop fuel r chars := by
  induction fuel generalizing r chars with
  | zero =>
      rw [List.length_eq_zero_iff.mp (Nat.le_zero.mp enough)]
      cases more <;> rfl
  | succ fuel ih =>
      rw [Nat.add_right_comm]
      cases chars with
      | nil => rfl
      | cons c rest =>
          rw [redirectLoop, redirectLoop]
          cases isOperator : operatorAt (c :: rest) with
          | none => exact ih _ rest (Nat.le_of_succ_le_succ enough)
          | some found =>
              obtain ⟨operator, behind⟩ := found
              refine ih _ (behindName behind) ?_
              have shorter : behind.length ≤ rest.length := by
                unfold operatorAt at isOperator
                split at isOperator
                · obtain ⟨_, rfl⟩ := Prod.mk.inj (Option.some.inj isOperator)
                  simp_all
                · obtain ⟨_, rfl⟩ := Prod.mk.inj (Option.some.inj isOperator)
                  simp_all
                · obtain ⟨_, rfl⟩ := Prod.mk.inj (Option.some.inj isOperator)
                  simp_all
                · exact absurd isOperator (Option.some_ne_none _).symm
              have left : (behindName behind).length ≤ behind.length := by
                rw [behindName, List.length_drop]
                exact Nat.le_trans (Nat.sub_le _ _) (List.length_dropWhile_le _ _)
              rw [List.length_cons] at enough
              omega

/-- What ends the script without a line being run. -/
inductive ScriptError
  | noSuchFile
  | tooLarge
  | unreadable
deriving DecidableEq

/-- The characters that fit into `line`. -/
def readLine (data : List UInt8) : List UInt8 :=
  (data.takeWhile (· != 10)).take (shellBufferSize - 1)

/-- What is left behind a line; the newline goes with it. -/
def behindLine (data : List UInt8) : List UInt8 :=
  let rest := data.drop (readLine data).length
  if rest.head? = some 10 then rest.drop 1 else rest

def skipShebang : List UInt8 → List UInt8
  | 35 :: 33 :: rest => (rest.dropWhile (· != 10)).drop 1
  | data => data

/-- The lines that the loop hands to `shell_execute_line`. -/
def scriptLoop : Nat → List UInt8 → List (List UInt8)
  | 0, _ => []
  | _, [] => []
  | fuel + 1, c :: rest =>
      let trimmed := (readLine (c :: rest)).dropWhile isBlank
      let later := scriptLoop fuel (behindLine (c :: rest))
      if trimmed = [] ∨ trimmed.head? = some 35 then later else trimmed :: later

/-- `shell_run_script` with the content of the file, if there is one.  A file of 4096 bytes is let
through although the terminator then has no place in the buffer. -/
def shellRunScript : Option (List UInt8) → Except ScriptError (List (List UInt8))
  | none => .error .noSuchFile
  | some content =>
      if content = [] then .ok []
      else if 4096 < content.length then .error .tooLarge
      else
        let data := skipShebang (content.takeWhile (· != 0))
        .ok (scriptLoop data.length data)

/-- A line that is run: not blank, and no comment. -/
def runs (line : List UInt8) : Option (List UInt8) :=
  let trimmed := line.dropWhile isBlank
  if trimmed = [] ∨ trimmed.head? = some 35 then none else some trimmed

def ShortLine (line : List UInt8) : Prop :=
  0 ∉ line ∧ 10 ∉ line ∧ line.length ≤ shellBufferSize - 1

def script (lines : List (List UInt8)) : List UInt8 := lines.flatMap (· ++ [10])

theorem readLine_short {line : List UInt8} (short : ShortLine line) (rest : List UInt8) :
    readLine (line ++ 10 :: rest) = line ∧ behindLine (line ++ 10 :: rest) = rest := by
  obtain ⟨_, inside, fits⟩ := short
  have stays : ∀ c ∈ line, (c != 10) = true := bne_of_not_mem inside
  have isLine : readLine (line ++ 10 :: rest) = line := by
    rw [readLine, List.takeWhile_append_of_pos stays]
    simpa using List.take_of_length_le fits
  refine ⟨isLine, ?_⟩
  rw [behindLine, isLine, List.drop_left]
  rfl

theorem scriptLoop_lines {lines : List (List UInt8)} (short : ∀ l ∈ lines, ShortLine l)
    {fuel : Nat} (enough : (script lines).length ≤ fuel) :
    scriptLoop fuel (script lines) = lines.filterMap runs := by
  induction lines generalizing fuel with
  | nil => cases fuel <;> rfl
  | cons first rest ih =>
      have isScript : script (first :: rest) = first ++ 10 :: script rest := by
        simp [script]
      obtain ⟨isLine, isRest⟩ := readLine_short (short first List.mem_cons_self) (script rest)
      rw [isScript] at enough ⊢
      have length : (first ++ 10 :: script rest).length = first.length + (script rest).length + 1 := by
        rw [List.length_append, List.length_cons]
        omega
      obtain ⟨fuel, rfl⟩ : ∃ n, fuel = n + 1 := Nat.exists_eq_add_one.mpr (by omega)
      have later := @ih (fun l member => short l (List.mem_cons_of_mem _ member)) fuel (by omega)
      obtain ⟨c, tail, isCons⟩ : ∃ c tail, first ++ 10 :: script rest = c :: tail :=
        List.exists_cons_of_ne_nil (by simp)
      rw [isCons] at isLine isRest
      rw [isCons, scriptLoop]
      rw [isLine, isRest, later, List.filterMap_cons, runs]
      split <;> rfl

theorem skipShebang_plain {data : List UInt8} (plain : data.head? ≠ some 35) :
    skipShebang data = data := by
  unfold skipShebang
  split
  · exact absurd rfl plain
  · rfl

end ZurichOS.CommandLine
