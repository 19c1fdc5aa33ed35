import Mathlib.Data.List.TakeWhile
import ZurichOS.Environment

/-!
`env_expand`: variables in a line are replaced by their values, up to the end of the output.
-/

namespace ZurichOS

/-- What a piece of the input stands for. -/
inductive Token where
  | char (c : UInt8)
  | var (name : List UInt8)
  | status
  | shell
  deriving DecidableEq

def isNameChar (c : UInt8) : Bool :=
  (65 ≤ c && c ≤ 90) || (97 ≤ c && c ≤ 122) || (48 ≤ c && c ≤ 57) || c = 95

/-- The piece behind a dollar, and the rest of the input.  Names are read into `varname`. -/
def readVariable : List UInt8 → Token × List UInt8
  | [] => (.char 36, [])
  | c :: src =>
      if c = 123 then
        let name := (src.takeWhile (· ≠ 125)).take (maxEnvKey - 1)
        let rest := src.drop name.length
        (.var name, if rest.head? = some 125 then rest.tail else rest)
      else if c = 63 then (.status, src)
      else if c = 36 then (.shell, src)
      else
        let name := ((c :: src).takeWhile isNameChar).take (maxEnvKey - 1)
        (if name ≠ [] then .var name else .char 36, (c :: src).drop name.length)

def readToken (c : UInt8) (src : List UInt8) : Token × List UInt8 :=
  if c = 36 then readVariable src else (.char c, src)

namespace Env

def valueOf (env : Env) (name : List UInt8) : List UInt8 :=
  if plain : 0 ∉ name then ((env.envGet (some ⟨name, plain⟩)).map CString.chars).getD [] else []

/-- The value of a variable is copied as far as the output has room. -/
def write (env : Env) (limit : Nat) (out : List UInt8) : Token → List UInt8
  | .char c => out ++ [c]
  | .var name => out ++ (env.valueOf name).take (limit - out.length)
  | .status => out ++ [48]
  | .shell => out ++ [49]

theorem readVariable_suffix (src : List UInt8) : (readVariable src).2 <:+ src := by
  cases src with
  | nil => exact List.suffix_refl _
  | cons c src =>
      rw [readVariable]
      split
      · have behind := List.drop_suffix ((src.takeWhile (· ≠ 125)).take (maxEnvKey - 1)).length src
        dsimp only
        split
        · exact ((List.tail_suffix _).trans behind).trans (List.suffix_cons _ _)
        · exact behind.trans (List.suffix_cons _ _)
      · split
        · exact List.suffix_cons _ _
        · split
          · exact List.suffix_cons _ _
          · exact List.drop_suffix _ _

theorem readToken_suffix (c : UInt8) (src : List UInt8) : (readToken c src).2 <:+ src := by
  rw [readToken]
  split
  · exact readVariable_suffix src
  · exact List.suffix_refl _

def expandLoop (env : Env) (limit : Nat) (src out : List UInt8) : List UInt8 :=
  match src with
  | [] => out
  | c :: src =>
      if limit ≤ out.length then out
      else env.expandLoop limit (readToken c src).2 (env.write limit out (readToken c src).1)
termination_by src.length
decreasing_by exact Nat.lt_succ_of_le (readToken_suffix c src).length_le

/-- The bytes that are written to the output, and the length that comes back. -/
def envExpand (env : Env) (input : CString) (maxLen : Nat) : List UInt8 × Nat :=
  let out := env.expandLoop (maxLen - 1) input.chars []
  (out ++ [0], out.length)

end Env

/-- The piece behind a dollar as the syntax has it, with names of any length. -/
def nextVariable : List UInt8 → Token × List UInt8
  | [] => (.char 36, [])
  | c :: src =>
      if c = 123 then (.var (src.takeWhile (· ≠ 125)), (src.dropWhile (· ≠ 125)).tail)
      else if c = 63 then (.status, src)
      else if c = 36 then (.shell, src)
      else if isNameChar c then
        (.var ((c :: src).takeWhile isNameChar), (c :: src).dropWhile isNameChar)
      else (.char 36, c :: src)

def nextToken (c : UInt8) (src : List UInt8) : Token × List UInt8 :=
  if c = 36 then nextVariable src else (.char c, src)

theorem nextVariable_length_le (src : List UInt8) : (nextVariable src).2.length ≤ src.length := by
  cases src with
  | nil => exact Nat.le_refl 0
  | cons c src =>
      rw [nextVariable]
      split
      · have shorter := (List.dropWhile_suffix (l := src) fun d : UInt8 => decide (d ≠ 125)).length_le
        dsimp only
        rw [List.length_tail, List.length_cons]
        omega
      · split
        · exact Nat.le_succ _
        · split
          · exact Nat.le_succ _
          · split
            · exact (List.dropWhile_suffix isNameChar).length_le
            · exact Nat.le_refl _

theorem nextToken_length_le (c : UInt8) (src : List UInt8) :
    (nextToken c src).2.length ≤ src.length := by
  rw [nextToken]
  split
  · exact nextVariable_length_le src
  · exact Nat.le_refl _

def tokens (src : List UInt8) : List Token :=
  match src with
  | [] => []
  | c :: src => (nextToken c src).1 :: tokens (nextToken c src).2
termination_by src.length
decreasing_by exact Nat.lt_succ_of_le (nextToken_length_le c src)

def Env.meaning (env : Env) : Token → List UInt8
  | .char c => [c]
  | .var name => env.valueOf name
  | .status => [48]
  | .shell => [49]

/-- The expansion without a limit. -/
def Env.expansion (env : Env) (src : List UInt8) : List UInt8 := (tokens src).flatMap env.meaning

def ShortNames (src : List UInt8) : Prop :=
  ∀ name, .var name ∈ tokens src → name.length ≤ maxEnvKey - 1

theorem drop_takeWhile {α : Type} (p : α → Bool) (list : List α) :
    list.drop (list.takeWhile p).length = list.dropWhile p := by
  induction list with
  | nil => rfl
  | cons first rest ih =>
      rw [List.takeWhile_cons, List.dropWhile_cons]
      split
      · exact ih
      · rfl

/-- Short names are read whole. -/
theorem readVariable_eq {src : List UInt8}
    (short : ∀ name, (nextVariable src).1 = .var name → name.length ≤ maxEnvKey - 1) :
    readVariable src = nextVariable src := by
  cases src with
  | nil => rfl
  | cons c src =>
      rw [nextVariable] at short ⊢
      rw [readVariable]
      by_cases brace : c = 123
      · rw [if_pos brace] at short ⊢
        rw [if_pos brace]
        dsimp only
        rw [List.take_of_length_le (short _ rfl), drop_takeWhile]
        cases rest : src.dropWhile fun d => decide (d ≠ 125) with
        | nil => rfl
        | cons d behind =>
            have stops := List.head?_dropWhile_not (fun d : UInt8 => decide (d ≠ 125)) src
            rw [rest] at stops
            have is : d = 125 := by simpa using stops
            rw [is]
            rfl
      · rw [if_neg brace] at short ⊢
        rw [if_neg brace]
        by_cases status : c = 63
        · rw [if_pos status, if_pos status]
        · rw [if_neg status] at short ⊢
          rw [if_neg status]
          by_cases shell : c = 36
          · rw [if_pos shell, if_pos shell]
          · rw [if_neg shell] at short ⊢
            rw [if_neg shell]
            by_cases named : isNameChar c = true
            · rw [if_pos named] at short ⊢
              dsimp only
              rw [List.take_of_length_le (short _ rfl), drop_takeWhile, if_pos]
              rw [List.takeWhile_cons_of_pos named]
              exact List.cons_ne_nil _ _
            · rw [if_neg named]
              dsimp only
              rw [List.takeWhile_cons_of_neg named, List.take_nil]
              rfl

theorem readToken_eq {c : UInt8} {src : List UInt8}
    (short : ∀ name, (nextToken c src).1 = .var name → name.length ≤ maxEnvKey - 1) :
    readToken c src = nextToken c src := by
  rw [nextToken] at short ⊢
  rw [readToken]
  split
  · rename_i dollar
    rw [if_pos dollar] at short
    exact readVariable_eq short
  · rfl

namespace Env

variable {env : Env} {limit : Nat} {src out : List UInt8}

theorem write_eq (room : out.length < limit) (token : Token) :
    env.write limit out token = (out ++ env.meaning token).take limit := by
  have single (c : UInt8) : out ++ [c] = (out ++ [c]).take limit := by
    refine (List.take_of_length_le ?_).symm
    rw [List.length_append]
    exact room
  cases token with
  | var name => rw [write, meaning, List.take_append, List.take_of_length_le room.le]
  | char c => exact single c
  | status => exact single 48
  | shell => exact single 49

theorem take_take_append {α : Type} (first second : List α) (count : Nat) :
    (first.take count ++ second).take count = (first ++ second).take count := by
  by_cases short : first.length ≤ count
  · rw [List.take_of_length_le short]
  · rw [List.take_append_of_le_length (by rw [List.length_take]; omega), List.take_take,
      Nat.min_self, List.take_append_of_le_length (by omega)]

theorem expandLoop_length_le (within : out.length ≤ limit) :
    (env.expandLoop limit src out).length ≤ limit := by
  fun_induction expandLoop env limit src out with
  | case1 out => exact within
  | case2 out c src full => exact within
  | case3 out c src room ih =>
      refine ih ?_
      rw [write_eq (Nat.lt_of_not_le room)]
      exact List.length_take_le _ _

/-- The loop puts out what fits of the expansion. -/
theorem expandLoop_eq (within : out.length ≤ limit) (short : ShortNames src) :
    env.expandLoop limit src out = (out ++ env.expansion src).take limit := by
  fun_induction expandLoop env limit src out with
  | case1 out =>
      rw [expansion, tokens, List.flatMap_nil, List.append_nil, List.take_of_length_le within]
  | case2 out c src full =>
      rw [List.take_append_of_le_length full, List.take_of_length_le within]
  | case3 out c src room ih =>
      rw [ShortNames, tokens] at short
      have same := readToken_eq fun name is => short name (is ▸ List.mem_cons_self)
      rw [same, write_eq (Nat.lt_of_not_le room)] at ih
      rw [same, write_eq (Nat.lt_of_not_le room),
        ih (List.length_take_le _ _) fun name member => short name (List.mem_cons_of_mem _ member),
        take_take_append, List.append_assoc, expansion, expansion, tokens, List.flatMap_cons]

theorem valueOf_plain (env : Env) (name : List UInt8) : 0 ∉ env.valueOf name := by
  rw [valueOf]
  split
  · cases env.envGet _ with
    | none => exact List.not_mem_nil
    | some value => exact value.plain
  · exact List.not_mem_nil

theorem readToken_plain {c : UInt8} (some : c ≠ 0) :
    0 ∉ env.meaning (readToken c src).1 := by
  have single {d : UInt8} (other : d ≠ 0) : 0 ∉ [d] :=
    fun member => other (List.mem_singleton.mp member).symm
  rw [readToken]
  split
  · cases src with
    | nil => exact single (by decide)
    | cons d src =>
        rw [readVariable]
        split
        · exact valueOf_plain env _
        · split
          · exact single (by decide)
          · split
            · exact single (by decide)
            · dsimp only
              split
              · exact valueOf_plain env _
              · exact single (by decide)
  · exact single some

theorem expandLoop_plain (within : 0 ∉ out) (plain : 0 ∉ src) :
    0 ∉ env.expandLoop limit src out := by
  fun_induction expandLoop env limit src out with
  | case1 out => exact within
  | case2 out c src full => exact within
  | case3 out c src room ih =>
      have piece := @readToken_plain env src c fun zero => plain (zero ▸ List.mem_cons_self)
      refine ih ?_ fun member =>
        plain (List.mem_cons_of_mem _ ((readToken_suffix c src).subset member))
      rw [write_eq (Nat.lt_of_not_le room)]
      intro member
      exact (List.mem_append.mp (List.mem_of_mem_take member)).elim within piece

/-- The output is a string that fits, and where all names are short it is what fits of the
expansion. -/
theorem envExpand_expands (env : Env) (input : CString) (maxLen : Nat) (some : 1 ≤ maxLen) :
    ∃ text : CString, env.envExpand input maxLen = (text.chars ++ [0], text.chars.length) ∧
      (text.chars ++ [0]).length ≤ maxLen ∧
      (ShortNames input.chars →
        text.chars = (env.expansion input.chars).take (maxLen - 1)) := by
  refine ⟨⟨_, expandLoop_plain List.not_mem_nil input.plain⟩, rfl, ?_, fun short => ?_⟩
  · have length := @expandLoop_length_le env (maxLen - 1) input.chars [] (Nat.zero_le _)
    rw [List.length_append, List.length_singleton]
    exact Nat.add_le_of_le_sub some length
  · exact expandLoop_eq (Nat.zero_le _) short

theorem envExpand_expands_home :
    ∃ text : CString, envInit.envExpand (.ofString "cd $HOME") 8 =
        (text.chars ++ [0], text.chars.length) ∧ (text.chars ++ [0]).length ≤ 8 ∧
      (ShortNames (CString.ofString "cd $HOME").chars →
        text.chars = (envInit.expansion (CString.ofString "cd $HOME").chars).take 7) :=
  envExpand_expands envInit (.ofString "cd $HOME") 8 (by decide)

end Env

end ZurichOS
