import Mathlib.Data.List.Infix
import Mathlib.Data.List.TakeWhile
import Mathlib.Data.Nat.Find
import ZurichOS.ByteBuffer
import ZurichOS.Formatting
import ZurichOS.Words

/-!
The parser of `http.c`.  It finds the fields of a response by their names alone, anywhere behind
the status line.
-/

namespace ZurichOS

open ByteBuffer Words
open Formatting (ascii)

namespace Http

abbrev httpMaxBody : Nat := 4096

def crlf : List UInt8 := [13, 10]

/-- The first occurrence of a pattern from `start` on. -/
def strstr (text pattern : List UInt8) (start : Nat) : Option Nat :=
  (List.range text.length).find? fun i => start ≤ i ∧ pattern.isPrefixOf (text.drop i)

def isDigit (char : UInt8) : Bool := 48 ≤ char ∧ char ≤ 57

def decimal (text : List UInt8) : Nat :=
  (text.takeWhile isDigit).foldl (fun value digit => u32 (value * 10 + (digit.toNat - 48))) 0

structure HttpResponse where
  statusCode : Nat
  statusText : List UInt8
  contentType : List UInt8
  contentLength : Nat
  body : List UInt8
  bodyLen : Nat

def HttpResponse.zero : HttpResponse := ⟨0, [], [], 0, [], 0⟩

/-- The result, the response, and the pointers `cl`, `ct` and `body` as they are found. -/
structure HttpParsed where
  code : Int
  response : HttpResponse
  cl : Option Nat
  ct : Option Nat
  body : Option Nat

/-- The status line, up to the end of its text. -/
def httpStatus (data : List UInt8) (response : HttpResponse) : HttpResponse :=
  let code := data.drop 9
  let rest := code.dropWhile isDigit
  let rest := if rest.head? = some 32 then rest.tail else rest
  { response with
    statusCode := decimal code
    statusText := (rest.takeWhile fun char => char ∉ [0, 13, 10]).take 31 }

/-- `http_parse_response(data, len, response)`, where a zero byte follows the data. -/
def httpParseResponse (data : List UInt8) (response : HttpResponse) : HttpParsed :=
  let text := cString data
  if data.length < 12 then ⟨-1, response, none, none, none⟩
  else if ¬ (ascii "HTTP/1.").isPrefixOf data then ⟨-1, response, none, none, none⟩
  else
    let response := httpStatus data response
    match strstr text crlf 0 with
    | none => ⟨-1, response, none, none, none⟩
    | some line =>
        let headers := line + 2
        let cl := (strstr text (ascii "Content-Length:") headers).or
          (strstr text (ascii "content-length:") headers)
        let ct := (strstr text (ascii "Content-Type:") headers).or
          (strstr text (ascii "content-type:") headers)
        let contentLength :=
          (cl.map fun cl => decimal ((data.drop (cl + 15)).dropWhile (· = 32))).getD 0
        let contentType := (ct.map fun ct => (((data.drop (ct + 13)).dropWhile (· = 32)).takeWhile
          fun char => char ∉ [0, 13, 10, 59]).take 63).getD []
        let body := (strstr text (crlf ++ crlf) 0).map (· + 4)
        let bytes := (body.map fun body => (data.drop body).take (httpMaxBody - 1)).getD
          response.body
        { code := 0
          response := { response with
            contentLength, contentType, body := bytes
            bodyLen := if body.isSome then bytes.length else response.bodyLen }
          cl, ct, body }

/-! What a response says. -/

def Occurs (text pattern : List UInt8) (i : Nat) : Prop := pattern <+: text.drop i

/-- A line behind the status line, in front of the first empty line or that line itself. -/
def HeaderLine (data : List UInt8) (start : Nat) : Prop :=
  (∃ i, i + 2 = start ∧ Occurs data crlf i) ∧ ∀ i, i + 4 ≤ start → ¬ Occurs data (crlf ++ crlf) i

def lowerByte (char : UInt8) : UInt8 := if 65 ≤ char ∧ char ≤ 90 then char + 32 else char

/-- The line's name, up to its colon, is this one in any case. -/
def Named (data name : List UInt8) (start : Nat) : Prop :=
  ((data.drop start).take (name.length + 1)).map lowerByte = name ++ [58]

/-- A field is taken from a header line of its name, or there is none. -/
def FieldTrue (data name : List UInt8) (place : Option Nat) : Prop :=
  (∃ start, place = some start ∧ HeaderLine data start ∧ Named data name start) ∨
    place = none ∧ ∀ start, HeaderLine data start → ¬ Named data name start

/-- What follows the colon of the line and the spaces behind it. -/
def headerValue (data name : List UInt8) (start : Nat) : List UInt8 :=
  (data.drop (start + (name.length + 1))).dropWhile (· = 32)

def First (found : Nat → Prop) (i : Nat) : Prop := found i ∧ ∀ j < i, ¬ found j

abbrev lengthField : List UInt8 := ascii "content-length"
abbrev typeField : List UInt8 := ascii "content-type"

structure ResponseTrue (data : List UInt8) (parsed : HttpParsed) : Prop where
  length : FieldTrue data lengthField parsed.cl
  type : FieldTrue data typeField parsed.ct
  contentLength : parsed.response.contentLength =
    (parsed.cl.map fun start => decimal (headerValue data lengthField start)).getD 0
  contentType : parsed.response.contentType =
    (parsed.ct.map fun start => ((headerValue data typeField start).takeWhile
      fun char => char ∉ [0, 13, 10, 59]).take 63).getD []
  body : (∃ i, First (Occurs data (crlf ++ crlf)) i ∧ parsed.body = some (i + 4) ∧
      parsed.response.body = (data.drop (i + 4)).take (httpMaxBody - 1)) ∨
    parsed.body = none ∧ ∀ i, ¬ Occurs data (crlf ++ crlf) i

/-- The pattern occurs behind the status line, in front of any zero byte. -/
def Seen (data pattern : List UInt8) (i : Nat) : Prop :=
  (∃ line, line + 2 ≤ i ∧ Occurs (cString data) crlf line) ∧ Occurs (cString data) pattern i

/-- The first place with the field's name in title case starts a header line; without one the
first in lower case does; without either no header line has the name in any case. -/
def FieldClear (data name title : List UInt8) : Prop :=
  (∃ start, First (Seen data title) start ∧ HeaderLine data start) ∨
    (∀ i, ¬ Seen data title i) ∧
      ((∃ start, First (Seen data (name ++ [58])) start ∧ HeaderLine data start) ∨
        (∀ i, ¬ Seen data (name ++ [58]) i) ∧
          ∀ start, HeaderLine data start → ¬ Named data name start)

structure ResponseClear (data : List UInt8) : Prop where
  length : FieldClear data lengthField (ascii "Content-Length:")
  type : FieldClear data typeField (ascii "Content-Type:")
  body : ∀ i, First (Occurs data (crlf ++ crlf)) i → 0 ∉ data.take i

section Search

variable {data text pattern : List UInt8} {start i : Nat}

theorem Occurs.lt (some : pattern ≠ []) (occurs : Occurs text pattern i) : i < text.length := by
  by_contra beyond
  rw [Occurs, List.drop_of_length_le (Nat.le_of_not_lt beyond), List.prefix_nil] at occurs
  exact some occurs

theorem strstr_some (some : pattern ≠ []) : strstr text pattern start = .some i ↔
    First (fun i => start ≤ i ∧ Occurs text pattern i) i := by
  rw [strstr, List.find?_range_eq_some, First]
  simp only [decide_eq_true_eq, List.mem_range, List.isPrefixOf_iff_prefix, Bool.not_eq_eq_eq_not,
    Bool.not_true, decide_eq_false_iff_not]
  constructor
  · rintro ⟨found, -, before⟩
    exact ⟨found, before⟩
  · rintro ⟨found, before⟩
    exact ⟨found, found.2.lt some, before⟩

theorem strstr_none (some : pattern ≠ []) : strstr text pattern start = none ↔
    ∀ i, start ≤ i → ¬ Occurs text pattern i := by
  rw [strstr, List.find?_eq_none]
  simp only [decide_eq_true_eq, List.mem_range, List.isPrefixOf_iff_prefix, not_and]
  exact ⟨fun none i behind occurs => none i (occurs.lt some) behind occurs,
    fun none i _ => none i⟩

theorem First.unique {found : Nat → Prop} {i j : Nat} (one : First found i)
    (other : First found j) : i = j := by
  rcases Nat.lt_trichotomy i j with before | same | behind
  · exact absurd one.1 (other.2 i before)
  · exact same
  · exact absurd other.1 (one.2 j behind)

theorem exists_first {found : Nat → Prop} (some : ∃ i, found i) : ∃ i, First found i := by
  classical
  exact ⟨Nat.find some, Nat.find_spec some, fun j before => Nat.find_min some before⟩

/-- What the string functions find is in front of any zero byte, and the other way round. -/
theorem occurs_cString (some : pattern ≠ []) (plain : 0 ∉ pattern) :
    Occurs (cString data) pattern i ↔ Occurs data pattern i ∧ 0 ∉ data.take i := by
  have isPrefix : cString data <+: data := List.takeWhile_prefix _
  constructor
  · intro occurs
    have inside := occurs.lt some
    refine ⟨occurs.trans (isPrefix.drop i), ?_⟩
    have front : data.take i = (cString data).take i := by
      rw [List.prefix_iff_eq_take.mp isPrefix, List.take_take, Nat.min_eq_left (Nat.le_of_lt inside)]
    rw [front]
    intro zero
    simpa using List.mem_takeWhile_imp (List.mem_of_mem_take zero)
  · rintro ⟨⟨rest, isRest⟩, front⟩
    have whole : data = data.take i ++ pattern ++ rest := by
      rw [List.append_assoc, isRest, List.take_append_drop]
    have inside : i ≤ data.length := by
      by_contra beyond
      rw [List.drop_of_length_le (by omega)] at isRest
      exact some (List.append_eq_nil_iff.mp isRest).1
    have kept : cString data = data.take i ++ pattern ++ cString rest := by
      conv_lhs => rw [whole]
      rw [cString, List.takeWhile_append_of_pos]
      · rfl
      · intro byte member
        refine decide_eq_true fun zero => ?_
        rcases List.mem_append.mp member with before | later
        · exact front (zero ▸ before)
        · exact plain (zero ▸ later)
    refine ⟨cString rest, ?_⟩
    rw [kept, List.append_assoc, List.drop_left' (List.length_take_of_le inside)]

theorem seen_iff {line : Nat} (status : strstr (cString data) crlf 0 = .some line) :
    Seen data pattern i ↔ line + 2 ≤ i ∧ Occurs (cString data) pattern i := by
  obtain ⟨⟨-, isLine⟩, before⟩ := (strstr_some (by decide)).mp status
  refine and_congr_left fun _ => ⟨?_, fun behind => ⟨line, behind, isLine⟩⟩
  rintro ⟨other, behind, occurs⟩
  have first : line ≤ other := by
    by_contra earlier
    exact before other (by omega) ⟨Nat.zero_le _, occurs⟩
  omega

theorem named_of_occurs {name : List UInt8} (some : pattern ≠ []) (plain : 0 ∉ pattern)
    (spelled : pattern.map lowerByte = name ++ [58])
    (occurs : Occurs (cString data) pattern start) : Named data name start := by
  have length : pattern.length = name.length + 1 := by
    have same := congrArg List.length spelled
    rwa [List.length_map, List.length_append] at same
  have inData := ((occurs_cString some plain).mp occurs).1
  rw [Named, ← length, ← List.prefix_iff_eq_take.mp inData, spelled]

/-- The pointer that the code finds is true exactly if the field is clear. -/
theorem field_iff {line : Nat} (status : strstr (cString data) crlf 0 = .some line)
    {name title : List UInt8} (titled : title.map lowerByte = name ++ [58])
    (lowered : (name ++ [58]).map lowerByte = name ++ [58]) (titlePlain : 0 ∉ title)
    (namePlain : 0 ∉ name ++ [58]) :
    FieldTrue data name ((strstr (cString data) title (line + 2)).or
        (strstr (cString data) (name ++ [58]) (line + 2))) ↔ FieldClear data name title := by
  have titleSome : title ≠ [] := by
    rintro rfl
    simp at titled
  have nameSome : name ++ [58] ≠ [] := by simp
  have places (pattern : List UInt8) : (fun i => line + 2 ≤ i ∧ Occurs (cString data) pattern i) =
      Seen data pattern := funext fun i => propext (seen_iff status).symm
  have only {pattern : List UInt8} {found : Nat} (some : pattern ≠ []) (plain : 0 ∉ pattern)
      (spelled : pattern.map lowerByte = name ++ [58]) (first : First (Seen data pattern) found) :
      FieldTrue data name (.some found) ↔
        ∃ start, First (Seen data pattern) start ∧ HeaderLine data start := by
    constructor
    · rintro (⟨start, isFound, header, -⟩ | ⟨none, -⟩)
      · obtain rfl := Option.some.inj isFound
        exact ⟨found, first, header⟩
      · cases none
    · rintro ⟨start, isFirst, header⟩
      obtain rfl := first.unique isFirst
      exact .inl ⟨found, rfl, header, named_of_occurs some plain spelled first.1.2⟩
  rw [FieldClear]
  cases isTitle : strstr (cString data) title (line + 2) with
  | some found =>
      have first : First (Seen data title) found := places title ▸ (strstr_some titleSome).mp isTitle
      rw [Option.some_or, only titleSome titlePlain titled first]
      exact (or_iff_left fun none => none.1 found first.1).symm
  | none =>
      have noTitle : ∀ i, ¬ Seen data title i := by
        intro i seen
        obtain ⟨behind, occurs⟩ := (seen_iff status).mp seen
        exact (strstr_none titleSome).mp isTitle i behind occurs
      have notThere : ¬ ∃ start, First (Seen data title) start ∧ HeaderLine data start := by
        rintro ⟨start, first, -⟩
        exact noTitle start first.1
      rw [Option.none_or, or_iff_right notThere, and_iff_right noTitle]
      cases isName : strstr (cString data) (name ++ [58]) (line + 2) with
      | some found =>
          have first : First (Seen data (name ++ [58])) found :=
            places (name ++ [58]) ▸ (strstr_some nameSome).mp isName
          rw [only nameSome namePlain lowered first]
          exact (or_iff_left fun none => none.1 found first.1).symm
      | none =>
          have noName : ∀ i, ¬ Seen data (name ++ [58]) i := by
            intro i seen
            obtain ⟨behind, occurs⟩ := (seen_iff status).mp seen
            exact (strstr_none nameSome).mp isName i behind occurs
          have notThere :
              ¬ ∃ start, First (Seen data (name ++ [58])) start ∧ HeaderLine data start := by
            rintro ⟨start, first, -⟩
            exact noName start first.1
          rw [or_iff_right notThere, and_iff_right noName]
          constructor
          · rintro (⟨start, isFound, -⟩ | ⟨-, absent⟩)
            · cases isFound
            · exact absent
          · intro absent
            exact .inr ⟨rfl, absent⟩

/-- The body starts behind the first empty line exactly if no zero byte hides that line. -/
theorem body_iff : ((∃ i, First (Occurs data (crlf ++ crlf)) i ∧
      (strstr (cString data) (crlf ++ crlf) 0).map (· + 4) = .some (i + 4)) ∨
    (strstr (cString data) (crlf ++ crlf) 0).map (· + 4) = none ∧
      ∀ i, ¬ Occurs data (crlf ++ crlf) i) ↔
    ∀ i, First (Occurs data (crlf ++ crlf)) i → 0 ∉ data.take i := by
  have some : crlf ++ crlf ≠ [] := by decide
  have plain : 0 ∉ crlf ++ crlf := by decide
  constructor
  · rintro (⟨i, first, found⟩ | ⟨-, absent⟩) j isFirst
    · obtain rfl := first.unique isFirst
      obtain ⟨place, isPlace, same⟩ := Option.map_eq_some_iff.mp found
      obtain rfl : place = i := Nat.add_right_cancel same
      have occurs := ((strstr_some some).mp isPlace).1.2
      exact ((occurs_cString some plain).mp occurs).2
    · exact absurd isFirst.1 (absent j)
  · intro clear
    by_cases exists_ : ∃ i, Occurs data (crlf ++ crlf) i
    · obtain ⟨i, first⟩ := exists_first exists_
      refine .inl ⟨i, first, Option.map_eq_some_iff.mpr ⟨i, (strstr_some some).mpr ⟨?_, ?_⟩, rfl⟩⟩
      · exact ⟨Nat.zero_le i, (occurs_cString some plain).mpr ⟨first.1, clear i first⟩⟩
      · rintro j before ⟨-, occurs⟩
        exact first.2 j before ((occurs_cString some plain).mp occurs).1
    · have absent : ∀ i, ¬ Occurs data (crlf ++ crlf) i := not_exists.mp exists_
      refine .inr ⟨Option.map_eq_none_iff.mpr ((strstr_none some).mpr ?_), absent⟩
      intro i _ occurs
      exact absent i ((occurs_cString some plain).mp occurs).1

/-- What the parser finds in a response that it accepts. -/
structure Found (data : List UInt8) (line : Nat) (parsed : HttpParsed) : Prop where
  status : strstr (cString data) crlf 0 = some line
  cl : parsed.cl = (strstr (cString data) (ascii "Content-Length:") (line + 2)).or
    (strstr (cString data) (lengthField ++ [58]) (line + 2))
  ct : parsed.ct = (strstr (cString data) (ascii "Content-Type:") (line + 2)).or
    (strstr (cString data) (typeField ++ [58]) (line + 2))
  contentLength : parsed.response.contentLength =
    (parsed.cl.map fun start => decimal (headerValue data lengthField start)).getD 0
  contentType : parsed.response.contentType =
    (parsed.ct.map fun start => ((headerValue data typeField start).takeWhile
      fun char => char ∉ [0, 13, 10, 59]).take 63).getD []
  body : parsed.body = (strstr (cString data) (crlf ++ crlf) 0).map (· + 4)
  bytes : ∀ start, parsed.body = some start →
    parsed.response.body = (data.drop start).take (httpMaxBody - 1)

theorem httpParseResponse_found {response : HttpResponse}
    (accepted : (httpParseResponse data response).code = 0) :
    ∃ line, Found data line (httpParseResponse data response) := by
  have refused : ((-1 : Int) = 0) → False := by decide
  rw [httpParseResponse] at accepted ⊢
  dsimp only at accepted ⊢
  by_cases short : data.length < 12
  · rw [if_pos short] at accepted
    exact (refused accepted).elim
  · rw [if_neg short] at accepted ⊢
    by_cases other : ¬ (ascii "HTTP/1.").isPrefixOf data
    · rw [if_pos other] at accepted
      exact (refused accepted).elim
    · rw [if_neg other] at accepted ⊢
      cases isLine : strstr (cString data) crlf 0 with
      | none =>
          rw [isLine] at accepted
          exact (refused accepted).elim
      | some line =>
          refine ⟨line, isLine, rfl, rfl, rfl, rfl, rfl, fun start found => ?_⟩
          dsimp only at found ⊢
          rw [found]
          rfl

/-- The fields and the body of an accepted response are true exactly if it is clear. -/
theorem http_response_iff (data : List UInt8) (response : HttpResponse)
    (accepted : (httpParseResponse data response).code = 0) :
    ResponseTrue data (httpParseResponse data response) ↔ ResponseClear data := by
  obtain ⟨line, found⟩ := httpParseResponse_found accepted
  have length : FieldTrue data lengthField (httpParseResponse data response).cl ↔
      FieldClear data lengthField (ascii "Content-Length:") := by
    rw [found.cl]
    exact field_iff found.status (by decide) (by decide) (by decide) (by decide)
  have type : FieldTrue data typeField (httpParseResponse data response).ct ↔
      FieldClear data typeField (ascii "Content-Type:") := by
    rw [found.ct]
    exact field_iff found.status (by decide) (by decide) (by decide) (by decide)
  constructor
  · intro sound
    refine ⟨length.mp sound.length, type.mp sound.type, body_iff.mp ?_⟩
    rw [← found.body]
    rcases sound.body with ⟨i, first, start, -⟩ | absent
    · exact .inl ⟨i, first, start⟩
    · exact .inr absent
  · intro clear
    refine ⟨length.mpr clear.length, type.mpr clear.type, found.contentLength, found.contentType, ?_⟩
    have body := body_iff.mpr clear.body
    rw [← found.body] at body
    rcases body with ⟨i, first, start⟩ | absent
    · exact .inl ⟨i, first, start, found.bytes _ start⟩
    · exact .inr absent

def smallResponse : List UInt8 :=
  ascii "HTTP/1.1 200 OK" ++ crlf ++ ascii "Content-Length: 2" ++ crlf ++ crlf ++ ascii "hi"

theorem http_response_iff_small :
    ResponseTrue smallResponse (httpParseResponse smallResponse .zero) ↔
      ResponseClear smallResponse :=
  http_response_iff smallResponse .zero (by decide)

/-- A length in the body of a response that names none. -/
def bodyWithLength : List UInt8 :=
  ascii "HTTP/1.1 200 OK" ++ crlf ++ ascii "Server: x" ++ crlf ++ crlf ++ ascii "Content-Length: 7"

theorem http_body_impersonates :
    (httpParseResponse bodyWithLength .zero).code = 0 ∧
      (httpParseResponse bodyWithLength .zero).response.contentLength = 7 ∧
      ¬ ResponseTrue bodyWithLength (httpParseResponse bodyWithLength .zero) := by
  refine ⟨by decide, by decide, fun sound => ?_⟩
  have cl : (httpParseResponse bodyWithLength .zero).cl = some 30 := by decide
  have emptyLine : Occurs bodyWithLength (crlf ++ crlf) 26 :=
    List.isPrefixOf_iff_prefix.mp (by decide)
  rcases sound.length with ⟨start, found, header, -⟩ | ⟨none, -⟩
  · obtain rfl := Option.some.inj (cl.symm.trans found)
    exact header.2 26 (Nat.le_refl 30) emptyLine
  · cases cl.symm.trans none

end Search

end Http

end ZurichOS
