import Mathlib.Data.List.ReduceOption
import ZurichOS.Keyboard

/-!
`sys_read` on the standard input takes its characters from the events of the keyboard.
-/

namespace ZurichOS.Stdin

open InterruptRing Keyboard Transitions

abbrev newline : UInt8 := 10

/-- The characters that an event gives the program that reads. -/
def taken (event : KeyEvent) : List UInt8 :=
  if event.pressed && event.ascii ≠ 0 then [event.ascii] else []

/-- The loop, with the bytes that it has and what the calls of `keyboard_get_event` give it: an
event, or nothing.  There is no result while it waits for another one. -/
def readLoop (count : Nat) (buffer : List UInt8) :
    List (Option KeyEvent) → Option (List UInt8 × List (Option KeyEvent))
  | [] => if buffer.length < count then none else some (buffer, [])
  | answer :: rest =>
      if buffer.length < count then
        match answer with
        | some event =>
            if event.pressed && event.ascii ≠ 0 then
              if event.ascii = newline then some (buffer ++ [event.ascii], rest)
              else readLoop count (buffer ++ [event.ascii]) rest
            else readLoop count buffer rest
        | none => if buffer ≠ [] then some (buffer, rest) else readLoop count buffer rest
      else some (buffer, answer :: rest)

/-- Calls one behind the other, each with its count. -/
def readCalls : List Nat → List (Option KeyEvent) →
    Option (List (List UInt8) × List (Option KeyEvent))
  | [], answers => some ([], answers)
  | count :: counts, answers => do
      let (result, rest) ← readLoop count [] answers
      let (results, rest) ← readCalls counts rest
      pure (result :: results, rest)

/-- A result is as long as asked for at most, has a byte where one is asked for, and goes to the
end of a line at most. -/
def IsRead (count : Nat) (result : List UInt8) : Prop :=
  result.length ≤ count ∧ (0 < count → result ≠ []) ∧ newline ∉ result.dropLast

variable {count : Nat} {counts : List Nat} {buffer result : List UInt8}
  {answers rest : List (Option KeyEvent)} {results : List (List UInt8)}

theorem taken_char {event : KeyEvent} (prints : (event.pressed && event.ascii ≠ 0) = true) :
    taken event = [event.ascii] := if_pos prints

theorem taken_none {event : KeyEvent} (silent : ¬(event.pressed && event.ascii ≠ 0) = true) :
    taken event = [] := if_neg silent

theorem isRead_line (short : buffer.length ≤ count) (inLine : newline ∉ buffer)
    (some : 0 < count → buffer ≠ []) : IsRead count buffer :=
  ⟨short, some, fun member => inLine (List.dropLast_subset _ member)⟩

theorem isRead_full (short : buffer.length ≤ count) (inLine : newline ∉ buffer)
    (full : ¬buffer.length < count) : IsRead count buffer := by
  refine isRead_line short inLine fun positive none => full ?_
  rw [none]
  exact positive

/-- What the loop returns is what it has got and the characters of the events it has taken. -/
theorem readLoop_takes (short : buffer.length ≤ count) (inLine : newline ∉ buffer)
    (returned : readLoop count buffer answers = some (result, rest)) :
    ∃ events, answers = events ++ rest ∧ result = buffer ++ events.reduceOption.flatMap taken ∧
      IsRead count result := by
  induction answers generalizing buffer with
  | nil =>
      rw [readLoop] at returned
      split at returned
      · cases returned
      · rename_i full
        cases returned
        exact ⟨[], rfl, (List.append_nil _).symm, isRead_full short inLine full⟩
  | cons answer later ih =>
      rw [readLoop.eq_def] at returned
      dsimp only at returned
      by_cases free : buffer.length < count
      · rw [if_pos free] at returned
        cases answer with
        | none =>
            dsimp only at returned
            by_cases some : buffer ≠ []
            · rw [if_pos some] at returned
              cases returned
              exact ⟨[none], rfl, (List.append_nil _).symm,
                isRead_line short inLine fun _ => some⟩
            · rw [if_neg some] at returned
              obtain ⟨events, rfl, isResult, isRead⟩ := ih short inLine returned
              exact ⟨none :: events, rfl, isResult, isRead⟩
        | some event =>
            dsimp only at returned
            by_cases prints : (event.pressed && event.ascii ≠ 0) = true
            · rw [if_pos prints] at returned
              have longer : (buffer ++ [event.ascii]).length ≤ count := by
                rw [List.length_append, List.length_singleton]
                exact free
              by_cases ends : event.ascii = newline
              · rw [if_pos ends] at returned
                cases returned
                refine ⟨[some event], rfl, ?_, longer, fun _ => by simp, ?_⟩
                · rw [List.reduceOption_cons_of_some, List.reduceOption_nil, List.flatMap_singleton,
                    taken_char prints]
                · rw [List.dropLast_concat]
                  exact inLine
              · rw [if_neg ends] at returned
                have stays : newline ∉ buffer ++ [event.ascii] := by
                  rw [List.mem_append, List.mem_singleton]
                  exact fun either => either.elim inLine fun same => ends same.symm
                obtain ⟨events, rfl, isResult, isRead⟩ := ih longer stays returned
                refine ⟨some event :: events, rfl, isResult.trans ?_, isRead⟩
                rw [List.reduceOption_cons_of_some, List.flatMap_cons, taken_char prints,
                  List.append_assoc]
            · rw [if_neg prints] at returned
              obtain ⟨events, rfl, isResult, isRead⟩ := ih short inLine returned
              refine ⟨some event :: events, rfl, isResult.trans ?_, isRead⟩
              rw [List.reduceOption_cons_of_some, List.flatMap_cons, taken_none prints,
                List.nil_append]
      · rw [if_neg free] at returned
        cases returned
        exact ⟨[], rfl, (List.append_nil _).symm, isRead_full short inLine free⟩

/-- The results of calls taken together are the characters of the events they have taken. -/
theorem readCalls_take (returned : readCalls counts answers = some (results, rest)) :
    results.flatten ++ rest.reduceOption.flatMap taken = answers.reduceOption.flatMap taken ∧
      List.Forall₂ IsRead counts results := by
  induction counts generalizing answers results with
  | nil =>
      cases returned
      exact ⟨rfl, .nil⟩
  | cons count counts ih =>
      rw [readCalls, Option.bind_eq_bind, Option.bind_eq_some_iff] at returned
      obtain ⟨⟨result, left⟩, first, returned⟩ := returned
      obtain ⟨⟨others, last⟩, second, same⟩ := Option.bind_eq_some_iff.mp returned
      cases same
      obtain ⟨events, rfl, rfl, isRead⟩ :=
        readLoop_takes (Nat.zero_le count) List.not_mem_nil first
      obtain ⟨whole, reads⟩ := ih second
      refine ⟨?_, .cons isRead reads⟩
      rw [List.flatten_cons, List.append_assoc, whole, List.reduceOption_append,
        List.flatMap_append]
      rfl

/-- An event of a key that is not extended, without the control key. -/
def Unmodified (event : KeyEvent) : Prop :=
  event.extended = false ∧ event.modifiers &&& 2 = 0

theorem unmodified_key (caps shift released : Bool) (code : UInt8) :
    Unmodified (keyEvent (typing caps shift) code false released) := ⟨rfl, no_ctrl caps shift⟩

/-- Such events give a program the characters that they give the callback. -/
theorem chars_taken {d : Consumer} (calls : d.callback = true) {events : List KeyEvent}
    (unmodified : ∀ event ∈ events, Unmodified event) : chars d events = events.flatMap taken := by
  induction events with
  | nil => rfl
  | cons event later ih =>
      obtain ⟨unextended, noCtrl⟩ := unmodified event List.mem_cons_self
      have one : chars d [event] = taken event := by
        rw [chars_plain calls unextended, charOf, noCtrl, if_neg (by simp)]
        rfl
      have all := ih fun other member => unmodified other (List.mem_cons_of_mem _ member)
      rw [List.flatMap_cons, ← one, ← all, ← chars_append]
      rfl

theorem typed_unmodified (caps : Bool) {c : UInt8} (typable : Typable c) :
    ∀ event ∈ (decode (typing caps false) ((typed caps c).flatMap Sent.bytes)).2,
      Unmodified event := by
  obtain ⟨nonzero, hasKey⟩ := typable
  obtain ⟨⟨code, upper⟩, isKey⟩ := Option.isSome_iff_exists.mp hasKey
  obtain ⟨printed, -⟩ := keyOf_prints nonzero isKey
  simp only [typed, isKey]
  cases upper != (caps && isLower (plain code)) with
  | false =>
      rw [if_neg Bool.false_ne_true, decode_tap printed]
      simp [unmodified_key]
  | true =>
      simp only [if_true, List.flatMap_append, List.flatMap_singleton]
      simp only [decode_append, decode_shift, decode_tap printed, Bool.not_false, Bool.not_true]
      simp [unmodified_key]

theorem text_unmodified (caps : Bool) {text : List UInt8} (typable : ∀ c ∈ text, Typable c) :
    ∀ event ∈ (decode (typing caps false) ((text.flatMap (typed caps)).flatMap Sent.bytes)).2,
      Unmodified event := by
  induction text with
  | nil => exact fun event member => absurd member List.not_mem_nil
  | cons c later ih =>
      have one := typed_unmodified caps (typable c List.mem_cons_self)
      have all := ih fun other member => typable other (List.mem_cons_of_mem _ member)
      have isBack := (@decode_typed ⟨false, 25, true, false⟩ rfl caps c
        (typable c List.mem_cons_self)).1
      rw [List.flatMap_cons, List.flatMap_append, decode_append, isBack]
      exact fun event member => (List.mem_append.mp member).elim (one event) (all event)

/-- A shifted letter in one interrupt, and the steps that read its four events. -/
def typedRead : List KeyStep := typedH ++ List.replicate 28 .read

def typedAnswers : List (Option KeyEvent) :=
  (typedRead.foldl step ⟨typing false false, Traffic.start fun _ => noEvent⟩).traffic.received.map
    some ++ [none]

theorem reads_have_room (kb : Driver) (n : Nat) :
    Along step (HasRoom eventBufferSize react) kb (List.replicate n .read) := by
  induction n generalizing kb with
  | zero => trivial
  | succ n ih => exact ⟨trivial, ih _⟩

end ZurichOS.Stdin
