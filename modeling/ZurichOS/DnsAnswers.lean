import ZurichOS.ByteBuffer
import ZurichOS.Dns

set_option linter.all false

/-!
Which address `dns_receive` takes from a well-formed response.
-/

namespace ZurichOS

open Words ByteReader
open ByteBuffer (bytesAt bytesAt_append bytesAt_getD bytesAt_length)

/-- A name as it is written: labels, and a zero byte or a pointer to the rest. -/
structure DnsName where
  labels : List (List UInt8)
  pointer : Option Nat
  sizes : ∀ label ∈ labels, 1 ≤ label.length ∧ label.length ≤ 63
  offset : ∀ target ∈ pointer, target < 16384

def DnsName.tail (pointer : Option Nat) : List UInt8 :=
  (pointer.map fun target => be16 (0xC000 + target)).getD [0]

def DnsName.encode (name : DnsName) : List UInt8 :=
  name.labels.flatMap dnsEncodeLabel ++ tail name.pointer

/-- The labels alone, or a pointer alone. -/
def DnsName.Simple (name : DnsName) : Prop := name.pointer = none ∨ name.labels = []

structure DnsRecord where
  name : DnsName
  type : Nat
  cls : Nat
  ttl : Nat
  data : List UInt8
  typeWord : type < 65536
  dataWord : data.length < 65536
  address : type = dnsTypeA → data.length = 4

def DnsRecord.encode (record : DnsRecord) : List UInt8 :=
  record.name.encode ++ (be16 record.type ++ be16 record.cls ++ be32 record.ttl ++
    be16 record.data.length) ++ record.data

/-- A response to one question; `additional` holds the two sections behind the answers. -/
structure DnsMessage where
  id : Nat
  flags : Nat
  name : DnsName
  type : Nat
  cls : Nat
  answers : List DnsRecord
  nscount : Nat
  arcount : Nat
  additional : List UInt8
  flagsWord : flags < 65536
  typeWord : type < 65536
  countWord : answers.length < 65536
  response : hasFlag flags dnsFlagQr

def DnsMessage.encode (m : DnsMessage) : List UInt8 :=
  (be16 m.id ++ be16 m.flags ++ be16 1 ++ be16 m.answers.length ++ be16 m.nscount ++
    be16 m.arcount) ++ m.name.encode ++ (be16 m.type ++ be16 m.cls) ++
    m.answers.flatMap DnsRecord.encode ++ m.additional

/-- The packet has these bytes from `start` on. -/
def Spells (packet : Bytes) (start : Nat) (bytes : List UInt8) : Prop :=
  bytesAt packet start bytes.length = bytes

instance (packet : Bytes) (start : Nat) (bytes : List UInt8) :
    Decidable (Spells packet start bytes) := inferInstanceAs (Decidable (_ = _))

def Datagram.Carries (d : Datagram) (m : DnsMessage) : Prop :=
  d.len = m.encode.length ∧ Spells d.data 0 m.encode

/-- The data of the first record with an address. -/
def firstAddress (answers : List DnsRecord) : Option Nat :=
  (answers.find? fun record => record.type = dnsTypeA).map fun record =>
    (word32 0).value (ofList record.data)

/-- The records up to the first with an address. -/
def scanned : List DnsRecord → List DnsRecord
  | [] => []
  | record :: rest => if record.type = dnsTypeA then [record] else record :: scanned rest

/-- No name on the way to the address is read wrongly: the question's has no pointer, or one in
front of a type that does not start with a zero byte, and the names of the answers are simple. -/
structure DnsMessage.Aligned (m : DnsMessage) : Prop where
  question : m.name.pointer = none ∨ 256 ≤ m.type
  answers : ∀ record ∈ scanned m.answers, record.name.Simple

/-- An error counts as a response without an address. -/
def DnsMessage.Readable (m : DnsMessage) : Prop :=
  if hasFlag m.flags dnsFlagRcode then firstAddress m.answers = none
  else m.answers = [] ∨ m.Aligned

section Bytes

variable {packet : Bytes} {start : Nat}

theorem spells_append {first second : List UInt8} :
    Spells packet start (first ++ second) ↔
      Spells packet start first ∧ Spells packet (start + first.length) second := by
  rw [Spells, List.length_append, ← bytesAt_append]
  constructor
  · intro same
    exact List.append_inj same (bytesAt_length _ _ _)
  · rintro ⟨one, two⟩
    rw [one, two]

theorem spells_cons {byte : UInt8} {bytes : List UInt8} :
    Spells packet start (byte :: bytes) ↔ packet start = byte ∧ Spells packet (start + 1) bytes := by
  rw [← List.singleton_append, spells_append]
  exact and_congr_left fun _ => List.cons_eq_cons.trans (and_iff_left rfl)

theorem spells_be16 {value : Nat} (held : Spells packet start (be16 value)) :
    (word16 start).value packet = value % 65536 := by
  obtain ⟨high, more⟩ := spells_cons.mp held
  have low := (spells_cons.mp more).1
  rw [value_word16, high, low, UInt8.toNat_ofNat', UInt8.toNat_ofNat']
  omega

theorem spells_getD {bytes : List UInt8} (held : Spells packet start bytes) {i : Nat}
    (inside : i < bytes.length) : packet (start + i) = bytes.getD i 0 := by
  rw [← bytesAt_getD packet inside, held]

theorem spells_word32 {bytes : List UInt8} (held : Spells packet start bytes)
    (four : bytes.length = 4) :
    (word32 start).value packet = (word32 0).value (ofList bytes) := by
  have byte (i : Nat) (inside : i < 4) : packet (start + i) = ofList bytes i :=
    spells_getD held (by omega)
  have first : packet start = ofList bytes 0 := byte 0 (by decide)
  change 65536 * (256 * (packet start).toNat + (packet (start + 1)).toNat) +
    (256 * (packet (start + 2)).toNat + (packet (start + 3)).toNat) = _
  rw [first, byte 1 (by decide), byte 2 (by decide), byte 3 (by decide)]
  rfl

end Bytes

theorem plain_length : ∀ n < 64, ¬ isPointer n := by decide

theorem pointer_high : ∀ n < 64, isPointer (192 + n) := by decide

section Names

variable {packet : Bytes} {stop turns ptr : Nat} {labels : List (List UInt8)}

/-- A walk that steps over one label steps over them all. -/
theorem skip_labels {skip : Nat → Nat → Reader Nat}
    (step : ∀ turns ptr, ptr < stop → 1 ≤ (packet ptr).toNat → (packet ptr).toNat ≤ 63 →
      (skip (turns + 1) ptr).value packet =
        (skip turns (ptr + (packet ptr).toNat + 1)).value packet)
    (sizes : ∀ label ∈ labels, 1 ≤ label.length ∧ label.length ≤ 63)
    (held : Spells packet ptr (labels.flatMap dnsEncodeLabel)) (enough : stop ≤ ptr + turns)
    (inside : ptr + (labels.flatMap dnsEncodeLabel).length ≤ stop) :
    ∃ left, stop ≤ ptr + (labels.flatMap dnsEncodeLabel).length + left ∧
      (skip turns ptr).value packet =
        (skip left (ptr + (labels.flatMap dnsEncodeLabel).length)).value packet := by
  induction labels generalizing turns ptr with
  | nil => exact ⟨turns, enough, rfl⟩
  | cons label rest ih =>
      obtain ⟨⟨some, short⟩, later⟩ := List.forall_mem_cons.mp sizes
      have size : (dnsEncodeLabel label).length = label.length + 1 := rfl
      rw [List.flatMap_cons, List.length_append, size] at inside ⊢
      rw [List.flatMap_cons, spells_append, size] at held
      have length : (packet ptr).toNat = label.length := by
        rw [(spells_cons.mp held.1).1, UInt8.toNat_ofNat']
        omega
      obtain ⟨left, still, walked⟩ := @ih (turns - 1) _ later held.2 (by omega) (by omega)
      refine ⟨left, by omega, ?_⟩
      have turn : turns = turns - 1 + 1 := by omega
      rw [turn, step (turns - 1) ptr (by omega) (by omega) (by omega), length, Nat.add_assoc ptr,
        walked, Nat.add_assoc ptr]

theorem dnsSkipQuestion_label (turns ptr : Nat) (inside : ptr < stop)
    (some : 1 ≤ (packet ptr).toNat) (short : (packet ptr).toNat ≤ 63) :
    (dnsSkipQuestion stop (turns + 1) ptr).value packet =
      (dnsSkipQuestion stop turns (ptr + (packet ptr).toNat + 1)).value packet := by
  rw [dnsSkipQuestion, if_pos inside, value_bind, value_byte, if_neg (by omega),
    if_neg (plain_length _ (by omega))]

theorem dnsSkipLabels_label (turns ptr : Nat) (inside : ptr < stop)
    (some : 1 ≤ (packet ptr).toNat) (_short : (packet ptr).toNat ≤ 63) :
    (dnsSkipLabels stop (turns + 1) ptr).value packet =
      (dnsSkipLabels stop turns (ptr + (packet ptr).toNat + 1)).value packet := by
  rw [dnsSkipLabels, if_pos inside, value_bind, value_byte, if_neg (by omega)]

variable {name : DnsName}

theorem DnsName.encode_length (name : DnsName) : name.encode.length =
    (name.labels.flatMap dnsEncodeLabel).length + (tail name.pointer).length := List.length_append

/-- The first byte behind the labels. -/
theorem tail_byte (name : DnsName) (held : Spells packet ptr (DnsName.tail name.pointer)) :
    name.pointer = none ∧ (packet ptr).toNat = 0 ∧ (DnsName.tail name.pointer).length = 1 ∨
      name.pointer ≠ none ∧ isPointer (packet ptr).toNat ∧ (packet ptr).toNat ≠ 0 ∧
        (DnsName.tail name.pointer).length = 2 := by
  have offset := name.offset
  cases isTail : name.pointer with
  | none =>
      rw [isTail] at held
      exact .inl ⟨rfl, congrArg UInt8.toNat (spells_cons.mp held).1, rfl⟩
  | some target =>
      rw [isTail] at held
      have small : target < 16384 := offset target isTail
      have byte : (packet ptr).toNat = 192 + target / 256 := by
        rw [(spells_cons.mp held).1, UInt8.toNat_ofNat']
        omega
      refine .inr ⟨fun none => (Option.some_ne_none _ none), ?_, by omega, rfl⟩
      rw [byte]
      exact pointer_high _ (by omega)

/-- The question's walk ends at the zero byte of its name, or behind the pointer. -/
theorem dnsSkipQuestion_name (held : Spells packet ptr name.encode) (enough : stop ≤ ptr + turns)
    (inside : ptr + name.encode.length ≤ stop) :
    (name.pointer = none → (dnsSkipQuestion stop turns ptr).value packet + 1 =
        ptr + name.encode.length ∧
      (packet ((dnsSkipQuestion stop turns ptr).value packet)).toNat = 0) ∧
    (name.pointer ≠ none →
      (dnsSkipQuestion stop turns ptr).value packet = ptr + name.encode.length) := by
  rw [name.encode_length] at inside ⊢
  obtain ⟨labels, last⟩ := spells_append.mp held
  obtain ⟨left, still, walked⟩ := skip_labels dnsSkipQuestion_label name.sizes labels enough
    (by omega)
  have tail := tail_byte name last
  rw [walked]
  obtain ⟨turn, rfl⟩ : ∃ turn, left = turn + 1 := ⟨left - 1, by omega⟩
  rw [dnsSkipQuestion, if_pos (by omega), value_bind, value_byte]
  rcases tail with ⟨isNone, zero, length⟩ | ⟨isSome, compressed, some, length⟩
  · rw [if_pos zero]
    refine ⟨fun _ => ⟨?_, zero⟩, fun other => absurd isNone other⟩
    rw [length]
    exact Nat.add_assoc _ _ _
  · rw [if_neg some, if_pos compressed]
    refine ⟨fun other => absurd other isSome, fun _ => ?_⟩
    rw [length]
    exact Nat.add_assoc _ _ _

theorem dnsSkipName_simple (simple : name.Simple) (held : Spells packet ptr name.encode)
    (inside : ptr + name.encode.length ≤ stop) :
    (dnsSkipName stop ptr).value packet = ptr + name.encode.length := by
  rw [name.encode_length] at inside ⊢
  obtain ⟨labels, last⟩ := spells_append.mp held
  have tail := tail_byte name last
  rw [dnsSkipName, value_bind, value_byte]
  rcases tail with ⟨isNone, zero, length⟩ | ⟨isSome, compressed, some, length⟩
  · have plain : ¬ isPointer (packet ptr).toNat := by
      have sizes := name.sizes
      cases isLabels : name.labels with
      | nil =>
          rw [isLabels] at zero
          rw [show (packet ptr).toNat = 0 from zero]
          decide
      | cons label rest =>
          rw [isLabels] at labels sizes
          have short := (sizes label (List.mem_cons_self ..)).2
          rw [List.flatMap_cons, spells_append] at labels
          rw [(spells_cons.mp labels.1).1, UInt8.toNat_ofNat']
          exact plain_length _ (by omega)
    obtain ⟨left, still, walked⟩ := skip_labels dnsSkipLabels_label name.sizes labels
      (show stop ≤ ptr + stop by omega) (by omega)
    obtain ⟨turn, rfl⟩ : ∃ turn, left = turn + 1 := ⟨left - 1, by omega⟩
    rw [dnsSkipLabels, if_pos (by omega), value_bind, value_byte, if_pos zero] at walked
    rw [if_neg plain, value_bind, walked]
    simp only [value_pure]
    rw [if_pos (by omega), length, Nat.add_assoc]
  · have empty : name.labels = [] := simple.resolve_left isSome
    rw [empty, List.flatMap_nil, List.length_nil, Nat.add_zero] at compressed
    rw [if_pos compressed, value_pure, empty, length]
    rfl

/-! The answers. -/

variable {record : DnsRecord} {answers : List DnsRecord}

theorem DnsRecord.encode_length (record : DnsRecord) :
    record.encode.length = record.name.encode.length + 10 + record.data.length := by
  rw [DnsRecord.encode, List.length_append, List.length_append]
  rfl

/-- The fields of a record behind its name. -/
theorem DnsRecord.fields (held : Spells packet ptr record.encode) :
    Spells packet ptr record.name.encode ∧
      (word16 (ptr + record.name.encode.length)).value packet = record.type ∧
      (word16 (ptr + record.name.encode.length + 8)).value packet = record.data.length ∧
      Spells packet (ptr + record.name.encode.length + 10) record.data := by
  obtain ⟨front, data⟩ := spells_append.mp held
  obtain ⟨name, fixed⟩ := spells_append.mp front
  obtain ⟨before, length⟩ := spells_append.mp fixed
  obtain ⟨before, -⟩ := spells_append.mp before
  obtain ⟨type, -⟩ := spells_append.mp before
  rw [List.length_append, ← Nat.add_assoc] at data
  refine ⟨name, ?_, ?_, data⟩
  · rw [spells_be16 type, Nat.mod_eq_of_lt record.typeWord]
  · exact (spells_be16 length).trans (Nat.mod_eq_of_lt record.dataWord)

theorem firstAddress_cons (record : DnsRecord) (rest : List DnsRecord) :
    firstAddress (record :: rest) =
      if record.type = dnsTypeA then some ((word32 0).value (ofList record.data))
      else firstAddress rest := by
  rw [firstAddress, firstAddress, List.find?_cons]
  by_cases isAddress : record.type = dnsTypeA
  · rw [if_pos isAddress, decide_eq_true isAddress]
    rfl
  · rw [if_neg isAddress, decide_eq_false isAddress]

theorem dnsAnswers_first (simple : ∀ record ∈ scanned answers, record.name.Simple)
    (held : Spells packet ptr (answers.flatMap DnsRecord.encode))
    (inside : ptr + (answers.flatMap DnsRecord.encode).length ≤ stop) :
    (dnsAnswers stop answers.length ptr).value packet =
      ((firstAddress answers).map DnsReply.resolved).getD .unresolved := by
  induction answers generalizing ptr with
  | nil => rfl
  | cons record rest ih =>
      rw [List.flatMap_cons, List.length_append, record.encode_length] at inside
      rw [List.flatMap_cons, spells_append, record.encode_length] at held
      obtain ⟨name, type, rdlen, data⟩ := DnsRecord.fields held.1
      have isSimple : record.name.Simple := by
        refine simple record ?_
        rw [scanned]
        split
        · exact List.mem_singleton_self _
        · exact List.mem_cons_self ..
      rw [List.length_cons, dnsAnswers, if_pos (by omega), value_bind,
        dnsSkipName_simple isSimple name (by omega), if_neg (by omega)]
      simp only [value_bind]
      rw [type, rdlen]
      by_cases isAddress : record.type = dnsTypeA
      · have four := record.address isAddress
        rw [if_pos ⟨isAddress, four, by omega⟩, value_bind, spells_word32 data four]
        rw [firstAddress_cons, if_pos isAddress]
        rfl
      · have later : ∀ next ∈ scanned rest, next.name.Simple := by
          intro next member
          refine simple next ?_
          rw [scanned, if_neg isAddress]
          exact List.mem_cons_of_mem _ member
        rw [if_neg fun address => isAddress address.1]
        rw [ih later (by simpa only [Nat.add_assoc] using held.2) (by omega), firstAddress_cons,
          if_neg isAddress]

end Names

/-! The message. -/

variable {packet : Bytes} {m : DnsMessage}

theorem DnsMessage.encode_length (m : DnsMessage) : m.encode.length =
    12 + m.name.encode.length + 4 + (m.answers.flatMap DnsRecord.encode).length +
      m.additional.length := by
  rw [DnsMessage.encode, List.length_append, List.length_append, List.length_append,
    List.length_append]
  rfl

theorem DnsMessage.fields (held : Spells packet 0 m.encode) :
    (word16 2).value packet = m.flags ∧ (word16 6).value packet = m.answers.length ∧
      Spells packet 12 m.name.encode ∧
      (packet (12 + m.name.encode.length)).toNat = m.type / 256 ∧
      Spells packet (12 + m.name.encode.length + 4) (m.answers.flatMap DnsRecord.encode) := by
  have typeWord := m.typeWord
  obtain ⟨front, -⟩ := spells_append.mp held
  obtain ⟨front, answers⟩ := spells_append.mp front
  obtain ⟨front, fixed⟩ := spells_append.mp front
  obtain ⟨header, name⟩ := spells_append.mp front
  obtain ⟨header, -⟩ := spells_append.mp header
  obtain ⟨header, -⟩ := spells_append.mp header
  obtain ⟨header, ancount⟩ := spells_append.mp header
  obtain ⟨header, -⟩ := spells_append.mp header
  obtain ⟨-, flags⟩ := spells_append.mp header
  obtain ⟨type, -⟩ := spells_append.mp fixed
  rw [List.length_append, Nat.zero_add] at type
  rw [List.length_append, List.length_append, Nat.zero_add] at answers
  refine ⟨(spells_be16 flags).trans (Nat.mod_eq_of_lt m.flagsWord),
    (spells_be16 ancount).trans (Nat.mod_eq_of_lt m.countWord), name, ?_, ?_⟩
  · refine (congrArg UInt8.toNat (spells_cons.mp type).1).trans ?_
    rw [UInt8.toNat_ofNat']
    omega
  · exact answers

/-- Behind the question's name, and the byte that is skipped if it is zero. -/
theorem question_end (held : Spells packet 0 m.encode)
    (question : m.name.pointer = none ∨ 256 ≤ m.type) :
    let place := (dnsSkipQuestion m.encode.length m.encode.length 12).value packet
    (if (packet place).toNat = 0 then place + 1 else place) = 12 + m.name.encode.length := by
  obtain ⟨-, -, name, type, -⟩ := DnsMessage.fields held
  have length := m.encode_length
  obtain ⟨plain, compressed⟩ := dnsSkipQuestion_name name
    (Nat.le_add_left m.encode.length 12) (by omega)
  intro place
  by_cases isNone : m.name.pointer = none
  · obtain ⟨next, zero⟩ := plain isNone
    rw [if_pos zero]
    exact next
  · have isPlace : place = 12 + m.name.encode.length := compressed isNone
    have long := question.resolve_left isNone
    rw [isPlace, type, if_neg (by omega)]

theorem dnsAddress_first {d : Datagram} (carried : d.Carries m) (readable : m.Readable) :
    dnsAddress d = firstAddress m.answers := by
  obtain ⟨isLen, held⟩ := carried
  obtain ⟨flags, ancount, -, -, answers⟩ := DnsMessage.fields held
  have length := m.encode_length
  rw [DnsMessage.Readable] at readable
  have query : ¬ ¬ hasFlag m.flags dnsFlagQr := not_not_intro m.response
  rw [dnsAddress, dnsReply, dnsParse, isLen, if_neg (show ¬ m.encode.length < 12 by omega),
    value_bind, flags, if_neg query]
  by_cases failed : hasFlag m.flags dnsFlagRcode
  · rw [if_pos failed] at readable
    rw [if_pos failed, readable]
    rfl
  · rw [if_neg failed] at readable
    rw [if_neg failed, value_bind, ancount]
    by_cases none : m.answers.length = 0
    · rw [if_pos none, List.length_eq_zero_iff.mp none]
      rfl
    · have aligned : m.Aligned := readable.resolve_left fun empty => none (by rw [empty]; rfl)
      have place := question_end held aligned.question
      dsimp only at place
      rw [if_neg none, value_bind, value_bind, value_byte]
      dsimp only
      rw [place, dnsAnswers_first aligned.answers answers (by omega)]
      cases firstAddress m.answers with
      | none => rfl
      | some ip => rfl

/-- A readable response sets the result to the address of its first record with one, and leaves it
where there is none. -/
theorem dns_answer_first (s : Dns) (m : DnsMessage) (d : Datagram) (carried : d.Carries m)
    (readable : m.Readable) :
    (dnsReceive s d).resultIp = (firstAddress m.answers).getD s.resultIp := by
  rw [dnsReceive_resultIp, dnsAddress_first carried readable]

/-- The parts of "b" and "a" as one name: a label, and a pointer to the question. -/
def pointedName : DnsName := ⟨[[98]], some 12, by decide, by simp⟩

def pointerName : DnsName := ⟨[], some 12, by decide, by simp⟩

/-- A question for "a", and an answer for the name with the address 10.0.0.9. -/
def answerFor (name : DnsName) : DnsMessage where
  id := 1
  flags := 0x8180
  name := ⟨[[97]], none, by decide, by simp⟩
  type := 1
  cls := 1
  answers := [⟨name, 1, 1, 60, [10, 0, 0, 9], by decide, by decide, fun _ => rfl⟩]
  nscount := 0
  arcount := 0
  additional := []
  flagsWord := by decide
  typeWord := by decide
  countWord := show 1 < 65536 by decide
  response := by decide

def DnsMessage.datagram (m : DnsMessage) : Datagram := ⟨ofList m.encode, m.encode.length⟩

/-- The answer is missed where its name is a label in front of a pointer. -/
theorem dns_answer_missed :
    (answerFor pointedName).datagram.Carries (answerFor pointedName) ∧
      firstAddress (answerFor pointedName).answers = some 0x0A000009 ∧
      (dnsReceive .boot (answerFor pointedName).datagram).resultIp = 0 :=
  ⟨⟨rfl, by decide⟩, by decide, by decide⟩

theorem dns_answer_first_pointer :
    (dnsReceive .boot (answerFor pointerName).datagram).resultIp =
      (firstAddress (answerFor pointerName).answers).getD 0 := by
  refine dns_answer_first .boot (answerFor pointerName) _ ⟨rfl, by decide⟩ ?_
  rw [DnsMessage.Readable, if_neg (by decide)]
  refine .inr ⟨.inl rfl, fun record member => ?_⟩
  obtain rfl := List.mem_singleton.mp member
  exact .inr rfl

end ZurichOS
