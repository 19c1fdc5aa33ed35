import ZurichOS.RingBuffer
import ZurichOS.Transitions

/-!
The loopback interface of `loopback.c`: sends put the bytes of a packet into one circular buffer,
and a receive takes out what waits there.
-/

namespace ZurichOS

open RingBuffer Transitions

abbrev loopbackBufferSize : Nat := 4096

structure Loopback where
  buffer : Nat → UInt8
  head : Nat
  tail : Nat
  count : Nat

def loopbackInit (buffer : Nat → UInt8) : Loopback := ⟨buffer, 0, 0, 0⟩

def loopbackPut (buffer : Nat → UInt8) (head : Nat) : List UInt8 → (Nat → UInt8) × Nat
  | [] => (buffer, head)
  | byte :: rest =>
      loopbackPut (Function.update buffer head byte) ((head + 1) % loopbackBufferSize) rest

def loopbackGet (buffer : Nat → UInt8) (tail : Nat) : Nat → List UInt8 × Nat
  | 0 => ([], tail)
  | more + 1 =>
      let rest := loopbackGet buffer ((tail + 1) % loopbackBufferSize) more
      (buffer tail :: rest.1, rest.2)

def loopbackSend (s : Loopback) (data : List UInt8) : Int × Loopback :=
  if (data.length : Int) > (loopbackBufferSize : Int) - s.count then (-1, s)
  else
    let filled := loopbackPut s.buffer s.head data
    (data.length, { s with buffer := filled.1, head := filled.2, count := s.count + data.length })

/-- The result, the bytes behind the caller's pointer, and the interface afterwards. -/
def loopbackReceive (s : Loopback) (maxLen : Nat) : Int × List UInt8 × Loopback :=
  if s.count = 0 then (0, [], s)
  else
    let toRead := if s.count > maxLen then maxLen else s.count
    let read := loopbackGet s.buffer s.tail toRead
    (toRead, read.1, { s with tail := read.2, count := s.count - toRead })

inductive LoopbackCall where
  | send (data : List UInt8)
  | receive (maxLen : Nat)

/-- The interface, the packets that `send` has accepted so far, and how many receives have
returned bytes. -/
structure LoopbackRun where
  loopback : Loopback
  accepted : List (List UInt8)
  received : Nat

def LoopbackRun.start (buffer : Nat → UInt8) : LoopbackRun := ⟨loopbackInit buffer, [], 0⟩

def LoopbackRun.step (s : LoopbackRun) : LoopbackCall → LoopbackRun
  | .send data =>
      let sent := loopbackSend s.loopback data
      { s with
        loopback := sent.2
        accepted := if sent.1 < 0 then s.accepted else s.accepted ++ [data] }
  | .receive maxLen =>
      let read := loopbackReceive s.loopback maxLen
      { s with
        loopback := read.2.2
        received := if 0 < read.1 then s.received + 1 else s.received }

def LoopbackRun.waiting (s : LoopbackRun) : List (List UInt8) := s.accepted.drop s.received

/-- A send accepts what the packets that wait leave room for, and a receive that returns bytes
returns the packet of its number. -/
def LoopbackRun.Preserves (s : LoopbackRun) : LoopbackCall → Prop
  | .send data => (loopbackSend s.loopback data).1 = data.length ↔
      s.waiting.flatten.length + data.length ≤ loopbackBufferSize
  | .receive maxLen => 0 < (loopbackReceive s.loopback maxLen).1 →
      s.accepted[s.received]? = some (loopbackReceive s.loopback maxLen).2.1

/-- The packet that waits longest is not empty, and no byte behind it fits in with it. -/
def Foremost (packets : List (List UInt8)) (maxLen : Nat) : Prop :=
  ∃ packet rest, packets = packet :: rest ∧ packet ≠ [] ∧ packet.length ≤ maxLen ∧
    (rest.flatten = [] ∨ maxLen = packet.length)

def LoopbackRun.Alone (s : LoopbackRun) : LoopbackCall → Prop
  | .send _ => True
  | .receive maxLen => s.waiting.flatten = [] ∨ maxLen = 0 ∨ Foremost s.waiting maxLen

theorem foremost_iff {packets : List (List UInt8)} {maxLen : Nat} (some : packets.flatten ≠ [])
    (size : maxLen ≠ 0) :
    packets.head? = Option.some (packets.flatten.take maxLen) ↔ Foremost packets maxLen := by
  constructor
  · intro first
    obtain ⟨packet, rest, rfl⟩ : ∃ packet rest, packets = packet :: rest := by
      cases packets with
      | nil => exact absurd rfl some
      | cons packet rest => exact ⟨packet, rest, rfl⟩
    have whole : packet = (packet ++ rest.flatten).take maxLen := by
      simpa using first
    have count : packet.length = min maxLen (packet.length + rest.flatten.length) := by
      have same := congrArg List.length whole
      rwa [List.length_take, List.length_append] at same
    have bytes : 0 < packet.length + rest.flatten.length := by
      have present := List.length_pos_iff.mpr some
      rwa [List.flatten_cons, List.length_append] at present
    refine ⟨packet, rest, rfl, List.length_pos_iff.mp (by omega), by omega, ?_⟩
    rw [← List.length_eq_zero_iff]
    omega
  · rintro ⟨packet, rest, rfl, -, fits, alone⟩
    rw [List.head?_cons, List.flatten_cons]
    rcases alone with none | exact
    · rw [none, List.append_nil, List.take_of_length_le fits]
    · rw [exact, List.take_left']
      rfl

structure LoopbackRun.Sound (s : LoopbackRun) : Prop where
  tail : s.loopback.tail < loopbackBufferSize
  bound : s.loopback.count ≤ loopbackBufferSize
  head : s.loopback.head = (s.loopback.tail + s.loopback.count) % loopbackBufferSize
  bytes : elements s.loopback.buffer loopbackBufferSize s.loopback.tail s.loopback.count =
    s.waiting.flatten
  received : s.received ≤ s.accepted.length

theorem loopbackPut_appends (data : List UInt8) {buffer : Nat → UInt8} {tail count : Nat}
    (room : count + data.length ≤ loopbackBufferSize) :
    elements (loopbackPut buffer ((tail + count) % loopbackBufferSize) data).1
        loopbackBufferSize tail (count + data.length) =
      elements buffer loopbackBufferSize tail count ++ data ∧
    (loopbackPut buffer ((tail + count) % loopbackBufferSize) data).2 =
      (tail + (count + data.length)) % loopbackBufferSize := by
  induction data generalizing buffer count with
  | nil => exact ⟨(List.append_nil _).symm, rfl⟩
  | cons byte rest ih =>
      rw [List.length_cons] at room
      have pushed := elements_push buffer tail (show count < loopbackBufferSize by omega) byte
      have next := @ih (Function.update buffer ((tail + count) % loopbackBufferSize) byte)
        (count + 1) (by omega)
      rw [loopbackPut, Nat.mod_add_mod, Nat.add_assoc tail count 1, List.length_cons,
        show count + (rest.length + 1) = count + 1 + rest.length by omega]
      refine ⟨next.1.trans ?_, next.2⟩
      rw [pushed, List.append_assoc, List.singleton_append]

theorem loopbackGet_removes (buffer : Nat → UInt8) {tail : Nat} (within : tail < loopbackBufferSize)
    (count left : Nat) :
    elements buffer loopbackBufferSize tail (count + left) =
      (loopbackGet buffer tail count).1 ++
        elements buffer loopbackBufferSize (loopbackGet buffer tail count).2 left ∧
    (loopbackGet buffer tail count).1.length = count ∧
    (loopbackGet buffer tail count).2 = (tail + count) % loopbackBufferSize := by
  induction count generalizing tail with
  | zero =>
      rw [Nat.zero_add]
      exact ⟨rfl, rfl, (Nat.mod_eq_of_lt within).symm⟩
  | succ count ih =>
      obtain ⟨bytes, length, stop⟩ :=
        ih (show (tail + 1) % loopbackBufferSize < loopbackBufferSize from
          Nat.mod_lt _ (by decide))
      rw [Nat.add_right_comm, elements_pop buffer within, bytes]
      refine ⟨rfl, congrArg Nat.succ length, ?_⟩
      rw [loopbackGet, stop, Nat.mod_add_mod, Nat.add_assoc tail 1 count, Nat.add_comm 1 count]

variable {s : LoopbackRun}

theorem LoopbackRun.Sound.count (sound : s.Sound) :
    s.waiting.flatten.length = s.loopback.count := by
  rw [← sound.bytes, elements_length]

theorem LoopbackRun.Sound.send (sound : s.Sound) (data : List UInt8) :
    (s.step (.send data)).Sound ∧ s.Preserves (.send data) := by
  have bound := sound.bound
  have bytes := sound.count
  by_cases full : (data.length : Int) > (loopbackBufferSize : Int) - s.loopback.count
  · have refused : loopbackSend s.loopback data = (-1, s.loopback) := if_pos full
    constructor
    · rw [step, refused]
      exact sound
    · rw [Preserves, refused, bytes]
      dsimp only
      omega
  · have room : s.loopback.count + data.length ≤ loopbackBufferSize := by omega
    have put := @loopbackPut_appends data s.loopback.buffer s.loopback.tail s.loopback.count room
    rw [← sound.head] at put
    have sent : loopbackSend s.loopback data = ((data.length : Int),
        { s.loopback with
          buffer := (loopbackPut s.loopback.buffer s.loopback.head data).1
          head := (loopbackPut s.loopback.buffer s.loopback.head data).2
          count := s.loopback.count + data.length }) := if_neg full
    have taken : ¬ (data.length : Int) < 0 := by omega
    constructor
    · rw [step, sent]
      dsimp only
      rw [if_neg taken]
      have behind : (s.accepted ++ [data]).drop s.received = s.waiting ++ [data] :=
        List.drop_append_of_le_length sound.received
      refine ⟨sound.tail, room, put.2, put.1.trans ?_, ?_⟩
      · rw [sound.bytes]
        dsimp only [waiting] at behind ⊢
        rw [behind, List.flatten_append, List.flatten_singleton]
      · exact Nat.le_trans sound.received (List.length_append ▸ Nat.le_add_right _ _)
    · rw [Preserves, sent, bytes]
      exact iff_of_true rfl room

/-- A receive takes the first bytes of those that wait. -/
theorem LoopbackRun.Sound.receive (sound : s.Sound) (maxLen : Nat) :
    ∃ read : Nat, read = min maxLen s.waiting.flatten.length ∧
      loopbackReceive s.loopback maxLen = ((read : Int), s.waiting.flatten.take maxLen,
        { s.loopback with
          tail := (s.loopback.tail + read) % loopbackBufferSize
          count := s.loopback.count - read }) ∧
      elements s.loopback.buffer loopbackBufferSize
          ((s.loopback.tail + read) % loopbackBufferSize) (s.loopback.count - read) =
        s.waiting.flatten.drop maxLen := by
  have bytes := sound.count
  by_cases none : s.loopback.count = 0
  · have empty : s.waiting.flatten = [] := List.length_eq_zero_iff.mp (bytes.trans none)
    refine ⟨0, by rw [empty, List.length_nil, Nat.min_zero], ?_,
      by rw [none, empty, elements_zero, List.drop_nil]⟩
    rw [loopbackReceive, if_pos none, empty, List.take_nil, Nat.add_zero,
      Nat.mod_eq_of_lt sound.tail]
    rfl
  · have isRead : (if s.loopback.count > maxLen then maxLen else s.loopback.count) =
        min maxLen s.loopback.count := by
      split <;> omega
    obtain ⟨removed, length, stop⟩ := loopbackGet_removes s.loopback.buffer sound.tail
      (min maxLen s.loopback.count) (s.loopback.count - min maxLen s.loopback.count)
    rw [Nat.add_sub_cancel' (Nat.min_le_right _ _), sound.bytes] at removed
    have taken : s.waiting.flatten.take maxLen =
        (loopbackGet s.loopback.buffer s.loopback.tail (min maxLen s.loopback.count)).1 := by
      rw [List.take_eq_take_min, bytes, removed, List.take_left' length]
    have dropped : s.waiting.flatten.drop maxLen =
        elements s.loopback.buffer loopbackBufferSize
          ((s.loopback.tail + min maxLen s.loopback.count) % loopbackBufferSize)
          (s.loopback.count - min maxLen s.loopback.count) := by
      rw [List.drop_eq_drop_min, bytes, removed, List.drop_left' length, stop]
    refine ⟨min maxLen s.loopback.count, by rw [bytes], ?_, dropped.symm⟩
    rw [loopbackReceive, if_neg none, isRead, taken, ← stop]

/-- A receive returns the packet of its number exactly if that packet is foremost, and then the
packets behind it wait. -/
theorem LoopbackRun.Sound.receive_iff (sound : s.Sound) (maxLen : Nat) :
    s.Preserves (.receive maxLen) ↔ s.Alone (.receive maxLen) := by
  obtain ⟨read, isRead, result, -⟩ := sound.receive maxLen
  rw [Preserves, Alone, result, ← List.head?_drop]
  dsimp only
  by_cases empty : s.waiting.flatten = []
  · refine iff_of_true (fun some => ?_) (.inl empty)
    rw [isRead, empty, List.length_nil] at some
    omega
  · rw [or_iff_right empty]
    by_cases small : maxLen = 0
    · refine iff_of_true (fun some => ?_) (.inl small)
      omega
    · have present := List.length_pos_iff.mpr empty
      rw [or_iff_right small, ← foremost_iff empty small]
      exact imp_iff_right (by omega)

theorem LoopbackRun.Sound.received_alone (sound : s.Sound) {maxLen : Nat}
    (alone : s.Alone (.receive maxLen)) : (s.step (.receive maxLen)).Sound := by
  obtain ⟨read, isRead, result, left⟩ := sound.receive maxLen
  have count := sound.count
  have next : s.step (.receive maxLen) = { s with
      loopback := { s.loopback with
        tail := (s.loopback.tail + read) % loopbackBufferSize
        count := s.loopback.count - read }
      received := if 0 < (read : Int) then s.received + 1 else s.received } := by
    rw [step, result]
  have behind : (s.step (.receive maxLen)).waiting.flatten = s.waiting.flatten.drop maxLen ∧
      (s.step (.receive maxLen)).received ≤ s.accepted.length := by
    rw [next]
    dsimp only [waiting]
    rcases alone with empty | zero | ⟨packet, rest, isWaiting, some, fits, alone⟩
    · have idle : ¬ 0 < (read : Int) := by
        rw [isRead, empty, List.length_nil]
        omega
      rw [if_neg idle, ← waiting, empty]
      exact ⟨List.drop_nil.symm, sound.received⟩
    · have idle : ¬ 0 < (read : Int) := by omega
      rw [if_neg idle, zero]
      exact ⟨rfl, sound.received⟩
    · have size := List.length_pos_iff.mpr some
      have busy : 0 < (read : Int) := by
        rw [isRead, isWaiting, List.flatten_cons, List.length_append]
        omega
      have isRest : s.accepted.drop (s.received + 1) = rest := by
        rw [← List.drop_drop, ← waiting, isWaiting]
        rfl
      have more : s.received < s.accepted.length := by
        by_contra all
        have none : s.waiting = [] := List.drop_eq_nil_of_le (Nat.le_of_not_lt all)
        cases isWaiting.symm.trans none
      rw [if_pos busy, isRest, ← waiting, isWaiting, List.flatten_cons]
      refine ⟨?_, more⟩
      rcases alone with none | exact
      · rw [none, List.append_nil, List.drop_of_length_le fits]
      · rw [exact, List.drop_left']
        rfl
  have bound := sound.bound
  have head := sound.head
  refine ⟨?_, ?_, ?_, ?_, ?_⟩
  · rw [next]
    exact Nat.mod_lt _ (by decide)
  · rw [next]
    dsimp only
    omega
  · rw [next]
    dsimp only
    rw [Nat.mod_add_mod, head]
    congr 1
    omega
  · rw [behind.1, ← left, next]
  · rw [next] at behind ⊢
    exact behind.2

theorem LoopbackRun.Sound.start (buffer : Nat → UInt8) : (LoopbackRun.start buffer).Sound :=
  ⟨Nat.zero_lt_succ _, Nat.zero_le _, rfl, rfl, Nat.le_refl 0⟩

/-- The packets survive a run exactly if each receive that returns bytes meets the first packet
that waits alone, or with a buffer of its very length. -/
theorem loopback_preserves_iff (buffer : Nat → UInt8) (calls : List LoopbackCall) :
    Along LoopbackRun.step LoopbackRun.Preserves (LoopbackRun.start buffer) calls ↔
      Along LoopbackRun.step LoopbackRun.Alone (LoopbackRun.start buffer) calls := by
  refine along_congr LoopbackRun.Sound ?_ ?_ (.start buffer) calls
  · intro s call sound alone
    cases call with
    | send data => exact (sound.send data).1
    | receive maxLen => exact sound.received_alone alone
  · intro s call sound
    cases call with
    | send data => exact iff_of_true (sound.send data).2 trivial
    | receive maxLen => exact sound.receive_iff maxLen

/-- Two packets of one byte come out as one. -/
theorem loopback_merges : ¬ Along LoopbackRun.step LoopbackRun.Preserves
    (LoopbackRun.start fun _ => 0) [.send [1], .send [2], .receive 1500] := by
  rintro ⟨-, -, merged, -⟩
  exact absurd (merged (by decide)) (by decide)

end ZurichOS
