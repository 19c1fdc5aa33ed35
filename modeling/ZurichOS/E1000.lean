import ZurichOS.ByteBuffer
import ZurichOS.InterruptRing

set_option linter.all false

/-!
The receive ring of the network card: the card stores frames into the buffers of the descriptors
between its head and its tail register, `e1000_receive` takes them out and moves the tail.
-/

namespace ZurichOS.E1000

open ByteBuffer InterruptRing RingBuffer

abbrev numRxDesc : Nat := 32

/-- The length of a frame, and the bit that the card sets when the frame is there. -/
structure RxDesc where
  length : Nat
  done : Bool

/-- How far a call of `e1000_receive` is, which the card can interrupt anywhere. -/
inductive Call
  | idle
  | copy (maxLength length : Nat)
  | clear (maxLength : Nat) (data : List UInt8)
  | advance (maxLength : Nat) (data : List UInt8)
  | release (maxLength : Nat) (data : List UInt8) (oldCur : Nat)

/-- The driver and the card; the frames that the card has stored, and what the calls gave. -/
structure Nic where
  rxDescs : Nat → RxDesc
  rxBuffers : Nat → Buffer
  rdh : Nat
  rdt : Nat
  rxCur : Nat
  call : Call
  arrived : List (List UInt8)
  returned : List (Nat × List UInt8)

def initRx (buffers : Nat → Buffer) : Nic where
  rxDescs := fun _ => ⟨0, false⟩
  rxBuffers := buffers
  rdh := 0
  rdt := numRxDesc - 1
  rxCur := 0
  call := .idle
  arrived := []
  returned := []

inductive Event
  | arrive (frame : List UInt8)
  | receive (maxLength : Nat)
  | resume

/-- The card has a descriptor for the frame as long as its head has not reached the tail. -/
def arrive (s : Nic) (frame : List UInt8) : Nic :=
  if s.rdh = s.rdt then s
  else
    { s with
      rxDescs := Function.update s.rxDescs s.rdh ⟨frame.length, true⟩
      rxBuffers := Function.update s.rxBuffers s.rdh (putBytes (s.rxBuffers s.rdh) 0 frame)
      rdh := (s.rdh + 1) % numRxDesc
      arrived := s.arrived ++ [frame] }

def receive (s : Nic) (maxLength : Nat) : Nic :=
  match s.call with
  | .idle =>
      if (s.rxDescs s.rxCur).done then
        let length := (s.rxDescs s.rxCur).length
        { s with call := .copy maxLength (if maxLength < length then maxLength else length) }
      else s
  | _ => s

def resume (s : Nic) : Nic :=
  match s.call with
  | .idle => s
  | .copy maxLength length =>
      { s with call := .clear maxLength (bytesAt (s.rxBuffers s.rxCur) 0 length) }
  | .clear maxLength data =>
      { s with
        rxDescs := Function.update s.rxDescs s.rxCur { s.rxDescs s.rxCur with done := false }
        call := .advance maxLength data }
  | .advance maxLength data =>
      { s with
        rxCur := (s.rxCur + 1) % numRxDesc
        call := .release maxLength data s.rxCur }
  | .release maxLength data oldCur =>
      { s with rdt := oldCur, call := .idle, returned := s.returned ++ [(maxLength, data)] }

def step (s : Nic) : Event → Nic
  | .arrive frame => arrive s frame
  | .receive maxLength => receive s maxLength
  | .resume => resume s

/-- The frames between the tail and the head. -/
def ring (s : Nic) : RingState (List UInt8) where
  slots := fun i => bytesAt (s.rxBuffers i) 0 (s.rxDescs i).length
  head := s.rdh
  tail := (s.rdt + 1) % numRxDesc

def pending (s : Nic) : List (List UInt8) := (ring s).contents numRxDesc

/-- The descriptor at the tail is no longer marked. -/
def Call.cleared : Call → Bool
  | .advance _ _ => true
  | .release _ _ _ => true
  | _ => false

/-- What a call knows of the frame at the tail. -/
def Call.Follows (r : RingState (List UInt8)) : Call → Prop
  | .idle => True
  | .copy maxLength length =>
      r.head ≠ r.tail ∧ length = min maxLength (r.slots r.tail).length
  | .clear maxLength data => r.head ≠ r.tail ∧ data = (r.slots r.tail).take maxLength
  | .advance maxLength data => r.head ≠ r.tail ∧ data = (r.slots r.tail).take maxLength
  | .release maxLength data oldCur =>
      r.head ≠ r.tail ∧ data = (r.slots r.tail).take maxLength ∧ oldCur = r.tail

def Call.current (tail : Nat) : Call → Nat
  | .release _ _ _ => (tail + 1) % numRxDesc
  | _ => tail

structure Sound (s : Nic) : Prop where
  rdh : s.rdh < numRxDesc
  rdt : s.rdt < numRxDesc
  done : ∀ i < numRxDesc, (s.rxDescs (((ring s).tail + i) % numRxDesc)).done = true ↔
    i < (ring s).count numRxDesc ∧ (i = 0 → s.call.cleared = false)
  rxCur : s.rxCur = s.call.current (ring s).tail
  follows : s.call.Follows (ring s)
  order : ∃ read : List (List UInt8), s.arrived = read ++ pending s ∧
    List.Forall₂ (fun out frame => out.2 = frame.take out.1) s.returned read

variable {s : Nic}

theorem Sound.tail (_ : Sound s) : (ring s).tail < numRxDesc := Nat.mod_lt _ (by decide)

theorem initRx_sound (buffers : Nat → Buffer) : Sound (initRx buffers) := by
  have none : (ring (initRx buffers)).count numRxDesc = 0 := by
    change (0 + 32 - (32 - 1 + 1) % 32) % 32 = 0
    decide
  have empty : pending (initRx buffers) = [] := by
    rw [pending, RingState.contents, none, elements_zero]
  refine ⟨by change 0 < 32; decide, by change 31 < 32; decide, fun i _ => ?_, ?_, trivial, [],
    empty.symm, .nil⟩
  · rw [none]
    constructor
    · exact fun marked => absurd marked (by simp [initRx])
    · exact fun few => absurd few.1 (Nat.not_lt_zero i)
  · change 0 = (32 - 1 + 1) % 32
    decide

/-- There is a free descriptor exactly if the ring has room. -/
theorem Sound.room (sound : Sound s) :
    s.rdh ≠ s.rdt ↔ ((ring s).head + 1) % numRxDesc ≠ (ring s).tail := by
  have head : s.rdh < 32 := sound.rdh
  have last : s.rdt < 32 := sound.rdt
  change s.rdh ≠ s.rdt ↔ (s.rdh + 1) % 32 ≠ (s.rdt + 1) % 32
  omega

/-- To store a frame is to put it into the ring. -/
theorem ring_arrive (sound : Sound s) (frame : List UInt8) :
    ring (arrive s frame) = push numRxDesc (ring s) frame := by
  have room := sound.room
  rw [arrive, push]
  by_cases full : s.rdh = s.rdt
  · rw [if_pos full, if_neg fun free => room.mpr free full]
  · rw [if_neg full, if_pos (room.mp full)]
    have slots : (fun i => bytesAt (Function.update s.rxBuffers s.rdh
        (putBytes (s.rxBuffers s.rdh) 0 frame) i) 0
          (Function.update s.rxDescs s.rdh ⟨frame.length, true⟩ i).length) =
        Function.update (ring s).slots (ring s).head frame := by
      funext i
      by_cases same : i = s.rdh
      · subst same
        simp only [Function.update_self, ring]
        exact bytesAt_putBytes _
      · simp only [Function.update_of_ne same, ring]
    change (⟨_, _, _⟩ : RingState (List UInt8)) = _
    rw [slots]
    rfl

theorem push_count {r : RingState (List UInt8)} (head : r.head < numRxDesc) (tail : r.tail < numRxDesc)
    (room : (r.head + 1) % numRxDesc ≠ r.tail) (frame : List UInt8) :
    (push numRxDesc r frame).count numRxDesc = r.count numRxDesc + 1 := by
  have grows := congrArg List.length (push_contents head tail room frame)
  rwa [contents_length, List.length_append, contents_length] at grows

theorem Follows.push {r : RingState (List UInt8)} {call : Call} (follows : call.Follows r)
    (room : (r.head + 1) % numRxDesc ≠ r.tail) (frame : List UInt8) :
    call.Follows (push numRxDesc r frame) := by
  have head : (InterruptRing.push numRxDesc r frame).head = (r.head + 1) % numRxDesc := by
    rw [InterruptRing.push, if_pos room]
  have tail := @push_tail (List UInt8) numRxDesc r frame
  have stays : (InterruptRing.push numRxDesc r frame).head ≠
      (InterruptRing.push numRxDesc r frame).tail := by
    rw [head, tail]
    exact room
  cases call with
  | idle => trivial
  | copy maxLength length =>
      obtain ⟨some, isLength⟩ := follows
      exact ⟨stays, by rw [tail, push_slot some, isLength]⟩
  | clear maxLength data =>
      obtain ⟨some, isData⟩ := follows
      exact ⟨stays, by rw [tail, push_slot some, isData]⟩
  | advance maxLength data =>
      obtain ⟨some, isData⟩ := follows
      exact ⟨stays, by rw [tail, push_slot some, isData]⟩
  | release maxLength data oldCur =>
      obtain ⟨some, isData, isOld⟩ := follows
      exact ⟨stays, by rw [tail, push_slot some, isData], by rw [tail, isOld]⟩

theorem Sound.arrive (sound : Sound s) (frame : List UInt8) : Sound (arrive s frame) := by
  by_cases full : s.rdh = s.rdt
  · rw [E1000.arrive, if_pos full]
    exact sound
  · have room := sound.room.mp full
    have isRing := ring_arrive sound frame
    have isTail : (ring (E1000.arrive s frame)).tail = (ring s).tail := by
      rw [isRing, push_tail]
    have isCount : (ring (E1000.arrive s frame)).count numRxDesc =
        (ring s).count numRxDesc + 1 := by
      rw [isRing, push_count sound.rdh sound.tail room]
    have isAfter : E1000.arrive s frame =
        { s with
          rxDescs := Function.update s.rxDescs s.rdh ⟨frame.length, true⟩
          rxBuffers := Function.update s.rxBuffers s.rdh (putBytes (s.rxBuffers s.rdh) 0 frame)
          rdh := (s.rdh + 1) % numRxDesc
          arrived := s.arrived ++ [frame] } := if_neg full
    have last : ((ring s).tail + (ring s).count numRxDesc) % numRxDesc = s.rdh :=
      last_slot sound.rdh sound.tail
    have some := (@room_iff _ numRxDesc (ring s) sound.rdh sound.tail).mp room
    have isCall : (E1000.arrive s frame).call = s.call := by rw [isAfter]
    refine ⟨?_, ?_, fun i below => ?_, ?_, ?_, ?_⟩
    · rw [isAfter]
      exact Nat.mod_lt _ (by decide)
    · rw [isAfter]
      exact sound.rdt
    · rw [isTail, isCount, isCall]
      have before := sound.done i below
      by_cases new : i = (ring s).count numRxDesc
      · rw [new, last, isAfter]
        have first : (ring s).count numRxDesc = 0 → s.call.cleared = false := by
          intro none
          have empty := (@empty_iff _ numRxDesc (ring s) sound.rdh sound.tail).mpr none
          have follows := sound.follows
          cases isCall' : s.call with
          | advance maxLength data => exact absurd empty (isCall' ▸ follows).1
          | release maxLength data oldCur => exact absurd empty (isCall' ▸ follows).1
          | _ => rfl
        simp only [Function.update_self]
        exact ⟨fun _ => ⟨Nat.lt_succ_self _, first⟩, fun _ => trivial⟩
      · have other : ((ring s).tail + i) % numRxDesc ≠ s.rdh := by
          rw [← last]
          exact fun same => new (slot_inj below (Nat.lt_of_succ_lt some) same)
        have kept : ((E1000.arrive s frame).rxDescs (((ring s).tail + i) % numRxDesc)).done =
            (s.rxDescs (((ring s).tail + i) % numRxDesc)).done := by
          rw [isAfter]
          simp only [Function.update_of_ne other]
        have same : i < (ring s).count numRxDesc ↔ i < (ring s).count numRxDesc + 1 := by omega
        rw [kept, before, same]
    · rw [isCall, isTail, isAfter]
      exact sound.rxCur
    · rw [isCall, isRing]
      exact Follows.push sound.follows room frame
    · obtain ⟨read, arrived, outs⟩ := sound.order
      have grows : pending (E1000.arrive s frame) = pending s ++ [frame] := by
        rw [pending, isRing, push_contents sound.rdh sound.tail room]
        rfl
      refine ⟨read, ?_, ?_⟩
      · rw [grows, ← List.append_assoc, ← arrived, isAfter]
      · rw [isAfter]
        exact outs

/-- Moving the tail behind the frame takes it out of the ring. -/
theorem Sound.release (sound : Sound s) {maxLength oldCur : Nat} {data : List UInt8}
    (isCall : s.call = .release maxLength data oldCur) :
    Sound { s with
      rdt := oldCur, call := .idle, returned := s.returned ++ [(maxLength, data)] } := by
  have follows := sound.follows
  rw [isCall] at follows
  obtain ⟨some, isData, isOld⟩ := follows
  have popped := pop_contents sound.rdh sound.tail some
  have fewer := congrArg List.length popped
  rw [contents_length, List.length_cons, contents_length] at fewer
  have cur := sound.rxCur
  rw [isCall, Call.current] at cur
  generalize isAfter : ({ s with
    rdt := oldCur, call := .idle, returned := s.returned ++ [(maxLength, data)] } : Nic) = after
  have isRing : ring after =
      { ring s with tail := ((ring s).tail + 1) % numRxDesc } := by
    rw [← isAfter, isOld]
    rfl
  have isTail : (ring after).tail = ((ring s).tail + 1) % numRxDesc := by rw [isRing]
  have isDescs : after.rxDescs = s.rxDescs := isAfter ▸ rfl
  have isIdle : after.call = .idle := isAfter ▸ rfl
  have few : (ring s).count numRxDesc < numRxDesc := count_lt sound.rdh
  rw [← isRing] at popped fewer
  refine ⟨isAfter ▸ sound.rdh, ?_, fun i below => ?_, ?_, isIdle ▸ trivial, ?_⟩
  · rw [← isAfter, isOld]
    exact sound.tail
  · have place : ((ring after).tail + i) % numRxDesc =
        ((ring s).tail + (i + 1)) % numRxDesc := by
      rw [isTail, Nat.mod_add_mod, Nat.add_assoc, Nat.add_comm 1 i]
    rw [place, isDescs, isIdle]
    by_cases last : i + 1 = numRxDesc
    · have around : ((ring s).tail + (i + 1)) % numRxDesc = ((ring s).tail + 0) % numRxDesc := by
        rw [last, Nat.add_mod_right, Nat.add_zero]
      have unmarked := sound.done 0 (by change 0 < 32; decide)
      rw [around, unmarked, isCall]
      constructor
      · exact fun marked => Bool.noConfusion (marked.2 rfl)
      · intro near
        omega
    · have unchanged := sound.done (i + 1) (by omega)
      rw [unchanged]
      constructor
      · intro marked
        exact ⟨by omega, fun _ => rfl⟩
      · intro near
        exact ⟨by omega, fun zero => absurd zero (Nat.succ_ne_zero i)⟩
  · rw [isIdle, isTail, ← isAfter]
    exact cur
  · obtain ⟨read, arrived, outs⟩ := sound.order
    refine ⟨read ++ [(ring s).slots (ring s).tail], ?_, ?_⟩
    · have isArrived : after.arrived = s.arrived := isAfter ▸ rfl
      rw [isArrived, arrived, pending, popped, List.append_assoc]
      rfl
    · have isReturned : after.returned = s.returned ++ [(maxLength, data)] := isAfter ▸ rfl
      rw [isReturned]
      exact List.rel_append outs (.cons isData .nil)

theorem Sound.receive (sound : Sound s) (maxLength : Nat) : Sound (receive s maxLength) := by
  rw [E1000.receive]
  cases isCall : s.call with
  | idle =>
      dsimp only
      have cur : s.rxCur = (ring s).tail := by
        have isCur := sound.rxCur
        rwa [isCall] at isCur
      have first := sound.done 0 (by change 0 < 32; decide)
      rw [Nat.add_zero, Nat.mod_eq_of_lt sound.tail, ← cur] at first
      by_cases marked : (s.rxDescs s.rxCur).done = true
      · rw [if_pos marked]
        have some : (ring s).head ≠ (ring s).tail := fun empty => by
          have none := (@empty_iff _ numRxDesc (ring s) sound.rdh sound.tail).mp empty
          have near := (first.mp marked).1
          omega
        have isLength : ((ring s).slots (ring s).tail).length = (s.rxDescs s.rxCur).length := by
          rw [cur]
          exact bytesAt_length _ _ _
        refine ⟨sound.rdh, sound.rdt, fun i below => ?_, cur, ⟨some, ?_⟩, sound.order⟩
        · have unchanged := sound.done i below
          rw [isCall] at unchanged
          exact unchanged
        · change _ = min maxLength ((ring s).slots (ring s).tail).length
          rw [isLength]
          split <;> omega
      · rw [if_neg marked]
        exact sound
  | copy => exact sound
  | clear => exact sound
  | advance => exact sound
  | release => exact sound

theorem Sound.resume (sound : Sound s) : Sound (resume s) := by
  have cur := sound.rxCur
  have follows := sound.follows
  rw [E1000.resume]
  cases isCall : s.call with
  | idle => exact sound
  | copy maxLength length =>
      rw [isCall] at cur follows
      obtain ⟨some, isLength⟩ := follows
      refine ⟨sound.rdh, sound.rdt, fun i below => ?_, cur, ⟨some, ?_⟩, sound.order⟩
      · have unchanged := sound.done i below
        rw [isCall] at unchanged
        exact unchanged
      · have isCur : s.rxCur = (ring s).tail := cur
        have isSlot : (ring s).slots (ring s).tail = bytesAt (s.rxBuffers s.rxCur) 0
            (s.rxDescs s.rxCur).length := by
          rw [isCur]
          rfl
        rw [isSlot, bytesAt_length] at isLength
        change _ = ((ring s).slots (ring s).tail).take maxLength
        rw [isSlot, bytesAt, bytesAt, ← List.map_take, List.take_range, isLength]
  | clear maxLength data =>
      rw [isCall] at cur follows
      have isCur : s.rxCur = (ring s).tail := cur
      have isRing : ring { s with
          rxDescs := Function.update s.rxDescs s.rxCur { s.rxDescs s.rxCur with done := false }
          call := .advance maxLength data } = ring s := by
        have lengths (i : Nat) : (Function.update s.rxDescs s.rxCur
            { s.rxDescs s.rxCur with done := false } i).length = (s.rxDescs i).length := by
          by_cases same : i = s.rxCur
          · subst same
            rw [Function.update_self]
          · rw [Function.update_of_ne same]
        simp only [ring, lengths]
      refine ⟨sound.rdh, sound.rdt, fun i below => ?_, ?_, ?_, ?_⟩
      · rw [isRing]
        have before := sound.done i below
        rw [isCall] at before
        by_cases first : i = 0
        · have here : ((ring s).tail + i) % numRxDesc = s.rxCur := by
            rw [first, Nat.add_zero, Nat.mod_eq_of_lt sound.tail, isCur]
          rw [here]
          simp only [Function.update_self]
          exact ⟨fun no => absurd no Bool.false_ne_true,
            fun few => Bool.noConfusion (few.2 first)⟩
        · have other : ((ring s).tail + i) % numRxDesc ≠ s.rxCur := by
            rw [isCur]
            intro same
            refine first (@slot_inj numRxDesc (ring s).tail i 0 below (by change 0 < 32; decide) ?_)
            rw [same, Nat.add_zero, Nat.mod_eq_of_lt sound.tail]
          simp only [Function.update_of_ne other]
          rw [before]
          exact and_congr_right fun _ => ⟨fun _ zero => absurd zero first, fun _ _ => rfl⟩
      · rw [isRing]
        exact isCur
      · rw [isRing]
        exact follows
      · obtain ⟨read, arrived, outs⟩ := sound.order
        refine ⟨read, ?_, outs⟩
        rw [pending, isRing]
        exact arrived
  | advance maxLength data =>
      rw [isCall] at cur follows
      have isCur : s.rxCur = (ring s).tail := cur
      refine ⟨sound.rdh, sound.rdt, fun i below => ?_, ?_, ⟨follows.1, follows.2, isCur⟩,
        sound.order⟩
      · have unchanged := sound.done i below
        rw [isCall] at unchanged
        exact unchanged
      · change (s.rxCur + 1) % numRxDesc = ((ring s).tail + 1) % numRxDesc
        rw [isCur]
  | release maxLength data oldCur => exact sound.release isCall

theorem sound_run (buffers : Nat → Buffer) (events : List Event) :
    Sound (events.foldl step (initRx buffers)) := by
  suffices all : ∀ s, Sound s → Sound (events.foldl step s) from all _ (initRx_sound buffers)
  induction events with
  | nil => exact fun s sound => sound
  | cons event rest ih =>
      intro s sound
      cases event with
      | arrive frame => exact ih _ (sound.arrive frame)
      | receive maxLength => exact ih _ (sound.receive maxLength)
      | resume => exact ih _ sound.resume

/-- Between calls, the descriptor that is read next is marked exactly if a frame waits. -/
theorem Sound.marked_iff (sound : Sound s) (idle : s.call = .idle) :
    (s.rxDescs s.rxCur).done = true ↔ pending s ≠ [] := by
  have isLength : (pending s).length = (ring s).count numRxDesc := contents_length _
  have cur : s.rxCur = (ring s).tail := by
    have isCur := sound.rxCur
    rwa [idle] at isCur
  have first := sound.done 0 (by change 0 < 32; decide)
  rw [Nat.add_zero, Nat.mod_eq_of_lt sound.tail, ← cur, idle] at first
  rw [first, ← List.length_pos_iff, isLength]
  exact ⟨fun both => both.1, fun some => ⟨some, fun _ => rfl⟩⟩

/-- However the card and the driver take turns: the calls of `e1000_receive` give the frames that
the card has stored, each once and in their order and cut to the length that was asked for; the
card finds no descriptor exactly if 31 frames are waiting; and a call finds a frame exactly if one
is waiting. -/
theorem frames_received (buffers : Nat → Buffer) (events : List Event) :
    let s := events.foldl step (initRx buffers)
    (∃ read : List (List UInt8), s.arrived = read ++ pending s ∧
      List.Forall₂ (fun out frame => out.2 = frame.take out.1) s.returned read) ∧
    (∀ frame, (arrive s frame).arrived =
      if (pending s).length < 31 then s.arrived ++ [frame] else s.arrived) ∧
    (s.call = .idle → ∀ maxLength, (receive s maxLength).call = .idle ↔ pending s = []) := by
  intro s
  have sound : Sound s := sound_run buffers events
  have isLength : (pending s).length = (ring s).count numRxDesc := contents_length _
  have room := @room_iff _ numRxDesc (ring s) sound.rdh sound.tail
  refine ⟨sound.order, fun frame => ?_, fun idle maxLength => ?_⟩
  · rw [isLength, arrive]
    by_cases full : s.rdh = s.rdt
    · have few : ¬(ring s).count numRxDesc < 31 := fun some =>
        sound.room.mpr (room.mpr (Nat.succ_lt_succ some)) full
      rw [if_pos full, if_neg few]
    · have few : (ring s).count numRxDesc < 31 :=
        Nat.lt_of_succ_lt_succ (room.mp (sound.room.mp full))
      rw [if_neg full, if_pos few]
  · rw [receive, idle]
    dsimp only
    by_cases marked : (s.rxDescs s.rxCur).done = true
    · rw [if_pos marked]
      have some := (sound.marked_iff idle).mp marked
      exact ⟨fun same => Call.noConfusion same, fun none => absurd none some⟩
    · rw [if_neg marked]
      have none := not_not.mp fun some => marked ((sound.marked_iff idle).mpr some)
      exact ⟨fun _ => none, fun _ => idle⟩

end ZurichOS.E1000
