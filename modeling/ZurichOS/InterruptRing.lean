import ZurichOS.RingBuffer
import ZurichOS.Transitions

/-!
A ring that an interrupt handler fills and a reader empties.  The reader copies an entry part by
part, and the handler can run between any two of its steps; one slot stays empty, so that equal
positions mean an empty ring.
-/

namespace InterruptRing

open RingBuffer

variable {α : Type}

structure RingState (α : Type) where
  slots : Nat → α
  head : Nat
  tail : Nat

/-- A part of an entry is copied by a function of what the copy has so far and the entry. -/
abbrev FieldCopy (α : Type) := α → α → α

def copyAll (parts : List (FieldCopy α)) (copy entry : α) : α :=
  parts.foldl (fun copy part => part copy entry) copy

inductive Reader (α : Type)
  | idle
  | copying (left : List (FieldCopy α)) (copy : α)

/-- The ring with its reader; all entries that have got in, and all that have been handed out. -/
structure Traffic (α : Type) where
  ring : RingState α
  reader : Reader α
  accepted : List α
  received : List α

variable (size : Nat) (parts : List (FieldCopy α)) (blank : α)

def push (ring : RingState α) (entry : α) : RingState α :=
  let next := (ring.head + 1) % size
  if next ≠ ring.tail then
    { ring with slots := Function.update ring.slots ring.head entry, head := next }
  else ring

def RingState.count (ring : RingState α) : Nat := (ring.head + size - ring.tail) % size

def RingState.contents (ring : RingState α) : List α :=
  elements ring.slots size ring.tail (ring.count size)

/-- The handler puts an entry into the ring. -/
def offer (t : Traffic α) (entry : α) : Traffic α :=
  { t with
    ring := push size t.ring entry
    accepted := t.accepted ++ if (t.ring.head + 1) % size ≠ t.ring.tail then [entry] else [] }

/-- The next step of the reader: it looks whether there is an entry, copies a part, or moves on. -/
def advance (t : Traffic α) : Traffic α :=
  match t.reader with
  | .idle => if t.ring.head = t.ring.tail then t else { t with reader := .copying parts blank }
  | .copying [] copy =>
      { t with
        ring := { t.ring with tail := (t.ring.tail + 1) % size }
        reader := .idle
        received := t.received ++ [copy] }
  | .copying (part :: left) copy =>
      { t with reader := .copying left (part copy (t.ring.slots t.ring.tail)) }

def Traffic.start (slots : Nat → α) : Traffic α where
  ring := { slots, head := 0, tail := 0 }
  reader := .idle
  accepted := []
  received := []

/-- What the reader has copied so far belongs to the entry that it will hand out. -/
def Reader.Follows (ring : RingState α) : Reader α → Prop
  | .idle => True
  | .copying left copy => ring.head ≠ ring.tail ∧
      copyAll left copy (ring.slots ring.tail) = ring.slots ring.tail

structure Sound (t : Traffic α) : Prop where
  head : t.ring.head < size
  tail : t.ring.tail < size
  reader : t.reader.Follows t.ring
  order : t.accepted = t.received ++ t.ring.contents size

section Lemmas

variable {size parts blank} {t : Traffic α} {ring : RingState α}

theorem count_lt (head : ring.head < size) : ring.count size < size :=
  Nat.mod_lt _ (Nat.zero_lt_of_lt head)

theorem count_cases (head : ring.head < size) (tail : ring.tail < size) :
    ring.tail ≤ ring.head ∧ ring.count size = ring.head - ring.tail ∨
      ring.head < ring.tail ∧ ring.count size = ring.head + size - ring.tail := by
  rw [RingState.count]
  by_cases ahead : ring.tail ≤ ring.head
  · refine .inl ⟨ahead, ?_⟩
    rw [Nat.sub_add_comm ahead, Nat.add_mod_right]
    exact Nat.mod_eq_of_lt (by omega)
  · exact .inr ⟨Nat.lt_of_not_le ahead, Nat.mod_eq_of_lt (by omega)⟩

theorem last_slot (head : ring.head < size) (tail : ring.tail < size) :
    (ring.tail + ring.count size) % size = ring.head := by
  rcases count_cases head tail with ⟨_, isCount⟩ | ⟨_, isCount⟩
  · rw [isCount, Nat.add_sub_cancel' (by omega), Nat.mod_eq_of_lt head]
  · rw [isCount, Nat.add_sub_cancel' (by omega), Nat.add_mod_right, Nat.mod_eq_of_lt head]

theorem room_iff (head : ring.head < size) (tail : ring.tail < size) :
    (ring.head + 1) % size ≠ ring.tail ↔ ring.count size + 1 < size := by
  have next : (ring.head + 1) % size = if ring.head + 1 = size then 0 else ring.head + 1 := by
    split
    · rename_i last
      rw [last, Nat.mod_self]
    · exact Nat.mod_eq_of_lt (by omega)
  rw [next]
  rcases count_cases head tail with ⟨_, isCount⟩ | ⟨_, isCount⟩
  · rw [isCount]
    split <;> omega
  · rw [isCount]
    split <;> omega

theorem empty_iff (head : ring.head < size) (tail : ring.tail < size) :
    ring.head = ring.tail ↔ ring.count size = 0 := by
  rcases count_cases head tail with ⟨_, isCount⟩ | ⟨_, isCount⟩
  · omega
  · omega

@[simp] theorem contents_length (ring : RingState α) :
    (ring.contents size).length = ring.count size := elements_length ..

theorem push_contents (head : ring.head < size) (tail : ring.tail < size)
    (room : (ring.head + 1) % size ≠ ring.tail) (entry : α) :
    (push size ring entry).contents size = ring.contents size ++ [entry] := by
  have free := (room_iff head tail).mp room
  have isLast := last_slot head tail
  have next : (ring.head + 1) % size < size := Nat.mod_lt _ (by omega)
  have pushed : push size ring entry =
      { ring with slots := Function.update ring.slots ring.head entry,
                  head := (ring.head + 1) % size } := if_pos room
  have grown : (push size ring entry).count size = ring.count size + 1 := by
    rw [pushed]
    generalize isAfter : ({ ring with slots := Function.update ring.slots ring.head entry,
                                      head := (ring.head + 1) % size } : RingState α) = after
    have afterHead : after.head < size := isAfter ▸ next
    have afterTail : after.tail < size := isAfter ▸ tail
    have isHead : after.head = (ring.head + 1) % size := isAfter ▸ rfl
    have isTail : after.tail = ring.tail := isAfter ▸ rfl
    have moved := last_slot afterHead afterTail
    rw [isHead, isTail] at moved
    have isNext : (ring.tail + (ring.count size + 1)) % size = (ring.head + 1) % size := by
      rw [← Nat.add_assoc, ← Nat.mod_add_mod, isLast]
    exact @slot_inj size ring.tail _ _ (count_lt afterHead) free (moved.trans isNext.symm)
  rw [RingState.contents, grown, pushed, RingState.contents, ← isLast]
  exact elements_push ring.slots ring.tail (Nat.lt_of_succ_lt free) entry

theorem pop_contents (head : ring.head < size) (tail : ring.tail < size)
    (some : ring.head ≠ ring.tail) :
    ring.contents size = ring.slots ring.tail ::
      ({ ring with tail := (ring.tail + 1) % size } : RingState α).contents size := by
  have positive : ring.count size ≠ 0 := fun none => some ((empty_iff head tail).mpr none)
  have below := count_lt head
  have within : (ring.tail + 1) % size < size := Nat.mod_lt _ (Nat.zero_lt_of_lt tail)
  generalize isRest : ({ ring with tail := (ring.tail + 1) % size } : RingState α) = rest
  have restHead : rest.head < size := isRest ▸ head
  have restTail : rest.tail < size := isRest ▸ within
  have moved := last_slot restHead restTail
  have same : (rest.tail + (ring.count size - 1)) % size = rest.head := by
    have isLast := last_slot head tail
    rw [← isRest, Nat.mod_add_mod, Nat.add_assoc, Nat.add_sub_cancel' (by omega), isLast]
  have fewer := slot_inj (count_lt restHead) (by omega) (moved.trans same.symm)
  have isCount : ring.count size = rest.count size + 1 := by omega
  rw [RingState.contents, RingState.contents, isCount, ← isRest]
  exact elements_pop ring.slots tail _

theorem push_tail (ring : RingState α) (entry : α) : (push size ring entry).tail = ring.tail := by
  rw [push]
  split <;> rfl

/-- The handler leaves the entry alone that the reader is at. -/
theorem push_slot (some : ring.head ≠ ring.tail) (entry : α) :
    (push size ring entry).slots ring.tail = ring.slots ring.tail := by
  rw [push]
  split
  · exact Function.update_of_ne some.symm ..
  · rfl

theorem Sound.start (slots : Nat → α) (some : 0 < size) : Sound size (Traffic.start slots) := by
  refine ⟨some, some, trivial, ?_⟩
  have none : (Traffic.start slots).ring.count size = 0 := by
    rw [RingState.count, Traffic.start, Nat.zero_add, Nat.sub_zero, Nat.mod_self]
  rw [RingState.contents, none]
  rfl

theorem Sound.offer (sound : Sound size t) (entry : α) : Sound size (offer size t entry) := by
  by_cases room : (t.ring.head + 1) % size ≠ t.ring.tail
  · have grows := push_contents sound.head sound.tail room entry
    have pushed : push size t.ring entry =
        { t.ring with slots := Function.update t.ring.slots t.ring.head entry,
                      head := (t.ring.head + 1) % size } := if_pos room
    refine ⟨?_, (push_tail t.ring entry).symm ▸ sound.tail, ?_, ?_⟩
    · change (push size t.ring entry).head < size
      rw [pushed]
      exact Nat.mod_lt _ (Nat.zero_lt_of_lt sound.head)
    · change t.reader.Follows (push size t.ring entry)
      have follows := sound.reader
      cases isReader : t.reader with
      | idle => trivial
      | copying left copy =>
          rw [isReader] at follows
          obtain ⟨some, copies⟩ := follows
          refine ⟨?_, ?_⟩
          · rw [pushed]
            exact room
          · rw [push_tail, push_slot some, copies]
    · change t.accepted ++ (if _ then _ else _) = t.received ++ (push size t.ring entry).contents size
      rw [if_pos room, grows, sound.order, List.append_assoc]
  · have same : push size t.ring entry = t.ring := if_neg room
    have kept : InterruptRing.offer size t entry = t := by
      rw [InterruptRing.offer, same, if_neg room, List.append_nil]
    rw [kept]
    exact sound

/-- What a reader that has copied all parts has does not depend on what the copy was before. -/
def Complete (parts : List (FieldCopy α)) : Prop := ∀ copy entry, copyAll parts copy entry = entry

theorem Sound.advance (sound : Sound size t) (complete : Complete parts) :
    Sound size (advance size parts blank t) := by
  have follows := sound.reader
  rw [InterruptRing.advance]
  cases isReader : t.reader with
  | idle =>
      dsimp only
      by_cases none : t.ring.head = t.ring.tail
      · rw [if_pos none]
        exact sound
      · rw [if_neg none]
        exact ⟨sound.head, sound.tail, ⟨none, complete _ _⟩, sound.order⟩
  | copying left copy =>
      rw [isReader] at follows
      obtain ⟨some, copies⟩ := follows
      cases left with
      | nil =>
          have isEntry : copy = t.ring.slots t.ring.tail := copies
          refine ⟨sound.head, Nat.mod_lt _ (Nat.zero_lt_of_lt sound.tail), trivial, ?_⟩
          have order := sound.order
          rw [pop_contents sound.head sound.tail some] at order
          rw [order, isEntry, List.append_assoc]
          rfl
      | cons part left => exact ⟨sound.head, sound.tail, ⟨some, copies⟩, sound.order⟩

/-- An entry is lost exactly when the ring has all but one of its slots in use. -/
theorem Sound.offer_accepted (sound : Sound size t) (entry : α) :
    (InterruptRing.offer size t entry).accepted =
      t.accepted ++ if (t.ring.contents size).length + 1 < size then [entry] else [] := by
  have room := room_iff sound.head sound.tail
  rw [contents_length, InterruptRing.offer]
  by_cases free : t.ring.count size + 1 < size
  · rw [if_pos free, if_pos (room.mpr free)]
  · rw [if_neg free, if_neg fun open' => free (room.mp open')]

/-- Of the entries of one interrupt those get in for which there are slots left. -/
theorem Sound.offers (sound : Sound size t) (entries : List α) :
    Sound size (entries.foldl (InterruptRing.offer size) t) ∧
      (entries.foldl (InterruptRing.offer size) t).reader = t.reader ∧
      (entries.foldl (InterruptRing.offer size) t).received = t.received ∧
      (entries.foldl (InterruptRing.offer size) t).accepted =
        t.accepted ++ entries.take (size - 1 - (t.ring.contents size).length) := by
  induction entries generalizing t with
  | nil =>
      refine ⟨sound, rfl, rfl, ?_⟩
      rw [List.take_nil, List.append_nil]
      rfl
  | cons entry rest ih =>
      have one := sound.offer entry
      obtain ⟨all, reader, received, accepted⟩ := ih one
      refine ⟨all, reader, received, accepted.trans ?_⟩
      have first := sound.offer_accepted entry
      have received : (InterruptRing.offer size t entry).received = t.received := rfl
      have order := one.order
      rw [first, received, sound.order, List.append_assoc] at order
      have isNow := List.append_cancel_left order
      have below := count_lt sound.head
      rw [first, ← isNow]
      by_cases free : (t.ring.contents size).length + 1 < size
      · rw [if_pos free, List.length_append, List.length_singleton, List.append_assoc]
        have left : size - 1 - (t.ring.contents size).length =
            size - 1 - ((t.ring.contents size).length + 1) + 1 := by omega
        rw [left, List.take_succ_cons]
        rfl
      · rw [if_neg free, List.append_nil]
        rw [List.append_nil, show size - 1 - (t.ring.contents size).length = 0 by omega,
          List.take_zero, List.take_zero]

section Device

variable {State Input : Type}

/-- A device whose handler turns what comes in into entries of the ring. -/
structure Device (State α : Type) where
  state : State
  traffic : Traffic α

inductive Step (Input : Type)
  | interrupt (input : Input)
  | read

variable (size parts blank) (react : State → Input → State × List α)

def Device.step (d : Device State α) : Step Input → Device State α
  | .interrupt input =>
      { state := (react d.state input).1
        traffic := (react d.state input).2.foldl (offer size) d.traffic }
  | .read => { d with traffic := advance size parts blank d.traffic }

/-- The state and the entries that the inputs of a run lead to. -/
def outputs (state : State) : List (Step Input) → State × List α
  | [] => (state, [])
  | .read :: rest => outputs state rest
  | .interrupt input :: rest =>
      let first := react state input
      let later := outputs first.1 rest
      (later.1, first.2 ++ later.2)

/-- All entries of an interrupt find a slot. -/
def HasRoom (d : Device State α) : Step Input → Prop
  | .interrupt input =>
      (d.traffic.ring.contents size).length + (react d.state input).2.length < size
  | .read => True

variable {size parts blank react} {d : Device State α}

theorem Sound.step (sound : Sound size d.traffic) (complete : Complete parts)
    (event : Step Input) : Sound size (d.step size parts blank react event).traffic := by
  cases event with
  | interrupt input => exact (sound.offers _).1
  | read => exact sound.advance complete

theorem Sound.run (sound : Sound size d.traffic) (complete : Complete parts)
    (steps : List (Step Input)) :
    Sound size (steps.foldl (Device.step size parts blank react) d).traffic := by
  induction steps generalizing d with
  | nil => exact sound
  | cons event rest ih => exact ih (sound.step complete event)

theorem advance_accepted (t : Traffic α) :
    (advance size parts blank t).accepted = t.accepted := by
  rw [advance]
  cases t.reader with
  | idle =>
      dsimp only
      split <;> rfl
  | copying left copy => cases left <;> rfl

/-- The state is that after all inputs, whenever the reader ran; and what has got into the ring is
what the inputs lead to, without the entries that found it full. -/
theorem Sound.outputs (sound : Sound size d.traffic) (complete : Complete parts)
    (steps : List (Step Input)) :
    let after := steps.foldl (Device.step size parts blank react) d
    after.state = (InterruptRing.outputs react d.state steps).1 ∧
      (∃ got : List α, got.Sublist (InterruptRing.outputs react d.state steps).2 ∧
        after.traffic.accepted = d.traffic.accepted ++ got) ∧
      (Transitions.Along (Device.step size parts blank react) (HasRoom size react) d steps →
        after.traffic.accepted =
          d.traffic.accepted ++ (InterruptRing.outputs react d.state steps).2) := by
  induction steps generalizing d with
  | nil => exact ⟨rfl, ⟨[], List.Sublist.slnil, (List.append_nil _).symm⟩,
      fun _ => (List.append_nil _).symm⟩
  | cons event rest ih =>
      obtain ⟨state, ⟨got, within, accepted⟩, all⟩ :=
        ih (@Sound.step _ size parts blank _ _ react d sound complete event)
      cases event with
      | read =>
          have same : (d.step size parts blank react (.read : Step Input)).traffic.accepted =
              d.traffic.accepted := advance_accepted d.traffic
          rw [same] at accepted all
          exact ⟨state, ⟨got, within, accepted⟩, fun room => all room.2⟩
      | interrupt input =>
          obtain ⟨_, _, _, one⟩ := sound.offers (react d.state input).2
          have first : (d.step size parts blank react (.interrupt input)).traffic.accepted = _ := one
          rw [first, List.append_assoc] at accepted all
          refine ⟨state, ⟨_, (List.take_sublist _ _).append within, accepted⟩, fun room => ?_⟩
          have fits : (d.traffic.ring.contents size).length +
              (react d.state input).2.length < size := room.1
          refine (all room.2).trans ?_
          rw [List.take_of_length_le (by omega)]
          rfl

end Device

end Lemmas

end InterruptRing
