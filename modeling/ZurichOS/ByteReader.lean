import Mathlib.Data.List.Range

/-!
Programs that read bytes of a packet and keep account of the positions they read.
A packet is the memory from its first byte on, so a read past the end has a value too.
-/

namespace ByteReader

abbrev Bytes := Nat → UInt8

structure Reader (α : Type) where
  value : Bytes → α
  reads : Bytes → List Nat

instance : Monad Reader where
  pure result := ⟨fun _ => result, fun _ => []⟩
  bind reader next :=
    { value packet := (next (reader.value packet)).value packet
      reads packet := reader.reads packet ++ (next (reader.value packet)).reads packet }

def byte (position : Nat) : Reader Nat :=
  ⟨fun packet => (packet position).toNat, fun _ => [position]⟩

def bytes (start count : Nat) : Reader (List Nat) :=
  ⟨fun packet => (List.range count).map fun i => (packet (start + i)).toNat,
    fun _ => (List.range count).map (start + ·)⟩

/-- A word in network order. -/
def word16 (position : Nat) : Reader Nat := do
  let high ← byte position
  let low ← byte (position + 1)
  return 256 * high + low

def word32 (position : Nat) : Reader Nat := do
  let high ← word16 position
  let low ← word16 (position + 2)
  return 65536 * high + low

/-- The bytes of a word in network order. -/
def be16 (value : Nat) : List UInt8 := [.ofNat (value / 256), .ofNat value]

def be32 (value : Nat) : List UInt8 := be16 (value / 65536) ++ be16 value

/-- A packet of some bytes and nothing after them. -/
def ofList (bytes : List UInt8) : Bytes := fun i => bytes.getD i 0

/-- The reader given the packet from `base` on. -/
def Reader.shift {α : Type} (reader : Reader α) (base : Nat) : Reader α :=
  { value packet := reader.value fun i => packet (base + i)
    reads packet := (reader.reads fun i => packet (base + i)).map (base + ·) }

def Reader.Within {α : Type} (reader : Reader α) (packet : Bytes) (limit : Nat) : Prop :=
  ∀ position ∈ reader.reads packet, position < limit

section Lemmas

variable {α β : Type} (packet : Bytes) (limit : Nat)

@[simp] theorem value_pure (result : α) : (pure result : Reader α).value packet = result := rfl

@[simp] theorem value_bind (reader : Reader α) (next : α → Reader β) :
    (reader >>= next).value packet = (next (reader.value packet)).value packet := rfl

/-- For a step whose rest is long: the two sides are compared as programs, not as values. -/
theorem value_bind_of (reader : Reader α) (next : α → Reader β) {after : Reader β}
    (same : next (reader.value packet) = after) :
    (reader >>= next).value packet = after.value packet := by
  rw [value_bind, same]

@[simp] theorem value_byte (position : Nat) :
    (byte position).value packet = (packet position).toNat := by
  rw [byte]

theorem value_word16 (position : Nat) : (word16 position).value packet =
    256 * (packet position).toNat + (packet (position + 1)).toNat := rfl

@[simp] theorem within_pure (result : α) : (pure result : Reader α).Within packet limit := by
  intro position member
  cases member

@[simp] theorem within_bind (reader : Reader α) (next : α → Reader β) :
    (reader >>= next).Within packet limit ↔
      reader.Within packet limit ∧ (next (reader.value packet)).Within packet limit := by
  simp only [Reader.Within, bind, List.mem_append, or_imp, forall_and]

@[simp] theorem within_byte (position : Nat) :
    (byte position).Within packet limit ↔ position < limit := by
  simp [Reader.Within, byte]

theorem within_bytes (start count : Nat) :
    (bytes start count).Within packet limit ↔ count = 0 ∨ start + count ≤ limit := by
  simp only [Reader.Within, bytes, List.mem_map, List.mem_range, forall_exists_index, and_imp,
    forall_apply_eq_imp_iff₂]
  constructor
  · intro inside
    by_cases empty : count = 0
    · exact Or.inl empty
    · have last := inside (count - 1) (by omega)
      exact Or.inr (by omega)
  · intro fits i bound
    omega

@[simp] theorem within_word16 (position : Nat) :
    (word16 position).Within packet limit ↔ position + 1 < limit := by
  simp only [word16, within_bind, within_byte, within_pure, and_true]
  omega

@[simp] theorem within_word32 (position : Nat) :
    (word32 position).Within packet limit ↔ position + 3 < limit := by
  simp only [word32, within_bind, within_word16, within_pure, and_true]
  omega

theorem within_shift (reader : Reader α) (base : Nat) :
    (reader.shift base).Within packet limit ↔
      reader.Within (fun i => packet (base + i)) (limit - base) := by
  simp only [Reader.Within, Reader.shift, List.mem_map, forall_exists_index, and_imp,
    forall_apply_eq_imp_iff₂]
  refine forall₂_congr fun position member => ?_
  omega

theorem within_ite (condition : Prop) [Decidable condition] (first second : Reader α) :
    (if condition then first else second).Within packet limit ↔
      if condition then first.Within packet limit else second.Within packet limit := by
  split <;> rfl

end Lemmas

end ByteReader
