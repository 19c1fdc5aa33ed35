import ZurichOS.Ramfs

/-!
The positions of a file's buffer that `ramfs_read` and `ramfs_write` copy from and to.  The sum
of an offset and a size is a word, and a copy starts at the offset whatever the sum is.
-/

namespace ZurichOS

open ByteBuffer Words

/-- The positions of a `memcpy` at an offset of the buffer. -/
def copied (offset count : Nat) : List Nat := (List.range count).map fun i => u32 (offset + i)

def ramfsReadAccesses (node : RamfsNode) (offset size : Nat) : List Nat :=
  if node.isDirectory then []
  else if node.length ≤ offset then []
  else
    let bytesToRead := if node.length < u32 (offset + size) then node.length - offset else size
    match node.data with
    | none => []
    | some _ => copied offset bytesToRead

/-- With the larger buffer, which is cleared as a whole. -/
def ramfsWriteAccesses (memory : Nat → Bool) (node : RamfsNode) (offset : Nat)
    (bytes : List UInt8) : List Nat :=
  if node.isDirectory then []
  else
    let endPos := u32 (offset + bytes.length)
    if ramfsMaxFileSize < endPos then []
    else if node.capacity < endPos then
      if memory 0 then List.range (ramfsGrow node endPos).capacity ++ copied offset bytes.length
      else []
    else copied offset bytes.length

def RamfsCall.accesses (s : RamfsState) : RamfsCall → List Nat
  | .read offset size => ramfsReadAccesses s.node offset size
  | .write offset bytes => ramfsWriteAccesses s.memory s.node offset bytes

/-- The arguments of a call are words. -/
def RamfsCall.Words : RamfsCall → Prop
  | .read offset size => offset < 4294967296 ∧ size < 4294967296
  | .write offset bytes => offset < 4294967296 ∧ bytes.length < 4294967296

/-- The end of the copy is a word, or the call does not come to a copy at the offset. -/
def RamfsCall.Inside (s : RamfsState) : RamfsCall → Prop
  | .read offset size => offset + size < 4294967296 ∨ s.node.length ≤ offset ∨
      s.node.length < u32 (offset + size)
  | .write offset bytes => offset + bytes.length < 4294967296 ∨
      ¬ ramfsAccepts s.memory s.node (u32 (offset + bytes.length))

/-- What becomes of a new file; `vfs_append` is a write at the length of the file.  Behind a copy
outside the buffer there is no telling what the memory holds. -/
inductive RamfsReached : RamfsState → Prop where
  | new (name : List UInt8) (inode : Nat) (memory : Nat → Bool) :
      RamfsReached ⟨ramfsAllocNode name vfsFile inode, memory⟩
  | call {s : RamfsState} (reached : RamfsReached s) (call : RamfsCall) (words : call.Words)
      (inside : call.Inside s) : RamfsReached (ramfsStep s call).2.2
  | truncate {s : RamfsState} (reached : RamfsReached s) :
      RamfsReached { s with node := { s.node with length := 0 } }

structure RamfsFits (node : RamfsNode) : Prop where
  file : node.isDirectory = false
  length : node.length ≤ node.capacity
  capacity : node.capacity ≤ ramfsMaxFileSize
  data : node.data = none → node.capacity = 0

variable {node : RamfsNode} {memory : Nat → Bool} {s : RamfsState} {bytes : List UInt8}
  {offset size count endPos bound : Nat}

theorem mem_copied {position : Nat} :
    position ∈ copied offset count ↔ ∃ i < count, u32 (offset + i) = position := by
  simp [copied]

theorem copied_below (small : offset + count ≤ bound) (word : bound < 4294967296) :
    ∀ position ∈ copied offset count, position < bound := by
  intro position member
  obtain ⟨i, inside, rfl⟩ := mem_copied.mp member
  rw [u32_eq_of_lt (by omega)]
  omega

/-- A copy whose end is not a word comes to the last address before it starts again. -/
theorem copied_last (word : offset < 4294967296) (wraps : 4294967296 ≤ offset + count) :
    4294967295 ∈ copied offset count :=
  mem_copied.mpr ⟨4294967295 - offset, by omega, by rw [u32_eq_of_lt] <;> omega⟩

theorem ramfsGrow_capacity (node : RamfsNode) (fits : endPos ≤ ramfsMaxFileSize) :
    endPos ≤ (ramfsGrow node endPos).capacity ∧
      (ramfsGrow node endPos).capacity ≤ ramfsMaxFileSize := by
  have small : endPos ≤ 65536 := fits
  simp only [ramfsGrow, u32_eq_of_lt (show endPos + 1024 < 4294967296 by omega)]
  split
  next => exact ⟨fits, Nat.le_refl _⟩
  next below => exact ⟨by omega, Nat.le_of_not_lt below⟩

theorem ramfsGrow_fits (fits : RamfsFits node) (more : node.capacity < endPos)
    (small : endPos ≤ ramfsMaxFileSize) : RamfsFits (ramfsGrow node endPos) := by
  obtain ⟨room, limit⟩ := ramfsGrow_capacity node small
  refine ⟨fits.file, (fits.length.trans more.le).trans room, limit, fun none => ?_⟩
  cases none

theorem ramfsPut_capacity : (ramfsPut node offset endPos bytes).capacity = node.capacity := rfl

theorem ramfsPut_fits (fits : RamfsFits node) (room : endPos ≤ node.capacity) :
    RamfsFits (ramfsPut node offset endPos bytes) := by
  refine ⟨fits.file, ?_, fits.capacity, fun none => fits.data (Option.map_eq_none_iff.mp none)⟩
  change (if node.length < endPos then endPos else node.length) ≤ node.capacity
  split
  · exact room
  · exact fits.length

/-- A write is refused and leaves the file, or fits it into the buffer, which is as large as the
end of the copy comes out. -/
theorem ramfsWrite_cases (memory : Nat → Bool) (offset : Nat) (bytes : List UInt8)
    (fits : RamfsFits node) :
    (¬ ramfsAccepts memory node (u32 (offset + bytes.length)) ∧
        (ramfsWrite memory node offset (some bytes)).2.1 = node ∧
        ramfsWriteAccesses memory node offset bytes = []) ∨
      (ramfsAccepts memory node (u32 (offset + bytes.length)) ∧
        ∃ after, (ramfsWrite memory node offset (some bytes)).2.1 = after ∧ RamfsFits after ∧
          u32 (offset + bytes.length) ≤ after.capacity ∧
          ∀ position, position ∈ ramfsWriteAccesses memory node offset bytes →
            position ∈ copied offset bytes.length ∨ position < after.capacity) ∧
        ∀ position ∈ copied offset bytes.length,
          position ∈ ramfsWriteAccesses memory node offset bytes := by
  simp only [ramfsWrite, ramfsWriteAccesses, fits.file, Bool.false_eq_true, if_false, ramfsAccepts]
  by_cases large : ramfsMaxFileSize < u32 (offset + bytes.length)
  · left
    rw [if_pos large, if_pos large]
    exact ⟨fun accepts => Nat.not_lt.mpr accepts.1 large, rfl, rfl⟩
  · have small := Nat.le_of_not_lt large
    rw [if_neg large, if_neg large]
    by_cases more : node.capacity < u32 (offset + bytes.length)
    · rw [if_pos more, if_pos more]
      cases available : memory 0 with
      | false =>
          left
          refine ⟨fun accepts => ?_, rfl, rfl⟩
          rcases accepts.2 with room | given
          · omega
          · cases given
      | true =>
          right
          have room := (ramfsGrow_capacity node small).1
          have grown := ramfsGrow_fits fits more small
          rw [if_pos rfl, if_pos rfl]
          refine ⟨⟨⟨small, .inr rfl⟩, _, rfl, ramfsPut_fits grown room, ?_,
            fun position member => ?_⟩, fun position member => List.mem_append_right _ member⟩
          all_goals rw [ramfsPut_capacity]
          · exact room
          rcases List.mem_append.mp member with cleared | inCopy
          · exact .inr (List.mem_range.mp cleared)
          · exact .inl inCopy
    · right
      have room := Nat.le_of_not_lt more
      rw [if_neg more, if_neg more]
      exact ⟨⟨⟨small, .inl room⟩, _, rfl, ramfsPut_fits fits room, room,
        fun position member => .inl member⟩, fun position member => member⟩

theorem RamfsCall.step_node (call : RamfsCall) : (ramfsStep s call).2.2.node =
    match call with
    | .read _ _ => s.node
    | .write offset bytes => (ramfsWrite s.memory s.node offset (some bytes)).2.1 := by
  cases call <;> rfl

theorem step_fits (fits : RamfsFits s.node) (call : RamfsCall) :
    RamfsFits (ramfsStep s call).2.2.node := by
  rw [call.step_node]
  cases call with
  | read offset size => exact fits
  | write offset bytes =>
      rcases ramfsWrite_cases s.memory offset bytes fits with
        ⟨-, same, -⟩ | ⟨⟨-, after, isAfter, afterFits, -⟩, -⟩
      · change RamfsFits (ramfsWrite s.memory s.node offset (some bytes)).2.1
        rw [same]
        exact fits
      · change RamfsFits (ramfsWrite s.memory s.node offset (some bytes)).2.1
        rw [isAfter]
        exact afterFits

theorem RamfsReached.fits (reached : RamfsReached s) : RamfsFits s.node := by
  induction reached with
  | new name inode memory =>
      refine ⟨?_, Nat.le_refl _, Nat.zero_le _, fun _ => rfl⟩
      simp [ramfsAllocNode, VfsNode.isDirectory]
  | call _ call _ _ ih => exact step_fits ih call
  | truncate _ ih => exact ⟨ih.file, Nat.zero_le _, ih.capacity, ih.data⟩

theorem read_inside_iff (fits : RamfsFits node) (word : offset < 4294967296) :
    (∀ position ∈ ramfsReadAccesses node offset size, position < node.capacity) ↔
      offset + size < 4294967296 ∨ node.length ≤ offset ∨ node.length < u32 (offset + size) := by
  have short := fits.length
  have limit : node.capacity ≤ 65536 := fits.capacity
  rw [ramfsReadAccesses, fits.file, if_neg (by decide)]
  by_cases past : node.length ≤ offset
  · rw [if_pos past]
    simp [past]
  · obtain ⟨data, isData⟩ : ∃ data, node.data = some data := by
      refine Option.ne_none_iff_exists'.mp fun none => ?_
      have empty := fits.data none
      omega
    rw [if_neg past, isData]
    by_cases cut : node.length < u32 (offset + size)
    · rw [if_pos cut]
      refine iff_of_true (fun position member => ?_) (.inr (.inr cut))
      have below : position < node.length := copied_below (by omega) (by omega) position member
      omega
    · rw [if_neg cut]
      simp only [past, cut, or_false]
      constructor
      · intro inside
        by_contra wraps
        have last := inside _ (copied_last word (by omega))
        omega
      · intro small
        rw [u32_eq_of_lt small] at cut
        exact copied_below (by omega) (by omega)

theorem write_inside_iff (fits : RamfsFits node) (word : offset < 4294967296) :
    (∀ position ∈ ramfsWriteAccesses memory node offset bytes,
        position < (ramfsWrite memory node offset (some bytes)).2.1.capacity) ↔
      offset + bytes.length < 4294967296 ∨
        ¬ ramfsAccepts memory node (u32 (offset + bytes.length)) := by
  rcases ramfsWrite_cases memory offset bytes fits with
    ⟨refused, -, none⟩ | ⟨⟨accepts, after, isAfter, afterFits, room, only⟩, all⟩
  · rw [none]
    exact iff_of_true (fun position member => by cases member) (.inr refused)
  · have limit : after.capacity ≤ 65536 := afterFits.capacity
    rw [isAfter, or_iff_left (not_not_intro accepts)]
    constructor
    · intro inside
      by_contra wraps
      have last := inside _ (all _ (copied_last word (by omega)))
      omega
    · intro small position member
      rw [u32_eq_of_lt small] at room
      rcases only position member with inCopy | below
      · exact copied_below room (by omega) position inCopy
      · exact below

/-- A file is never longer than its buffer, and a call on it copies inside the buffer exactly if
the sum of its offset and its size does not wrap around to one that is let through. -/
theorem ramfs_inside_iff (reached : RamfsReached s) :
    s.node.length ≤ s.node.capacity ∧
    ∀ call : RamfsCall, call.Words →
      ((∀ position ∈ call.accesses s, position < (ramfsStep s call).2.2.node.capacity) ↔
        call.Inside s) := by
  refine ⟨reached.fits.length, fun call words => ?_⟩
  rw [call.step_node]
  cases call with
  | read offset size => exact read_inside_iff reached.fits words.1
  | write offset bytes => exact write_inside_iff reached.fits words.1

theorem ramfs_inside_iff_new :
    (ramfsAllocNode [0x66] vfsFile 1).length ≤ (ramfsAllocNode [0x66] vfsFile 1).capacity ∧
    ((∀ position ∈ (RamfsCall.write 2 [7]).accesses
        ⟨ramfsAllocNode [0x66] vfsFile 1, fun _ => true⟩,
      position < (ramfsStep ⟨ramfsAllocNode [0x66] vfsFile 1, fun _ => true⟩
        (.write 2 [7])).2.2.node.capacity) ↔
      (RamfsCall.write 2 [7]).Inside ⟨ramfsAllocNode [0x66] vfsFile 1, fun _ => true⟩) := by
  obtain ⟨length, inside⟩ := ramfs_inside_iff (.new [0x66] 1 fun _ => true)
  exact ⟨length, inside (.write 2 [7]) ⟨by decide, by decide⟩⟩

/-- A write of one byte at the last offset of all is let through, as one that ends at 0. -/
theorem ramfs_write_outside :
    ¬ ∀ s, RamfsReached s → ∀ call : RamfsCall, call.Words →
      ∀ position ∈ call.accesses s, position < (ramfsStep s call).2.2.node.capacity := by
  intro inside
  have last := inside _ (.new [0x66] 1 fun _ => true) (.write 4294967295 [7])
    ⟨by decide, by decide⟩ 4294967295 (by decide)
  revert last
  decide

end ZurichOS
