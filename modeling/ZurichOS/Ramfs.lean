import ZurichOS.RamfsCore
import ZurichOS.FileContents

/-!
A ramfs file is a list of bytes.  Its buffer is larger than the file, and what lies behind
the file is zero.
-/

namespace ZurichOS

open ByteBuffer Words FileContents

variable {node : RamfsNode} {memory : Nat → Bool}

def RamfsNode.store (node : RamfsNode) : Buffer := node.data.getD fun _ => 0

def RamfsNode.contents (node : RamfsNode) : List UInt8 := image node.store node.length

structure RamfsSound (node : RamfsNode) : Prop where
  file : node.isDirectory = false
  length : node.length ≤ node.capacity
  capacity : node.capacity ≤ ramfsMaxFileSize
  data : node.data = none → node.capacity = 0
  tail : ∀ i, node.length ≤ i → i < node.capacity → node.store i = 0

theorem alloc_sound (name : List UInt8) (inode : Nat) :
    RamfsSound (ramfsAllocNode name vfsFile inode) ∧
      (ramfsAllocNode name vfsFile inode).contents = [] := by
  refine ⟨⟨?_, Nat.le_refl _, Nat.zero_le _, fun _ => rfl, fun _ _ _ => rfl⟩, rfl⟩
  simp [ramfsAllocNode, VfsNode.isDirectory]

section Operations

variable {offset size : Nat} {bytes : List UInt8}

theorem ramfsRead_slice (sound : RamfsSound node) (small : offset + size < 4294967296) :
    ramfsRead node offset size true =
      (((readAt node.contents offset size).length : Int), readAt node.contents offset size) := by
  have slice : readAt node.contents offset size =
      bytesAt node.store offset (min size (node.length - offset)) := readAt_image size
  have bounded : node.length ≤ 65536 := sound.length.trans sound.capacity
  rw [slice, bytesAt_length, ramfsRead, sound.file]
  simp only [Bool.not_true, Bool.or_self, Bool.false_eq_true, if_false]
  by_cases beyond : node.length ≤ offset
  · rw [if_pos beyond, Nat.sub_eq_zero_of_le beyond, Nat.min_zero]
    rfl
  · rw [if_neg beyond, u32_eq_of_lt small]
    have cut : (if node.length < offset + size then node.length - offset else size) =
        min size (node.length - offset) := by
      split <;> omega
    rw [cut, int32_eq_of_lt (by omega)]
    cases isData : node.data with
    | none =>
        have empty := sound.data isData
        have short := sound.length
        omega
    | some data =>
        have isStore : node.store = data := by rw [RamfsNode.store, isData, Option.getD_some]
        rw [isStore]

theorem ramfsGrow_sound (sound : RamfsSound node) {endPos : Nat} (more : node.capacity < endPos)
    (fits : endPos ≤ ramfsMaxFileSize) :
    RamfsSound (ramfsGrow node endPos) ∧ endPos ≤ (ramfsGrow node endPos).capacity ∧
      (ramfsGrow node endPos).length = node.length ∧
      ∀ i < node.capacity, (ramfsGrow node endPos).store i = node.store i := by
  have fits : endPos ≤ 65536 := fits
  have slack : (ramfsGrow node endPos).capacity = min 65536 (endPos + 1024) := by
    simp only [ramfsGrow, u32_eq_of_lt (show endPos + 1024 < 4294967296 by omega)]
    split
    · rename_i large
      change 65536 < endPos + 1024 at large
      change 65536 = min 65536 (endPos + 1024)
      omega
    · rename_i small
      change ¬ 65536 < endPos + 1024 at small
      omega
  have bytes : ∀ i, (ramfsGrow node endPos).store i =
      if i < node.capacity then node.store i else 0 := by
    intro i
    simp only [ramfsGrow, RamfsNode.store, Option.getD_some]
    cases isData : node.data with
    | none =>
        simp
    | some data =>
        have size := bytesAt_length data 0 node.capacity
        dsimp only
        by_cases inside : i < node.capacity
        · rw [if_pos inside, putBytes_inside _ (Nat.zero_le _) (by omega),
            bytesAt_getD _ (by omega), Nat.zero_add, Nat.sub_zero, Option.getD_some]
        · rw [if_neg inside, putBytes_outside _ (by omega)]
  have short := sound.length
  refine ⟨⟨sound.file, ?_, ?_, ?_, ?_⟩, by omega, rfl, fun i inside => ?_⟩
  · change node.length ≤ (ramfsGrow node endPos).capacity
    omega
  · change (ramfsGrow node endPos).capacity ≤ 65536
    omega
  · intro none
    cases none
  · intro i lower _
    change node.length ≤ i at lower
    rw [bytes]
    split
    · rename_i inside
      exact sound.tail i lower inside
    · rfl
  · rw [bytes, if_pos inside]

theorem ramfsPut_writes (sound : RamfsSound node)
    (room : offset + bytes.length ≤ node.capacity) :
    let after := ramfsPut node offset (offset + bytes.length) bytes
    RamfsSound after ∧ after.length = max node.length (offset + bytes.length) ∧
      after.contents = writeAt node.contents offset bytes := by
  intro after
  have short := sound.length
  have isLength : after.length = max node.length (offset + bytes.length) := by
    change (if node.length < offset + bytes.length then offset + bytes.length else node.length) = _
    split <;> omega
  have isStore : ∀ i < node.capacity, after.store i =
      if offset ≤ i ∧ i < offset + bytes.length then bytes.getD (i - offset) 0
      else node.store i := by
    intro i inside
    change ((node.data.map fun data => putBytes data offset bytes).getD fun _ => 0) i = _
    cases isData : node.data with
    | none =>
        have empty := sound.data isData
        omega
    | some data =>
        rw [RamfsNode.store, isData]
        rfl
  refine ⟨⟨sound.file, ?_, sound.capacity, ?_, ?_⟩, isLength, ?_⟩
  · rw [isLength]
    exact Nat.max_le.mpr ⟨short, room⟩
  · intro none
    exact sound.data (Option.map_eq_none_iff.mp none)
  · intro i lower upper
    rw [isStore i upper, if_neg (by omega)]
    exact sound.tail i (by omega) upper
  · apply ext_getD
    · simp only [RamfsNode.contents, length_image, length_writeAt, isLength]
    · intro position bound
      rw [length_writeAt, RamfsNode.contents, length_image] at bound
      rw [RamfsNode.contents, isLength, getD_image bound, isStore position (by omega),
        getD_writeAt]
      by_cases written : offset ≤ position ∧ position < offset + bytes.length
      · rw [if_pos written, if_pos written]
      · rw [if_neg written, if_neg written]
        by_cases old : position < node.length
        · exact (getD_image old).symm
        · rw [sound.tail position (by omega) (by omega), List.getD_eq_default]
          rw [RamfsNode.contents, length_image]
          omega

theorem contents_congr {other : RamfsNode} (sameLength : other.length = node.length)
    (same : ∀ i < node.length, other.store i = node.store i) : other.contents = node.contents := by
  rw [RamfsNode.contents, RamfsNode.contents, sameLength]
  apply List.map_congr_left
  intro i member
  exact same i (List.mem_range.mp member)

/-- The file can hold the bytes, and has or gets the memory for them. -/
def ramfsAccepts (memory : Nat → Bool) (node : RamfsNode) (endPos : Nat) : Prop :=
  endPos ≤ ramfsMaxFileSize ∧ (endPos ≤ node.capacity ∨ memory 0 = true)

theorem ramfsWrite_accepted (sound : RamfsSound node)
    (small : offset + bytes.length < 4294967296)
    (accepts : ramfsAccepts memory node (offset + bytes.length)) :
    ∃ after later, ramfsWrite memory node offset (some bytes) =
        ((bytes.length : Int), after, later) ∧ RamfsSound after ∧
      after.length = max node.length (offset + bytes.length) ∧
      after.contents = writeAt node.contents offset bytes := by
  have fits : offset + bytes.length ≤ 65536 := accepts.1
  rw [ramfsWrite, sound.file, u32_eq_of_lt small, int32_eq_of_lt (by omega)]
  simp only [Bool.false_eq_true, if_false]
  rw [if_neg (Nat.not_lt.mpr accepts.1)]
  by_cases more : node.capacity < offset + bytes.length
  · have available : memory 0 = true := by
      rcases accepts.2 with room | available
      · omega
      · exact available
    rw [if_pos more, if_pos available]
    obtain ⟨grown, room, sameLength, same⟩ := ramfsGrow_sound sound more accepts.1
    obtain ⟨kept, length, contents⟩ := ramfsPut_writes grown room
    refine ⟨_, _, rfl, kept, ?_, ?_⟩
    · rw [length, sameLength]
    · have short := sound.length
      rw [contents, contents_congr sameLength fun i inside => same i (by omega)]
  · rw [if_neg more]
    obtain ⟨kept, length, contents⟩ := ramfsPut_writes sound (Nat.le_of_not_lt more)
    exact ⟨_, _, rfl, kept, length, contents⟩

theorem ramfsWrite_refused (sound : RamfsSound node) (small : offset + bytes.length < 4294967296)
    (refuses : ¬ ramfsAccepts memory node (offset + bytes.length)) :
    ∃ later, ramfsWrite memory node offset (some bytes) = (-1, node, later) := by
  rw [ramfsWrite, sound.file, u32_eq_of_lt small]
  simp only [Bool.false_eq_true, if_false]
  by_cases large : ramfsMaxFileSize < offset + bytes.length
  · rw [if_pos large]
    exact ⟨_, rfl⟩
  · rw [if_neg large]
    by_cases more : node.capacity < offset + bytes.length
    · rw [if_pos more]
      cases available : memory 0 with
      | false => exact ⟨_, rfl⟩
      | true => exact absurd ⟨Nat.le_of_not_lt large, .inr available⟩ refuses
    · exact absurd ⟨Nat.le_of_not_lt large, .inl (Nat.le_of_not_lt more)⟩ refuses

end Operations

structure RamfsState where
  node : RamfsNode
  memory : Nat → Bool

inductive RamfsCall where
  | write (offset : Nat) (bytes : List UInt8)
  | read (offset size : Nat)

def RamfsCall.Small : RamfsCall → Prop
  | .write offset bytes => offset + bytes.length < 4294967296
  | .read offset size => offset + size < 4294967296

/-- The result of a call, the bytes it reads and the state after it. -/
def ramfsStep (s : RamfsState) : RamfsCall → Int × List UInt8 × RamfsState
  | .write offset bytes =>
      let (result, node, memory) := ramfsWrite s.memory s.node offset (some bytes)
      (result, [], ⟨node, memory⟩)
  | .read offset size =>
      let (result, bytes) := ramfsRead s.node offset size true
      (result, bytes, s)

def ramfsRun (s : RamfsState) (calls : List RamfsCall) : RamfsState :=
  calls.foldl (fun s call => (ramfsStep s call).2.2) s

/-- The list of bytes after the writes of a run that did not fail. -/
def ramfsApplied (s : RamfsState) (bytes : List UInt8) : List RamfsCall → List UInt8
  | [] => bytes
  | .read offset size :: rest => ramfsApplied (ramfsStep s (.read offset size)).2.2 bytes rest
  | .write offset data :: rest =>
      ramfsApplied (ramfsStep s (.write offset data)).2.2
        (if (ramfsStep s (.write offset data)).1 < 0 then bytes else writeAt bytes offset data) rest

/-- What a call on a file with these bytes has to do. -/
def RamfsMeets (s : RamfsState) (bytes : List UInt8) : RamfsCall → Prop
  | .write offset data =>
      let (result, _, after) := ramfsStep s (.write offset data)
      (ramfsAccepts s.memory s.node (offset + data.length) ∧ result = data.length ∧
        after.node.length = max s.node.length (offset + data.length) ∧
        after.node.contents = writeAt bytes offset data) ∨
      (¬ ramfsAccepts s.memory s.node (offset + data.length) ∧ result = -1 ∧ after.node = s.node)
  | .read offset size =>
      ramfsStep s (.read offset size) =
        (((readAt bytes offset size).length : Int), readAt bytes offset size, s)

section Runs

variable {s : RamfsState}

theorem step_meets (sound : RamfsSound s.node) {call : RamfsCall} (small : call.Small) :
    RamfsMeets s s.node.contents call ∧ RamfsSound (ramfsStep s call).2.2.node := by
  cases call with
  | read offset size =>
      have read := ramfsRead_slice sound small
      refine ⟨?_, sound⟩
      rw [RamfsMeets, ramfsStep, read]
  | write offset data =>
      simp only [RamfsMeets, ramfsStep]
      by_cases accepts : ramfsAccepts s.memory s.node (offset + data.length)
      · obtain ⟨after, later, wrote, kept, length, contents⟩ :=
          ramfsWrite_accepted sound small accepts
        rw [wrote]
        exact ⟨.inl ⟨accepts, rfl, length, contents⟩, kept⟩
      · obtain ⟨later, wrote⟩ := ramfsWrite_refused sound small accepts
        rw [wrote]
        exact ⟨.inr ⟨accepts, rfl, rfl⟩, sound⟩

theorem run_contents (sound : RamfsSound s.node) {calls : List RamfsCall}
    (small : ∀ call ∈ calls, call.Small) :
    RamfsSound (ramfsRun s calls).node ∧
      (ramfsRun s calls).node.contents = ramfsApplied s s.node.contents calls := by
  induction calls generalizing s with
  | nil => exact ⟨sound, rfl⟩
  | cons call rest ih =>
      obtain ⟨meets, kept⟩ := step_meets sound (small call (List.mem_cons_self ..))
      obtain ⟨last, contents⟩ := ih kept fun later member => small later (List.mem_cons_of_mem _ member)
      refine ⟨last, contents.trans ?_⟩
      cases call with
      | read offset size => rfl
      | write offset data =>
          simp only [ramfsApplied]
          congr 1
          rcases meets with ⟨_, result, _, written⟩ | ⟨_, result, same⟩
          · have code : (ramfsStep s (.write offset data)).1 = data.length := result
            rw [if_neg (by omega)]
            exact written
          · have code : (ramfsStep s (.write offset data)).1 = -1 := result
            have kept : (ramfsStep s (.write offset data)).2.2.node = s.node := same
            rw [if_pos (by omega), kept]

/-- After any reads and writes, a file holds the bytes that its successful writes give, and
the next call does what it has to on them. -/
theorem ramfs_contents (name : List UInt8) (inode : Nat) (memory : Nat → Bool)
    {calls : List RamfsCall} (small : ∀ call ∈ calls, call.Small) :
    let start : RamfsState := ⟨ramfsAllocNode name vfsFile inode, memory⟩
    let s := ramfsRun start calls
    s.node.contents = ramfsApplied start [] calls ∧
      s.node.length = (ramfsApplied start [] calls).length ∧
      ∀ call : RamfsCall, call.Small → RamfsMeets s (ramfsApplied start [] calls) call := by
  intro start s
  obtain ⟨sound, empty⟩ := alloc_sound name inode
  obtain ⟨kept, contents⟩ := run_contents (s := start) sound small
  change s.node.contents = ramfsApplied start (ramfsAllocNode name vfsFile inode).contents calls
    at contents
  rw [empty] at contents
  refine ⟨contents, ?_, fun call callSmall => ?_⟩
  · rw [← contents, RamfsNode.contents, length_image]
  · rw [← contents]
    exact (step_meets kept callSmall).1

theorem ramfs_contents_hole :
    let s := ramfsRun ⟨ramfsAllocNode [0x66] vfsFile 1, fun _ => true⟩ [.write 2 [7]]
    RamfsMeets s [0, 0, 7] (.read 0 9) := by
  have meets := (@ramfs_contents [0x66] 1 (fun _ => true) [.write 2 [7]] (by
    intro call member
    obtain rfl := List.mem_singleton.mp member
    change 2 + 1 < 4294967296
    omega)).2.2 (.read 0 9) (by change 0 + 9 < 4294967296; omega)
  exact meets

end Runs

end ZurichOS
