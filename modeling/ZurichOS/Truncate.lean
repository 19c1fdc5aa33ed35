import ZurichOS.FatFile
import ZurichOS.FatVfsCore
import ZurichOS.Ramfs

/-!
An open file after `vfs_truncate`, next to a file that has just been created.
-/

namespace ZurichOS

open ByteBuffer Words FileContents

inductive FileCall where
  | write (offset : Nat) (data : List UInt8)
  | append (data : List UInt8)
  | read (offset size : Nat)

def FileCall.Small : FileCall → Prop
  | .write offset data => offset + data.length < 4294967296
  | .append data => data.length < 2147483648
  | .read offset size => offset + size < 4294967296

def fileStep (fuel : Nat) (d : Disk) (file : OpenFile) :
    FileCall → Option (Int × List UInt8 × OpenFile × Disk)
  | .write offset data =>
      (vfsWrite fuel d file offset data).map fun (result, file, d) => (result, [], file, d)
  | .append data =>
      (vfsAppend fuel d file data).map fun (result, file, d) => (result, [], file, d)
  | .read offset size =>
      let (result, bytes, d) := vfsRead d file offset size
      some (result, bytes, file, d)

def fileResults (fuel : Nat) (d : Disk) (file : OpenFile) :
    List FileCall → Option (List (Int × List UInt8))
  | [] => some []
  | call :: rest =>
      match fileStep fuel d file call with
      | none => none
      | some (result, bytes, file, d) =>
          (fileResults fuel d file rest).map fun results => (result, bytes) :: results

/-- The empty file that has just been created under the name of this one. -/
def OpenFile.create (d : Disk) : OpenFile → Option OpenFile
  | .ramfs node => some (.ramfs (ramfsAllocNode node.name vfsFile node.inode))
  | .fat32 fs node =>
      (fat32CreateVfsNode d node.name 0 0 node.attr node.parentCluster).1.map (.fat32 fs)

/-- The node of a file of the volume: it agrees with itself, and an empty file has no
cluster. -/
structure FatNode.Sound (fs : Fat32Fs) (d : Disk) (node : FatNode) : Prop where
  volume : fs.Sound
  file : node.attr &&& fat32AttrDirectory = 0
  flags : node.flags = vfsFile
  name : (cString node.name).take (vfsMaxName - 1) = node.name
  length : node.length = node.fileSize
  inode : node.inode = node.cluster
  links : node.parent = none ∧ node.ptr = none
  chain : ∃ xs, d.HasChain fs xs ∧ xs.head?.getD 0 = node.cluster ∧
    node.fileSize ≤ xs.length * fs.clusterSize
  empty : node.fileSize = 0 → node.cluster = 0

def OpenFile.Sound (d : Disk) : OpenFile → Prop
  | .ramfs node => RamfsSound node
  | .fat32 fs node => node.Sound fs d

/-- What the file stores does not show once the file is empty. -/
def OpenFile.Blank : OpenFile → Prop
  | .ramfs node => ∀ byte ∈ node.contents, byte = 0
  | .fat32 _ node => node.fileSize = 0

variable {d e : Disk}

section Ramfs

variable {node other : RamfsNode}

theorem ramfsAccepts_reliable {memory : Nat → Bool} (available : ∀ n, memory n = true)
    {endPos : Nat} : ramfsAccepts memory node endPos ↔ endPos ≤ ramfsMaxFileSize := by
  constructor
  · intro accepts
    exact accepts.1
  · intro fits
    exact ⟨fits, .inr (available 0)⟩

theorem ramfsWrite_memory (node : RamfsNode) {memory : Nat → Bool}
    (available : ∀ n, memory n = true) (offset : Nat) (buffer : Option (List UInt8)) : ∀ n, (ramfsWrite memory node offset buffer).2.2 n = true := by
  intro n
  cases buffer with
  | none => exact available n
  | some bytes =>
      simp only [ramfsWrite, available 0, if_true]
      split
      · exact available n
      · split
        · exact available n
        · split
          · exact available (n + 1)
          · exact available n

theorem ramfs_step_congr (fuel : Nat) {call : FileCall} (small : call.Small)
    (reliable : d.Reliable ∧ e.Reliable) (sound : RamfsSound node ∧ RamfsSound other)
    (same : node.contents = other.contents) :
    ∃ result bytes node' other' d' e',
      fileStep fuel d (.ramfs node) call = some (result, bytes, .ramfs node', d') ∧
      fileStep fuel e (.ramfs other) call = some (result, bytes, .ramfs other', e') ∧
      (d'.Reliable ∧ e'.Reliable) ∧ (RamfsSound node' ∧ RamfsSound other') ∧
      node'.contents = other'.contents := by
  have sameLength : node.length = other.length := by
    have lengths := congrArg List.length same
    rwa [RamfsNode.contents, RamfsNode.contents, length_image, length_image] at lengths
  have write : ∀ offset data, offset + data.length < 4294967296 →
      ∃ result node' other' d' e',
        vfsWrite fuel d (.ramfs node) offset data = some (result, .ramfs node', d') ∧
        vfsWrite fuel e (.ramfs other) offset data = some (result, .ramfs other', e') ∧
        (d'.Reliable ∧ e'.Reliable) ∧ (RamfsSound node' ∧ RamfsSound other') ∧
        node'.contents = other'.contents := by
    intro offset data bound
    have kept := ramfsWrite_memory node reliable.1.memory offset (some data)
    have otherKept := ramfsWrite_memory other reliable.2.memory offset (some data)
    simp only [vfsWrite]
    by_cases fits : offset + data.length ≤ ramfsMaxFileSize
    · obtain ⟨after, later, wrote, soundAfter, _, contents⟩ := ramfsWrite_accepted sound.1 bound
        ((ramfsAccepts_reliable reliable.1.memory).mpr fits)
      obtain ⟨otherAfter, otherLater, otherWrote, otherSound, _, otherContents⟩ :=
        ramfsWrite_accepted sound.2 bound ((ramfsAccepts_reliable reliable.2.memory).mpr fits)
      rw [wrote] at kept ⊢
      rw [otherWrote] at otherKept ⊢
      refine ⟨_, _, _, _, _, rfl, rfl, ⟨⟨reliable.1.transfers, kept⟩, ⟨reliable.2.transfers, otherKept⟩⟩,
        ⟨soundAfter, otherSound⟩, ?_⟩
      rw [contents, otherContents, same]
    · obtain ⟨later, wrote⟩ := ramfsWrite_refused sound.1 bound
        fun accepts => fits ((ramfsAccepts_reliable reliable.1.memory).mp accepts)
      obtain ⟨otherLater, otherWrote⟩ := ramfsWrite_refused sound.2 bound
        fun accepts => fits ((ramfsAccepts_reliable reliable.2.memory).mp accepts)
      rw [wrote] at kept ⊢
      rw [otherWrote] at otherKept ⊢
      exact ⟨_, _, _, _, _, rfl, rfl,
        ⟨⟨reliable.1.transfers, kept⟩, ⟨reliable.2.transfers, otherKept⟩⟩, sound, same⟩
  cases call with
  | write offset data =>
      obtain ⟨result, node', other', d', e', wrote, otherWrote, kept⟩ := write offset data small
      simp only [fileStep, wrote, otherWrote]
      exact ⟨_, _, _, _, _, _, rfl, rfl, kept⟩
  | append data =>
      have bounded : node.length ≤ 65536 := sound.1.length.trans sound.1.capacity
      have bound : data.length < 2147483648 := small
      obtain ⟨result, node', other', d', e', wrote, otherWrote, kept⟩ :=
        write node.length data (by omega)
      simp only [fileStep, vfsAppend, OpenFile.length, ← sameLength, wrote, otherWrote]
      exact ⟨_, _, _, _, _, _, rfl, rfl, kept⟩
  | read offset size =>
      simp only [fileStep, vfsRead, ramfsRead_slice sound.1 small, ramfsRead_slice sound.2 small,
        same]
      exact ⟨_, _, _, _, _, _, rfl, rfl, reliable, sound, same⟩

theorem ramfs_results_congr (fuel : Nat) {calls : List FileCall}
    (small : ∀ call ∈ calls, call.Small) (reliable : d.Reliable ∧ e.Reliable)
    (sound : RamfsSound node ∧ RamfsSound other) (same : node.contents = other.contents) :
    fileResults fuel d (.ramfs node) calls = fileResults fuel e (.ramfs other) calls := by
  induction calls generalizing d e node other with
  | nil => rfl
  | cons call rest ih =>
      obtain ⟨result, bytes, node', other', d', e', step, otherStep, kept, soundAfter, after⟩ :=
        ramfs_step_congr fuel (small call (List.mem_cons_self ..)) reliable sound same
      rw [fileResults, fileResults, step, otherStep]
      dsimp only
      rw [ih (fun later member => small later (List.mem_cons_of_mem _ member)) kept soundAfter after]

/-- Without the length, the zero bytes of a file are those behind its end. -/
theorem truncate_sound (sound : RamfsSound node) (blank : ∀ byte ∈ node.contents, byte = 0) :
    RamfsSound { node with length := 0 } := by
  refine ⟨sound.file, Nat.zero_le _, sound.capacity, sound.data, ?_⟩
  intro i _ upper
  change node.store i = 0
  by_cases inside : i < node.length
  · apply blank
    exact List.mem_map.mpr ⟨i, List.mem_range.mpr inside, rfl⟩
  · exact sound.tail i (Nat.le_of_not_lt inside) upper

/-- A write of no bytes at the old end brings the file back. -/
theorem truncate_restored (sound : RamfsSound node) (memory : Nat → Bool) :
    ramfsWrite memory { node with length := 0 } node.length (some []) = (0, node, memory) := by
  have short := sound.length
  have limit : node.capacity ≤ 65536 := sound.capacity
  have file : VfsNode.isDirectory { node.toVfsNode with length := 0 } = false := sound.file
  have unchanged : ramfsPut { node with length := 0 } node.length node.length [] = node := by
    have isLength : (if 0 < node.length then node.length else 0) = node.length := by
      split <;> omega
    have isData : (node.data.map fun data => putBytes data node.length []) = node.data := by
      cases node.data with
      | none => rfl
      | some data =>
          rw [Option.map_some, Option.some.injEq]
          funext i
          apply putBytes_outside
          rw [List.length_nil]
          omega
    rw [ramfsPut, isLength, isData]
  rw [ramfsWrite]
  dsimp only
  rw [file, List.length_nil, Nat.add_zero, u32_eq_of_lt (by omega)]
  simp only [Bool.false_eq_true, if_false]
  rw [if_neg (show ¬ ramfsMaxFileSize < node.length by
    change ¬ 65536 < node.length
    omega), if_neg (by omega), unchanged]
  rfl

/-- The calls that bring back what a file stored show whether all of it was zero. -/
theorem ramfs_blank (fuel : Nat) (reliable : d.Reliable) (sound : RamfsSound node) (name : List UInt8)
    (inode : Nat)
    (same : fileResults fuel d (.ramfs { node with length := 0 })
        [.write node.length [], .read 0 node.length] =
      fileResults fuel d (.ramfs (ramfsAllocNode name vfsFile inode))
        [.write node.length [], .read 0 node.length]) :
    ∀ byte ∈ node.contents, byte = 0 := by
  have short := sound.length
  have limit : node.capacity ≤ 65536 := sound.capacity
  obtain ⟨fresh, empty⟩ := alloc_sound name inode
  have accepts : ramfsAccepts d.memory (ramfsAllocNode name vfsFile inode)
      (node.length + ([] : List UInt8).length) := by
    rw [ramfsAccepts_reliable reliable.memory]
    change node.length + 0 ≤ 65536
    omega
  have small : node.length + ([] : List UInt8).length < 4294967296 := by
    change node.length + 0 < 4294967296
    omega
  obtain ⟨after, later, wrote, soundAfter, _, contents⟩ := ramfsWrite_accepted fresh small accepts
  have bound : 0 + node.length < 4294967296 := by omega
  simp only [fileResults, fileStep, vfsWrite, vfsRead, truncate_restored sound, wrote,
    Option.map_some, ramfsRead_slice sound bound, ramfsRead_slice soundAfter bound, contents,
    empty] at same
  have read : readAt node.contents 0 node.length = readAt (writeAt [] node.length []) 0 node.length := by
    simp only [Option.some.injEq, List.cons.injEq, Prod.mk.injEq] at same
    exact same.2.1.2
  have all : readAt node.contents 0 node.length = node.contents := by
    rw [readAt, List.drop_zero, List.take_of_length_le]
    rw [RamfsNode.contents, length_image]
  rw [all] at read
  intro byte member
  rw [read] at member
  have zeros : byte ∈ writeAt [] node.length [] :=
    List.mem_of_mem_drop (List.mem_of_mem_take member)
  simp only [writeAt, List.nil_append, List.length_nil, Nat.sub_zero, List.append_nil,
    List.drop_nil] at zeros
  exact List.eq_of_mem_replicate (List.mem_of_mem_take zeros)

end Ramfs

section Fat

variable {fs : Fat32Fs} {node fresh : FatNode}

theorem fat_first_byte (reliable : d.Reliable) (sound : node.Sound fs d) :
    (fat32VfsRead fs d node 0 1).1 = if node.fileSize = 0 then 0 else 1 := by
  obtain ⟨xs, chain, start, covers⟩ := sound.chain
  have isStart : xs.head?.getD 0 = (⟨node.cluster, node.fileSize⟩ : FatFile).startCluster := start
  rw [fat32VfsRead, if_neg (not_not.mpr sound.file),
    readFile_chain sound.volume reliable chain isStart (by omega)]
  dsimp only
  rw [length_readAt, Disk.fileBytes, length_image, Nat.min_eq_left covers]
  split
  · rename_i none
    rw [none]
    rfl
  · rename_i some
    rw [show min 1 (node.fileSize - 0) = 1 by omega]
    rfl

theorem fat_create (reliable : d.Reliable) (sound : node.Sound fs d) {file : OpenFile}
    (isNew : (OpenFile.fat32 fs node).create d = some file) :
    file = .fat32 fs { node with cluster := 0, fileSize := 0, length := 0, inode := 0 } := by
  have noFlag : ¬ node.attr &&& fat32AttrDirectory ≠ 0 := not_not.mpr sound.file
  have links := sound.links
  have flags := sound.flags
  rw [OpenFile.create, fat32CreateVfsNode] at isNew
  simp only [Disk.kmalloc, reliable.memory, if_neg noFlag, Option.map_some, Option.some.injEq,
    sound.name] at isNew
  rw [← isNew]
  simp only [links, flags]

end Fat

section Truncate

variable {file fresh : OpenFile}

/-- After `vfs_truncate`, a file behaves like a new one exactly if a ramfs file stored
nothing but zero bytes, or the FAT32 file was empty. -/
theorem truncate_empties_iff (fuel : Nat) (reliable : d.Reliable) (sound : file.Sound d)
    (isNew : file.create d = some fresh) :
    (∀ calls, (∀ call ∈ calls, FileCall.Small call) →
      fileResults fuel d (vfsTruncate file) calls = fileResults fuel d fresh calls) ↔
    file.Blank := by
  cases file with
  | ramfs node =>
      have sound : RamfsSound node := sound
      obtain rfl : OpenFile.ramfs (ramfsAllocNode node.name vfsFile node.inode) = fresh :=
        Option.some.inj isNew
      have short := sound.length
      have limit : node.capacity ≤ 65536 := sound.capacity
      obtain ⟨newSound, empty⟩ := alloc_sound node.name node.inode
      constructor
      · intro same
        apply ramfs_blank fuel reliable sound node.name node.inode
        apply same
        intro call member
        rcases List.mem_cons.mp member with rfl | last
        · change node.length + 0 < 4294967296
          omega
        · obtain rfl := List.mem_singleton.mp last
          change 0 + node.length < 4294967296
          omega
      · intro blank calls small
        apply ramfs_results_congr fuel small ⟨reliable, reliable⟩
          ⟨truncate_sound sound blank, newSound⟩
        rw [empty]
        rfl
  | fat32 fs node =>
      have sound : node.Sound fs d := sound
      obtain rfl := fat_create reliable sound isNew
      constructor
      · intro same
        have results := same [.read 0 1] fun call member => by
          obtain rfl := List.mem_singleton.mp member
          change 0 + 1 < 4294967296
          omega
        have first := fat_first_byte reliable sound
        have none : (fat32VfsRead fs d { node with
            cluster := 0, fileSize := 0, length := 0, inode := 0 } 0 1).1 = 0 := by
          rw [fat32VfsRead, if_neg (not_not.mpr sound.file)]
          rfl
        simp only [fileResults, fileStep, vfsRead, vfsTruncate, Option.map_some,
          Option.some.injEq, List.cons.injEq, Prod.mk.injEq] at results
        have code := results.1.1
        change (fat32VfsRead fs d node 0 1).1 = _ at code
        rw [none, first] at code
        by_contra some
        change ¬ node.fileSize = 0 at some
        rw [if_neg some] at code
        omega
      · intro blank calls _
        have blank : node.fileSize = 0 := blank
        have same : ({ node with cluster := 0, fileSize := 0, length := 0, inode := 0 } : FatNode) =
            { node with length := 0 } := by
          have cluster := sound.empty blank
          have inode := sound.inode.trans cluster
          simp only [blank, cluster, inode]
        rw [same]
        rfl

def threeBytes : RamfsNode :=
  (ramfsWrite (fun _ => true) (ramfsAllocNode [0x66] vfsFile 1) 0 (some [1, 2, 3])).2.1

/-- A FAT32 file that holds one byte, and its volume. -/
def oneByte : FatNode × Disk :=
  let (_, file, d) := fat32WriteFile emptyVolume emptyDisk ⟨0, 0⟩ 0 [7]
  ({ name := [0x46], flags := vfsFile, length := file.fileSize, inode := file.startCluster
     parent := none, ptr := none, cluster := file.startCluster, fileSize := file.fileSize
     attr := 0x20, parentCluster := some 2 }, d)

/-- The bytes of the truncated ramfs file are back once a write is behind them, and the
FAT32 file is not truncated at all. -/
theorem truncate_keeps_bytes :
    fileResults 10 emptyDisk (vfsTruncate (.ramfs threeBytes)) [.write 5 [9], .read 0 6] =
        some [(1, []), (6, [1, 2, 3, 0, 0, 9])] ∧
      fileResults 10 emptyDisk (.ramfs (ramfsAllocNode [0x66] vfsFile 1)) [.write 5 [9], .read 0 6] =
        some [(1, []), (6, [0, 0, 0, 0, 0, 9])] ∧
      fileResults 10 oneByte.2 (vfsTruncate (.fat32 emptyVolume oneByte.1)) [.read 0 6] =
        some [(1, [7])] := by
  refine ⟨?_, ?_, ?_⟩
  · rfl
  · rfl
  · decide +kernel

theorem truncate_empties_iff_threeBytes :
    ¬ ∀ calls, (∀ call ∈ calls, FileCall.Small call) →
      fileResults 10 emptyDisk (vfsTruncate (.ramfs threeBytes)) calls =
        fileResults 10 emptyDisk (.ramfs (ramfsAllocNode [0x66] vfsFile 1)) calls := by
  have sound : RamfsSound threeBytes := by
    have accepts : ramfsAccepts (fun _ => true) (ramfsAllocNode [0x66] vfsFile 1)
      (0 + [(1 : UInt8), 2, 3].length) := ⟨by decide, .inr rfl⟩
    obtain ⟨after, later, wrote, kept, _⟩ :=
      ramfsWrite_accepted (alloc_sound [0x66] 1).1 (by decide) accepts
    rw [threeBytes, wrote]
    exact kept
  intro same
  have blank := (truncate_empties_iff 10 emptyDisk_reliable
    (show (OpenFile.ramfs threeBytes).Sound emptyDisk from sound) rfl).mp same
  exact absurd (blank 1 (by decide)) (by decide)

end Truncate

end ZurichOS
