import ZurichOS.FatFile

/-!
Writing behind the end of a file.  The driver links clusters up to the offset and writes only the
data, so that what the clusters had before shows between the old end and the offset.
-/

namespace ZurichOS

open ByteBuffer Words LinkedChains FileContents

variable {fs : Fat32Fs} {d after : Disk} {xs ys : List Nat} {file next : FatFile}
  {size offset : Nat} {data : List UInt8}

/-- Every read between the old end of the file and the offset gives zeros. -/
def HoleZero (fs : Fat32Fs) (after : Disk) (next : FatFile) (size offset : Nat) : Prop :=
  ∀ start count, size ≤ start → start + count ≤ offset →
    fat32ReadFile fs after next start count = (int32 count, List.replicate count 0, after)

/-- A byte of the clusters of the file, or behind them of the free clusters in the order of their
numbers. -/
def Disk.staleByte (d : Disk) (fs : Fat32Fs) (xs : List Nat) (position : Nat) : UInt8 :=
  d.fileByte fs (xs ++ d.freeList fs) position

/-- The file goes on up to the offset, and has zeros there. -/
theorem holeZero_iff (sound : fs.Sound) (reliable : after.Reliable)
    (chain : after.HasChain fs xs) (isStart : xs.head?.getD 0 = next.startCluster)
    (beyond : size < offset) (small : offset < 4294967296) :
    HoleZero fs after next size offset ↔
      (offset ≤ next.fileSize ∧ offset ≤ xs.length * fs.clusterSize) ∧
        ∀ position, size ≤ position → position < offset → after.fileByte fs xs position = 0 := by
  have slice : ∀ {start count : Nat}, start + count ≤ offset →
      (fat32ReadFile fs after next start count = (int32 count, List.replicate count 0, after) ↔
        count ≤ min next.fileSize (xs.length * fs.clusterSize) - start ∧
          ∀ i < count, after.fileByte fs xs (start + i) = 0) := by
    intro start count inside
    rw [readFile_chain sound reliable chain isStart (by omega)]
    dsimp only
    rw [← readAt_image_zero]
    constructor
    · intro same
      exact congrArg (fun result => result.2.1) same
    · intro same
      rw [Disk.fileBytes, same, List.length_replicate]
  constructor
  · intro zero
    obtain ⟨long, bytes⟩ := (slice (by omega)).mp
      (zero size (offset - size) (Nat.le_refl _) (by omega))
    refine ⟨by omega, fun position lower upper => ?_⟩
    have byte := bytes (position - size) (by omega)
    rwa [Nat.add_sub_cancel' lower] at byte
  · rintro ⟨⟨long, covered⟩, bytes⟩ start count lower upper
    refine (slice upper).mpr ⟨by omega, fun i below => ?_⟩
    exact bytes (start + i) (by omega) (by omega)

theorem staleByte_taken (taken : d.freeList fs = ys ++ after.freeList fs) {position : Nat}
    (inside : position < (xs ++ ys).length * fs.clusterSize) :
    d.staleByte fs xs position = d.fileByte fs (xs ++ ys) position := by
  rw [Disk.staleByte, taken, ← List.append_assoc]
  exact fileByte_append inside

theorem write_has_room (sound : fs.Sound) {result : Int} (chain : d.HasChain fs xs)
    (wrote : WroteFile fs d after xs ys file next offset data result)
    (room : fs.clustersFor (offset + data.length) ≤ xs.length + (d.freeClusters fs).card) :
    next.fileSize = max file.fileSize (u32 (offset + data.length)) ∧
      Wrote fs d after xs ys offset data 0 data.length := by
  rcases wrote.outcome with ⟨_, isSize, all⟩ | ⟨_, full, short, _⟩
  · exact ⟨isSize, all⟩
  · have enough := (clustersFor_le_iff sound).mp
      (room.trans (Nat.add_le_add_left (wrote.longer.free_le chain full) xs.length))
    rw [← List.length_append] at enough
    exact absurd enough (Nat.not_le.mpr short)

/-- The hole of a write reads as zeros exactly if the write has data, the sizes do not overflow,
and there were only zeros in the rest of the last cluster and in the free clusters that come
next. -/
theorem hole_zero_iff (sound : fs.Sound) (reliable : d.Reliable) (chain : d.HasChain fs xs)
    (isStart : xs.head?.getD 0 = file.startCluster)
    (beyond : file.fileSize < offset) (small : offset < 4294967296)
    (short : data.length < 4294967296)
    (room : fs.clustersFor (offset + data.length) ≤ xs.length + (d.freeClusters fs).card) :
    ∃ result next after, fat32WriteFile fs d file offset data = (result, next, after) ∧
      (HoleZero fs after next file.fileSize offset ↔
        0 < data.length ∧ offset + data.length < 4294967296 ∧
          ∀ position, file.fileSize ≤ position → position < offset →
            d.staleByte fs xs position = 0) := by
  by_cases nothing : data.length = 0
  · refine ⟨0, file, d, if_pos nothing, ?_⟩
    rw [holeZero_iff sound reliable chain isStart beyond small]
    constructor
    · rintro ⟨⟨long, _⟩, _⟩
      omega
    · rintro ⟨some, _⟩
      omega
  · have some : 0 < data.length := Nat.pos_of_ne_zero nothing
    obtain ⟨result, next, after, ys, wrote, spec, taken⟩ :=
      writeFile_chain sound reliable chain isStart offset some
    obtain ⟨isSize, all⟩ := write_has_room sound chain spec room
    have covered := all.covered
    refine ⟨result, next, after, wrote, ?_⟩
    rw [holeZero_iff sound spec.longer.reliable spec.longer.chain spec.start beyond small,
      and_iff_right some]
    have bytes : ∀ position < offset,
        after.fileByte fs (xs ++ ys) position = d.staleByte fs xs position := by
      intro position early
      rw [staleByte_taken taken (by omega), all.bytes position (by omega), if_neg (by omega)]
    apply and_congr
    · rw [isSize]
      constructor
      · rintro ⟨long, _⟩
        by_contra wraps
        have wrapped : u32 (offset + data.length) = offset + data.length - 4294967296 := by
          unfold u32
          omega
        omega
      · intro fits
        rw [u32_eq_of_lt fits]
        omega
    · refine forall₃_congr fun position lower upper => ?_
      rw [bytes position upper]

/-- The cluster 3 is free, and still has bytes of a deleted file. -/
def staleDisk (byte : UInt8) : Disk :=
  { emptyDisk with sectors := fun lba =>
      if lba = 3 then fun _ => byte else emptyDisk.sectors lba }

theorem staleDisk_reliable (byte : UInt8) : (staleDisk byte).Reliable :=
  ⟨fun _ => rfl, fun _ => rfl⟩

/-- A new file is written from its second byte on: its first byte is one of the deleted file. -/
theorem hole_shows_stale : ∃ next after,
    fat32WriteFile emptyVolume (staleDisk 0x55) ⟨0, 0⟩ 1 [0x58] = (1, next, after) ∧
    ¬ HoleZero emptyVolume after next 0 1 := by
  have run : (some (fat32WriteFile emptyVolume (staleDisk 0x55) ⟨0, 0⟩ 1 [0x58])).map
      (fun (result, next, after) => (result, (fat32ReadFile emptyVolume after next 0 1).2.1)) =
      some (1, [0x55]) := by decide +kernel
  obtain ⟨⟨result, next, after⟩, wrote, outcome⟩ := Option.map_eq_some_iff.mp run
  obtain ⟨rfl, read⟩ := Prod.mk.inj outcome
  refine ⟨next, after, Option.some.inj wrote, fun zero => ?_⟩
  rw [zero 0 1 (Nat.le_refl 0) (Nat.le_refl 1)] at read
  change List.replicate 1 0 = [0x55] at read
  exact absurd read (by decide)

theorem hole_zero_iff_clean : ∃ result next after,
    fat32WriteFile emptyVolume (staleDisk 0) ⟨0, 0⟩ 1 [0x58] = (result, next, after) ∧
    HoleZero emptyVolume after next 0 1 := by
  obtain ⟨result, next, after, wrote, zero⟩ := @hole_zero_iff emptyVolume (staleDisk 0) []
    ⟨0, 0⟩ 1 [0x58] emptyVolume_sound (staleDisk_reliable 0) .nil rfl (by decide) (by decide)
    (by decide) (by decide)
  refine ⟨result, next, after, wrote, zero.mpr ⟨by decide, by decide, ?_⟩⟩
  intro position _ upper
  obtain rfl : position = 0 := by omega
  decide

end ZurichOS
