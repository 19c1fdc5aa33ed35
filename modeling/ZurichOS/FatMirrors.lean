import ZurichOS.FatConfined
import ZurichOS.FatTouched
import ZurichOS.FatPlaces
import ZurichOS.Transitions

/-!
The copies of the FAT.  `fat32_mount` takes from the boot sector where the first one lies and
where the data region begins, and no operation of the driver writes to the sectors between.
-/

namespace ZurichOS

open ByteBuffer Words Transitions

variable {fs : Fat32Fs} {d image after : Disk} {partitionLba count copy i : Nat}

/-- The `i`-th sector of a copy of the FAT. -/
def Fat32Fs.copyLba (fs : Fat32Fs) (copy i : Nat) : Nat :=
  fs.partitionLba + fs.fatStartLba + copy * fs.fatSize + i

def CopiesAgree (fs : Fat32Fs) (count : Nat) (d : Disk) : Prop :=
  ∀ copy < count, ∀ i < fs.fatSize,
    d.sectors (fs.copyLba copy i) = d.sectors (fs.copyLba 0 i)

inductive VolumeCall where
  | create (node : FatNode) (name : List UInt8) (type : Nat)
  | write (node : FatNode) (offset : Nat) (data : List UInt8)
  | unlink (node : FatNode) (name : List UInt8)

/-- The result of a call and the drive after it; what the cache has makes no difference. -/
def volumeStep (fs : Fat32Fs) (d : Disk) : VolumeCall → Option (Int × Disk)
  | .create node name type =>
      (fat32VfsCreate fs fs.turns d emptyCache node name type).map fun (code, _, d) => (code, d)
  | .write node offset data =>
      (fat32VfsWrite fs fs.turns d node offset data).map fun (code, _, d) => (code, d)
  | .unlink node name =>
      (fat32VfsUnlink fs fs.turns d emptyCache node name).map fun (code, _, d) => (code, d)

/-- The files and directories of the call begin in clusters of the volume, if they have any. -/
def VolumeCall.Valid (fs : Fat32Fs) (d : Disk) : VolumeCall → Prop
  | .create node _ _ => node.cluster = 0 ∨ fs.HasCluster node.cluster
  | .write node _ _ => (node.cluster = 0 ∨ fs.HasCluster node.cluster) ∧
      ∀ dir ∈ node.parentCluster, dir = 0 ∨ fs.HasCluster dir
  | .unlink node name => (node.cluster = 0 ∨ fs.HasCluster node.cluster) ∧
      ∀ entry found, fat32FindEntry fs fs.turns d node.cluster name = some (some entry, found) →
        2 ≤ direntCluster entry → fs.HasCluster (direntCluster entry)

theorem volumeStep_touches (sound : fs.Sound) (closed : (d.view fs).Closed fs fs.HasCluster)
    (call : VolumeCall) (valid : call.Valid fs d) {code : Int}
    (step : volumeStep fs d call = some (code, after)) :
    Touches fs fs.HasCluster d after := by
  cases call with
  | create node name type =>
      obtain ⟨⟨_, _, _⟩, created, same⟩ := Option.map_eq_some_iff.mp step
      cases same
      exact vfsCreate_touches sound closed valid created
  | write node offset data =>
      obtain ⟨⟨_, _, _⟩, wrote, same⟩ := Option.map_eq_some_iff.mp step
      cases same
      exact vfsWrite_touches sound closed valid.1 valid.2 wrote
  | unlink node name =>
      obtain ⟨⟨_, _, _⟩, removed, same⟩ := Option.map_eq_some_iff.mp step
      cases same
      exact vfsUnlink_touches sound closed valid.1 valid.2 removed

/-- Links never lead out of the volume, and only its clusters and their entries change. -/
theorem run_touches (sound : fs.Sound) (closed : (d.view fs).Closed fs fs.HasCluster)
    (reached : Reachable (· = d) (Restricted (fun d call => VolumeCall.Valid fs d call)
      fun d call after => ∃ code, volumeStep fs d call = some (code, after)) after) :
    Touches fs fs.HasCluster d after := by
  apply reached.invariant
  · rintro state rfl
    exact touches_of_same closed rfl
  · rintro state call next touches ⟨valid, code, step⟩
    exact touches.trans (volumeStep_touches sound touches.closed call valid step)

section Copies

theorem copy_outside (layout : fs.fatStartLba + count * fs.fatSize ≤ fs.dataStartLba)
    (mirror : 0 < copy) (below : copy < count) (inside : i < fs.fatSize) :
    ¬ fs.InFat (fs.copyLba copy i) ∧ ¬ fs.InData (fs.copyLba copy i) := by
  have first : fs.fatSize ≤ copy * fs.fatSize := Nat.le_mul_of_pos_left _ mirror
  have last : (copy + 1) * fs.fatSize ≤ count * fs.fatSize := Nat.mul_le_mul_right _ below
  rw [Nat.succ_mul] at last
  unfold Fat32Fs.InFat Fat32Fs.InData Fat32Fs.copyLba
  omega

/-- Where the other copies stay as they were, the copies agree as long as the first one is as it
was. -/
theorem agree_iff (agree : CopiesAgree fs count d)
    (mirrors : ∀ copy < count, 0 < copy → ∀ i < fs.fatSize,
      after.sectors (fs.copyLba copy i) = d.sectors (fs.copyLba copy i)) :
    CopiesAgree fs count after ↔ count ≤ 1 ∨
      ∀ i < fs.fatSize, after.sectors (fs.copyLba 0 i) = d.sectors (fs.copyLba 0 i) := by
  constructor
  · intro agreeAfter
    by_cases single : count ≤ 1
    · exact .inl single
    · have second : 1 < count := Nat.lt_of_not_le single
      refine .inr fun i inside => ?_
      rw [← agreeAfter 1 second i inside, mirrors 1 second Nat.one_pos i inside,
        agree 1 second i inside]
  · rintro unchanged copy below i inside
    cases copy with
    | zero => rfl
    | succ copy =>
        have first := unchanged.resolve_left (by omega) i inside
        rw [mirrors _ below (Nat.succ_pos copy) i inside, agree _ below i inside, first]

theorem mounted_volume (mounted : image.fat32Mount partitionLba = (.mounted fs, d)) :
    fs = bpbVolume (image.bootSector partitionLba) partitionLba ∧ d.sectors = image.sectors := by
  constructor
  · have result : (image.fat32Mount partitionLba).1 = _ := mount_eq
    rw [mounted] at result
    split_ifs at result
    · cases result
      rfl
  · have kept := @fat32Mount_sectors image partitionLba
    rw [mounted] at kept
    exact kept

end Copies

/-- However many FATs the mounted volume has, and whatever transfers fail, no call changes another
copy than the first.  So copies that agree when the volume is mounted agree later exactly if the
first one is as it was. -/
theorem fat_copies_agree_iff (mounted : image.fat32Mount partitionLba = (.mounted fs, d))
    (sound : fs.Sound) (layout : dataOffset (image.bootSector partitionLba) < 4294967296)
    (closed : (d.view fs).Closed fs fs.HasCluster)
    (agree : CopiesAgree fs (bpbNumFats (image.bootSector partitionLba)) d)
    (reached : Reachable (· = d) (Restricted (fun d call => VolumeCall.Valid fs d call)
      fun d call after => ∃ code, volumeStep fs d call = some (code, after)) after) :
    (∀ copy < bpbNumFats (image.bootSector partitionLba), 0 < copy → ∀ i < fs.fatSize,
      after.sectors (fs.copyLba copy i) = d.sectors (fs.copyLba copy i)) ∧
    (CopiesAgree fs (bpbNumFats (image.bootSector partitionLba)) after ↔
      bpbNumFats (image.bootSector partitionLba) ≤ 1 ∨
        ∀ i < fs.fatSize, after.sectors (fs.copyLba 0 i) = d.sectors (fs.copyLba 0 i)) := by
  have touches := run_touches sound closed reached
  have region : fs.fatStartLba + bpbNumFats (image.bootSector partitionLba) * fs.fatSize ≤
      fs.dataStartLba := by
    obtain ⟨rfl, _⟩ := mounted_volume mounted
    change bpbReservedSectors _ + bpbNumFats _ * bpbFatSize32 _ ≤ bpbDataStart _
    unfold dataOffset at layout
    rw [bpbDataStart, u32_eq_of_lt (show bpbNumFats (image.bootSector partitionLba) *
      bpbFatSize32 (image.bootSector partitionLba) < 4294967296 by omega), u32_eq_of_lt layout]
  have mirrors : ∀ copy < bpbNumFats (image.bootSector partitionLba), 0 < copy →
      ∀ i < fs.fatSize,
        after.sectors (fs.copyLba copy i) = d.sectors (fs.copyLba copy i) := by
    intro copy below mirror i inside
    obtain ⟨notFat, notData⟩ := copy_outside region mirror below inside
    exact touches.sectors _ notFat notData
  exact ⟨mirrors, agree_iff agree mirrors⟩

/-- A volume of five sectors: the boot sector, two FATs and two clusters, of which the root
directory has one. -/
def twoFatDisk : Disk :=
  { sectors := fun lba =>
      if lba = 0 then fun i =>
        if i = 12 ∨ i = 16 ∨ i = 44 then 2
        else if i = 13 ∨ i = 14 ∨ i = 36 then 1
        else if i = 32 then 5
        else if i = 66 then 0x29 else 0
      else if lba = 1 ∨ lba = 2 then putBytes (fun _ => 0) 8 (le32 0x0FFFFFFF)
      else fun _ => 0
    transfers := fun _ => true
    memory := fun _ => true }

def twoFatVolume : Fat32Fs :=
  { partitionLba := 0, sectorsPerCluster := 1, fatStartLba := 1, fatSize := 1, dataStartLba := 3
    rootCluster := 2, totalClusters := 2 }

def newFile : FatNode :=
  { name := [0x46], flags := vfsFile, length := 0, inode := 0, parent := none, ptr := none
    cluster := 0, fileSize := 0, attr := fat32AttrArchive, parentCluster := some 2 }

theorem twoFatDisk_mounted : twoFatDisk.fat32Mount 0 = (.mounted twoFatVolume, twoFatDisk) := by
  have volume : (twoFatDisk.fat32Mount 0).1 = .mounted twoFatVolume := by
    rw [mount_eq]
    rfl
  have same : (twoFatDisk.fat32Mount 0).2 = twoFatDisk := rfl
  exact Prod.ext volume same

theorem twoFatDisk_closed :
    (twoFatDisk.view twoFatVolume).Closed twoFatVolume twoFatVolume.HasCluster := by
  have last : ∀ cluster < 4, (twoFatDisk.view twoFatVolume).next cluster = 0 := by decide
  refine ⟨fun cluster has => has, fun cluster has => .inl (last cluster has.2), ?_⟩
  exact fun cluster has _ => has

theorem twoFatDisk_agree : CopiesAgree twoFatVolume 2 twoFatDisk := by
  intro copy below i inside
  have first : i = 0 := by
    change i < 1 at inside
    omega
  subst first
  cases copy with
  | zero => rfl
  | succ copy =>
      obtain rfl : copy = 0 := by omega
      rfl

/-- A file is created and a byte is written to it: the first FAT has its cluster, the second one
does not. -/
theorem copies_diverge : ∃ created written,
    twoFatDisk.fat32Mount 0 = (.mounted twoFatVolume, twoFatDisk) ∧ twoFatVolume.Sound ∧
    CopiesAgree twoFatVolume 2 twoFatDisk ∧
    volumeStep twoFatVolume twoFatDisk (.create emptyRoot [0x66] vfsFile) = some (0, created) ∧
    volumeStep twoFatVolume created (.write newFile 0 [0x58]) = some (1, written) ∧
    ¬ CopiesAgree twoFatVolume 2 written := by
  have run : ((volumeStep twoFatVolume twoFatDisk (.create emptyRoot [0x66] vfsFile)).bind
      fun first => (volumeStep twoFatVolume first.2 (.write newFile 0 [0x58])).map fun second =>
        (first.1, second.1, second.2.sectors 1 12, second.2.sectors 2 12)) =
      some (0, 1, 0xFF, 0) := by decide +kernel
  obtain ⟨⟨code, created⟩, isCreated, wrote⟩ := Option.bind_eq_some_iff.mp run
  obtain ⟨⟨result, written⟩, isWritten, outcome⟩ := Option.map_eq_some_iff.mp wrote
  simp only [Prod.mk.injEq] at outcome
  obtain ⟨rfl, rfl, first, second⟩ := outcome
  refine ⟨created, written, twoFatDisk_mounted, by constructor <;> decide, twoFatDisk_agree,
    isCreated, isWritten, fun agree => ?_⟩
  have same : written.sectors 2 12 = written.sectors 1 12 :=
    congrFun (agree 1 (by decide) 0 (by decide)) 12
  rw [first, second] at same
  exact absurd same (by decide)

theorem fat_copies_agree_iff_created : ∃ created,
    volumeStep twoFatVolume twoFatDisk (.create emptyRoot [0x66] vfsFile) = some (0, created) ∧
    (CopiesAgree twoFatVolume 2 created ↔ 2 ≤ 1 ∨ ∀ i < twoFatVolume.fatSize,
      created.sectors (twoFatVolume.copyLba 0 i) = twoFatDisk.sectors (twoFatVolume.copyLba 0 i)) := by
  have run : (volumeStep twoFatVolume twoFatDisk (.create emptyRoot [0x66] vfsFile)).map
      Prod.fst = some 0 := by decide +kernel
  obtain ⟨⟨code, created⟩, isCreated, isCode⟩ := Option.map_eq_some_iff.mp run
  obtain rfl : code = 0 := isCode
  have valid : VolumeCall.Valid twoFatVolume twoFatDisk (.create emptyRoot [0x66] vfsFile) := by
    right
    decide
  have reached : Reachable (· = twoFatDisk)
      (Restricted (fun d call => VolumeCall.Valid twoFatVolume d call)
        fun d call after => ∃ code, volumeStep twoFatVolume d call = some (code, after)) created :=
    .next (.start rfl) ⟨valid, 0, isCreated⟩
  exact ⟨created, isCreated, (fat_copies_agree_iff twoFatDisk_mounted
    (by constructor <;> decide) (by decide) twoFatDisk_closed twoFatDisk_agree reached).2⟩

end ZurichOS
