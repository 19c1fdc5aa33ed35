import ZurichOS.FatImage
import ZurichOS.Traced

set_option linter.all false

/-!
Which boot sectors and cluster numbers keep the driver inside the volume.  `fat32_mount` takes
the geometry from the boot sector as it is, and the operations on clusters compute sectors from
any cluster number.
-/

namespace ZurichOS

open ByteBuffer Words Traced

/-- A computation on the drive, with the sectors that it asks the drive for. -/
abbrev Transfers (α : Type) := Program Disk Nat α

def transferRead (lba : Nat) : Transfers (Option Buffer) := do
  emit lba
  silent fun d => ataReadSector d lba

def transferWrite (lba : Nat) (buf : Buffer) : Transfers Bool := do
  emit lba
  silent fun d => ataWriteSector d lba buf

section Operations

variable (fs : Fat32Fs)

def tracedNextCluster (cluster : Nat) : Transfers Nat := do
  match ← transferRead (u32 (fs.partitionLba + fatSector fs cluster)) with
  | none => pure 0
  | some buf =>
      let next := word32 buf (entryOffset cluster) &&& 0x0FFFFFFF
      pure (if fat32ClusterEnd ≤ next then 0 else next)

def tracedSetCluster (cluster value : Nat) : Transfers Bool := do
  match ← transferRead (u32 (fs.partitionLba + fatSector fs cluster)) with
  | none => pure false
  | some buf =>
      let oldValue := word32 buf (entryOffset cluster)
      let value := (oldValue &&& 0xF0000000) ||| (value &&& 0x0FFFFFFF)
      transferWrite (u32 (fs.partitionLba + fatSector fs cluster))
        (putBytes buf (entryOffset cluster) (le32 value))

def tracedAllocFrom : (left cluster : Nat) → Transfers Nat
  | 0, _ => pure 0
  | left + 1, cluster => do
      match ← transferRead (u32 (fs.partitionLba + fatSector fs cluster)) with
      | none => tracedAllocFrom left (cluster + 1)
      | some buf =>
          if word32 buf (entryOffset cluster) &&& 0x0FFFFFFF = 0 then do
            let _ ← transferWrite (u32 (fs.partitionLba + fatSector fs cluster))
              (putBytes buf (entryOffset cluster) (le32 0x0FFFFFFF))
            pure cluster
          else tracedAllocFrom left (cluster + 1)

def tracedReadSectors (lba : Nat) : (left i : Nat) → Buffer → Transfers (Option Buffer)
  | 0, _, buf => pure (some buf)
  | left + 1, i, buf => do
      match ← transferRead (u32 (fs.partitionLba + lba + i)) with
      | none => pure none
      | some sector =>
          tracedReadSectors lba left (i + 1) (putBytes buf (i * 512) (bytesAt sector 0 512))

def tracedReadCluster (cluster : Nat) : Transfers (Option Buffer) :=
  if cluster < 2 then pure none
  else tracedReadSectors fs (clusterToLba fs cluster) fs.sectorsPerCluster 0 (fun _ => 0)

def tracedWriteSectors (lba : Nat) (buf : Buffer) : (left i : Nat) → Transfers Bool
  | 0, _ => pure true
  | left + 1, i => do
      if ← transferWrite (u32 (fs.partitionLba + lba + i)) (fun j => buf (i * 512 + j)) then
        tracedWriteSectors lba buf left (i + 1)
      else pure false

def tracedWriteCluster (cluster : Nat) (buf : Buffer) : Transfers Bool :=
  if cluster < 2 then pure false
  else tracedWriteSectors fs (clusterToLba fs cluster) buf fs.sectorsPerCluster 0

def tracedAllocCluster : Transfers Nat :=
  tracedAllocFrom fs (u32 (fs.totalClusters + 2) - 2) 2

end Operations

section Outcomes

variable (fs : Fat32Fs) (d : Disk)

@[simp] theorem outcome_transferRead (lba : Nat) :
    (transferRead lba).outcome d = ataReadSector d lba := by
  simp [transferRead]

@[simp] theorem outcome_transferWrite (lba : Nat) (buf : Buffer) :
    (transferWrite lba buf).outcome d = ataWriteSector d lba buf := by
  simp [transferWrite]

theorem outcome_nextCluster (cluster : Nat) :
    (tracedNextCluster fs cluster).outcome d = fat32NextCluster fs d cluster := by
  rw [tracedNextCluster, outcome_bind, outcome_transferRead, fat32NextCluster,
    fat32ReadSectorInternal]
  rcases ataReadSector d _ with ⟨_ | buf, later⟩ <;> rfl

theorem outcome_setCluster (cluster value : Nat) :
    (tracedSetCluster fs cluster value).outcome d = fat32SetCluster fs d cluster value := by
  rw [tracedSetCluster, outcome_bind, outcome_transferRead, fat32SetCluster,
    fat32ReadSectorInternal]
  rcases ataReadSector d _ with ⟨_ | buf, later⟩
  · rfl
  · exact outcome_transferWrite ..

theorem outcome_allocFrom (left cluster : Nat) :
    (tracedAllocFrom fs left cluster).outcome d = allocFrom fs left cluster d := by
  induction left generalizing d cluster with
  | zero => rfl
  | succ left ih =>
      rw [tracedAllocFrom, outcome_bind, outcome_transferRead, allocFrom, fat32ReadSectorInternal]
      rcases ataReadSector d _ with ⟨_ | buf, later⟩
      · exact ih ..
      · dsimp only
        rw [outcome_ite, outcome_bind, outcome_transferWrite, ih]
        rfl

theorem outcome_allocCluster :
    (tracedAllocCluster fs).outcome d = fat32AllocCluster fs d :=
  outcome_allocFrom ..

theorem outcome_readSectors (lba left i : Nat) (buf : Buffer) :
    (tracedReadSectors fs lba left i buf).outcome d = readSectors fs lba left i buf d := by
  induction left generalizing d i buf with
  | zero => rfl
  | succ left ih =>
      rw [tracedReadSectors, outcome_bind, outcome_transferRead, readSectors]
      rcases ataReadSector d _ with ⟨_ | sector, later⟩
      · rfl
      · exact ih ..

theorem outcome_readCluster (cluster : Nat) :
    (tracedReadCluster fs cluster).outcome d = fat32ReadCluster fs d cluster := by
  rw [tracedReadCluster, outcome_ite, outcome_readSectors]
  rfl

theorem outcome_writeSectors (lba left i : Nat) (buf : Buffer) :
    (tracedWriteSectors fs lba buf left i).outcome d = writeSectors fs lba buf left i d := by
  induction left generalizing d i with
  | zero => rfl
  | succ left ih =>
      rw [tracedWriteSectors, outcome_bind, outcome_transferWrite, writeSectors]
      rcases ataWriteSector d _ _ with ⟨_ | _, later⟩
      · rfl
      · exact ih ..

theorem outcome_writeCluster (cluster : Nat) (buf : Buffer) :
    (tracedWriteCluster fs cluster buf).outcome d = fat32WriteCluster fs d cluster buf := by
  rw [tracedWriteCluster, outcome_ite, outcome_writeSectors]
  rfl

end Outcomes

section Accesses

variable {fs : Fat32Fs} {d : Disk} {cluster : Nat} (good : Nat → Prop)

/-- The address of the sector that has the FAT entry of the cluster. -/
def Fat32Fs.entryAddress (fs : Fat32Fs) (cluster : Nat) : Nat :=
  u32 (fs.partitionLba + fatSector fs cluster)

/-- The address of the given sector of the cluster. -/
def Fat32Fs.clusterAddress (fs : Fat32Fs) (cluster part : Nat) : Nat :=
  u32 (fs.partitionLba + clusterToLba fs cluster + part)

@[simp] theorem all_transferRead (lba : Nat) : (transferRead lba).All good d ↔ good lba := by
  simp [transferRead]

@[simp] theorem all_transferWrite (lba : Nat) (buf : Buffer) :
    (transferWrite lba buf).All good d ↔ good lba := by
  simp [transferWrite]

theorem all_nextCluster :
    (tracedNextCluster fs cluster).All good d ↔ good (fs.entryAddress cluster) := by
  rw [tracedNextCluster, all_bind, all_transferRead, outcome_transferRead]
  apply and_iff_left
  rcases ataReadSector d _ with ⟨_ | buf, later⟩ <;> exact all_pure _ _ _

theorem all_setCluster (value : Nat) :
    (tracedSetCluster fs cluster value).All good d ↔ good (fs.entryAddress cluster) := by
  rw [tracedSetCluster, all_bind, all_transferRead, outcome_transferRead]
  rcases ataReadSector d _ with ⟨_ | buf, later⟩
  · exact and_iff_left (all_pure _ _ _)
  · exact (and_congr_right fun _ => all_transferWrite ..).trans (and_self_iff ..)

/-- The search for a free cluster passes the cluster over: its entry cannot be read, or is not
free. -/
def Disk.Passes (d : Disk) (fs : Fat32Fs) (first step : Nat) : Prop :=
  d.transfers step = true → d.entryWord fs (first + step) &&& 0x0FFFFFFF ≠ 0

theorem passes_succ {first step : Nat} :
    d.Passes fs first (step + 1) ↔ (d.advance 1).Passes fs (first + 1) step := by
  rw [Disk.Passes, Disk.Passes, Nat.add_assoc, Nat.add_comm 1 step]
  rfl

theorem scanned_succ {left first : Nat} :
    (∀ step < left + 1, (∀ earlier < step, d.Passes fs first earlier) →
      good (fs.entryAddress (first + step))) ↔
    good (fs.entryAddress first) ∧ (d.Passes fs first 0 → ∀ step < left,
      (∀ earlier < step, (d.advance 1).Passes fs (first + 1) earlier) →
        good (fs.entryAddress (first + 1 + step))) := by
  constructor
  · intro all
    refine ⟨all 0 (by omega) fun earlier none => absurd none (Nat.not_lt_zero earlier), ?_⟩
    intro passed step below before
    rw [Nat.add_right_comm]
    refine all (step + 1) (by omega) fun earlier below => ?_
    cases earlier with
    | zero => exact passed
    | succ earlier => exact passes_succ.mpr (before earlier (by omega))
  · rintro ⟨here, later⟩ step below before
    cases step with
    | zero => exact here
    | succ step =>
        rw [← Nat.add_assoc, Nat.add_right_comm]
        refine later (before 0 (by omega)) step (by omega) fun earlier below => ?_
        exact passes_succ.mp (before (earlier + 1) (by omega))

theorem all_allocFrom (left first : Nat) :
    (tracedAllocFrom fs left first).All good d ↔
      ∀ step < left, (∀ earlier < step, d.Passes fs first earlier) →
        good (fs.entryAddress (first + step)) := by
  induction left generalizing d first with
  | zero => exact iff_of_true (all_pure _ _ _) fun step below => absurd below (Nat.not_lt_zero step)
  | succ left ih =>
      rw [scanned_succ, tracedAllocFrom, all_bind, all_transferRead, outcome_transferRead,
        readSector_eq]
      apply and_congr_right
      intro here
      by_cases read : d.transfers 0 = true
      · rw [if_pos read]
        dsimp only
        rw [all_ite]
        change ite (d.entryWord fs first &&& 0x0FFFFFFF = 0) _ _ ↔ _
        by_cases free : d.entryWord fs first &&& 0x0FFFFFFF = 0
        · have stops : ¬ d.Passes fs first 0 := fun passed => passed read free
          rw [if_pos free, iff_true_right fun passed => absurd passed stops, all_bind]
          exact ⟨(all_transferWrite ..).mpr here, all_pure _ _ _⟩
        · have passed : d.Passes fs first 0 := fun _ => free
          rw [if_neg free, ih, imp_iff_right passed]
      · have passed : d.Passes fs first 0 := fun isRead => absurd isRead read
        rw [if_neg read, imp_iff_right passed]
        exact ih _

/-- How many of that many sectors are asked for, if the first failure ends the loop. -/
def Disk.tried (d : Disk) : Nat → Nat
  | 0 => 0
  | left + 1 => if d.transfers 0 = true then (d.advance 1).tried left + 1 else 1

theorem tried_positive {left : Nat} (positive : 0 < left) : 0 < d.tried left := by
  cases left with
  | zero => exact absurd positive (Nat.lt_irrefl 0)
  | succ left =>
      rw [Disk.tried]
      split <;> omega

theorem below_tried_succ {left : Nat} (i : Nat) :
    (∀ part < d.tried (left + 1), good (i + part)) ↔
      good i ∧ (d.transfers 0 = true → ∀ part < (d.advance 1).tried left, good (i + 1 + part)) := by
  rw [Disk.tried]
  by_cases read : d.transfers 0 = true
  · rw [if_pos read, imp_iff_right read]
    constructor
    · intro all
      refine ⟨all 0 (by omega), fun part below => ?_⟩
      have later := all (part + 1) (by omega)
      rwa [← Nat.add_assoc, Nat.add_right_comm] at later
    · rintro ⟨here, later⟩ part below
      cases part with
      | zero => exact here
      | succ part =>
          rw [← Nat.add_assoc, Nat.add_right_comm]
          exact later part (by omega)
  · rw [if_neg read]
    constructor
    · intro all
      exact ⟨all 0 (by omega), fun isRead => absurd isRead read⟩
    · rintro ⟨here, _⟩ part below
      obtain rfl : part = 0 := by omega
      exact here

theorem all_readSectors (lba left i : Nat) (buf : Buffer) :
    (tracedReadSectors fs lba left i buf).All good d ↔
      ∀ part < d.tried left, good (u32 (fs.partitionLba + lba + (i + part))) := by
  induction left generalizing d i buf with
  | zero => exact iff_of_true (all_pure _ _ _) fun part below => absurd below (Nat.not_lt_zero part)
  | succ left ih =>
      rw [below_tried_succ (fun part => good (u32 (fs.partitionLba + lba + part))),
        tracedReadSectors, all_bind, all_transferRead, outcome_transferRead, readSector_eq]
      apply and_congr_right
      intro here
      by_cases read : d.transfers 0 = true
      · rw [if_pos read, imp_iff_right read]
        exact ih _ _
      · rw [if_neg read]
        exact iff_of_true (all_pure _ _ _) fun isRead => absurd isRead read

theorem put_tried (lba : Nat) (buf : Buffer) (left : Nat) :
    (d.put lba buf).tried left = d.tried left := by
  induction left generalizing d with
  | zero => rfl
  | succ left ih =>
      rw [Disk.tried, Disk.tried]
      exact congrArg (fun later => if d.transfers 0 = true then later + 1 else 1) (@ih (d.advance 1))

theorem all_writeSectors (lba left i : Nat) (buf : Buffer) :
    (tracedWriteSectors fs lba buf left i).All good d ↔
      ∀ part < d.tried left, good (u32 (fs.partitionLba + lba + (i + part))) := by
  induction left generalizing d i with
  | zero => exact iff_of_true (all_pure _ _ _) fun part below => absurd below (Nat.not_lt_zero part)
  | succ left ih =>
      rw [below_tried_succ (fun part => good (u32 (fs.partitionLba + lba + part))),
        tracedWriteSectors, all_bind, all_transferWrite, outcome_transferWrite, writeSector_eq]
      apply and_congr_right
      intro here
      by_cases written : d.transfers 0 = true
      · rw [if_pos written, imp_iff_right written, if_pos written, ih, put_tried]
      · rw [if_neg written]
        exact iff_of_true (all_pure _ _ _) fun isWritten => absurd isWritten written

/-- Both loops over the sectors of a cluster go up to the first failure. -/
theorem all_readCluster :
    (tracedReadCluster fs cluster).All good d ↔
      (2 ≤ cluster → ∀ part < d.tried fs.sectorsPerCluster, good (fs.clusterAddress cluster part)) := by
  rw [tracedReadCluster, all_ite]
  by_cases low : cluster < 2
  · rw [if_pos low]
    exact iff_of_true (all_pure _ _ _) fun valid => absurd low (Nat.not_lt.mpr valid)
  · rw [if_neg low, imp_iff_right (Nat.not_lt.mp low), all_readSectors]
    simp only [Nat.zero_add, Fat32Fs.clusterAddress]

theorem all_writeCluster (buf : Buffer) :
    (tracedWriteCluster fs cluster buf).All good d ↔
      (2 ≤ cluster → ∀ part < d.tried fs.sectorsPerCluster, good (fs.clusterAddress cluster part)) := by
  rw [tracedWriteCluster, all_ite]
  by_cases low : cluster < 2
  · rw [if_pos low]
    exact iff_of_true (all_pure _ _ _) fun valid => absurd low (Nat.not_lt.mpr valid)
  · rw [if_neg low, imp_iff_right (Nat.not_lt.mp low), all_writeSectors]
    simp only [Nat.zero_add, Fat32Fs.clusterAddress]

end Accesses

section Geometry

variable {bpb : Buffer} {partitionLba cluster count : Nat}

/-- The sectors in front of the data region. -/
def dataOffset (bpb : Buffer) : Nat := bpbReservedSectors bpb + bpbNumFats bpb * bpbFatSize32 bpb

/-- The sector lies in the FAT region that the boot sector describes, and in the volume. -/
def InFatRegion (bpb : Buffer) (partitionLba lba : Nat) : Prop :=
  partitionLba + bpbReservedSectors bpb ≤ lba ∧ lba < partitionLba + dataOffset bpb ∧
    lba < partitionLba + bpbTotalSectors32 bpb

/-- The sector lies in the data region that the boot sector describes. -/
def InDataRegion (bpb : Buffer) (partitionLba lba : Nat) : Prop :=
  partitionLba + dataOffset bpb ≤ lba ∧ lba < partitionLba + bpbTotalSectors32 bpb

/-- The volume that `fat32_mount` makes of a boot sector. -/
def bpbVolume (bpb : Buffer) (partitionLba : Nat) : Fat32Fs :=
  { partitionLba := partitionLba
    sectorsPerCluster := bpbSectorsPerCluster bpb
    fatStartLba := bpbReservedSectors bpb
    fatSize := bpbFatSize32 bpb
    dataStartLba := bpbDataStart bpb
    rootCluster := bpbRootCluster bpb
    totalClusters :=
      sub32 (bpbTotalSectors32 bpb) (bpbDataStart bpb) / bpbSectorsPerCluster bpb }

/-- The entry of the cluster is in a sector of the FATs, and addresses do not overflow. -/
structure FatFits (bpb : Buffer) (partitionLba cluster : Nat) : Prop where
  region : u32 (cluster * 4) / 512 < bpbNumFats bpb * bpbFatSize32 bpb
  volume : bpbReservedSectors bpb + u32 (cluster * 4) / 512 < bpbTotalSectors32 bpb
  address : partitionLba + bpbReservedSectors bpb + u32 (cluster * 4) / 512 < 4294967296

/-- That many sectors from the start of the cluster on are in the volume, and addresses do not
overflow. -/
structure DataFits (bpb : Buffer) (partitionLba cluster count : Nat) : Prop where
  volume : dataOffset bpb + u32 ((cluster - 2) * bpbSectorsPerCluster bpb) + count ≤
    bpbTotalSectors32 bpb
  address : partitionLba + dataOffset bpb + u32 ((cluster - 2) * bpbSectorsPerCluster bpb) + count ≤
    4294967296

theorem bpbReservedSectors_lt : bpbReservedSectors bpb < 65536 := word16_lt _

theorem bpbTotalSectors32_lt : bpbTotalSectors32 bpb < 4294967296 := word32_lt _

theorem entryAddress_fits :
    InFatRegion bpb partitionLba ((bpbVolume bpb partitionLba).entryAddress cluster) ↔
      FatFits bpb partitionLba cluster := by
  have reserved := @bpbReservedSectors_lt bpb
  have entries : u32 (cluster * 4) / 512 < 8388608 := by
    have word := u32_lt (cluster * 4)
    omega
  have address : (bpbVolume bpb partitionLba).entryAddress cluster =
      (partitionLba + (bpbReservedSectors bpb + u32 (cluster * 4) / 512)) % 4294967296 := by
    have sector : u32 (bpbReservedSectors bpb + u32 (cluster * 4) / 512) =
        bpbReservedSectors bpb + u32 (cluster * 4) / 512 := u32_eq_of_lt (by omega)
    change u32 (partitionLba + u32 (bpbReservedSectors bpb + u32 (cluster * 4) / 512)) = _
    rw [sector, u32]
  rw [address, InFatRegion, dataOffset]
  constructor
  · rintro ⟨lower, region, volume⟩
    refine ⟨?_, ?_, ?_⟩ <;> omega
  · rintro ⟨region, volume, address⟩
    omega

theorem clusterAddress_eq (part : Nat) :
    (bpbVolume bpb partitionLba).clusterAddress cluster part =
      (partitionLba + dataOffset bpb + u32 ((cluster - 2) * bpbSectorsPerCluster bpb) + part) %
        4294967296 := by
  change u32 (partitionLba + u32 (bpbDataStart bpb + (cluster - 2) * bpbSectorsPerCluster bpb) +
    part) = _
  rw [bpbDataStart, dataOffset]
  generalize (cluster - 2) * bpbSectorsPerCluster bpb = x
  generalize bpbNumFats bpb * bpbFatSize32 bpb = fats
  unfold u32
  omega

/-- Addresses that wrap round leave the region: they get below its start. -/
theorem clusterAddress_fits (positive : 0 < count) :
    (∀ part < count,
      InDataRegion bpb partitionLba ((bpbVolume bpb partitionLba).clusterAddress cluster part)) ↔
      DataFits bpb partitionLba cluster count := by
  have total := @bpbTotalSectors32_lt bpb
  have word := u32_lt ((cluster - 2) * bpbSectorsPerCluster bpb)
  simp only [InDataRegion, clusterAddress_eq]
  constructor
  · intro inside
    have first := inside 0 positive
    have unwrapped : partitionLba + dataOffset bpb +
        u32 ((cluster - 2) * bpbSectorsPerCluster bpb) < 4294967296 := by omega
    have address : partitionLba + dataOffset bpb +
        u32 ((cluster - 2) * bpbSectorsPerCluster bpb) + count ≤ 4294967296 := by
      by_contra wraps
      -- the region has address 0, and the last address before it as well
      have wrapped := inside (4294967296 - (partitionLba + dataOffset bpb +
        u32 ((cluster - 2) * bpbSectorsPerCluster bpb))) (by omega)
      have before := inside (4294967296 - (partitionLba + dataOffset bpb +
        u32 ((cluster - 2) * bpbSectorsPerCluster bpb)) - 1) (by omega)
      omega
    have last := inside (count - 1) (by omega)
    exact ⟨by omega, address⟩
  · rintro ⟨volume, address⟩ part below
    omega

end Geometry

section Mounted

variable {d now : Disk} {partitionLba : Nat} {op : FatOperation}

/-- The operations on the FAT and on clusters. -/
inductive FatOperation where
  | next (cluster : Nat)
  | set (cluster value : Nat)
  | alloc
  | readCluster (cluster : Nat)
  | writeCluster (cluster : Nat) (buf : Buffer)

/-- All sectors that the operation asks for lie in the region that it is for. -/
def FatOperation.Inside (bpb : Buffer) (fs : Fat32Fs) (d : Disk) : FatOperation → Prop
  | .next cluster => (tracedNextCluster fs cluster).All (InFatRegion bpb fs.partitionLba) d
  | .set cluster value =>
      (tracedSetCluster fs cluster value).All (InFatRegion bpb fs.partitionLba) d
  | .alloc => (tracedAllocCluster fs).All (InFatRegion bpb fs.partitionLba) d
  | .readCluster cluster =>
      (tracedReadCluster fs cluster).All (InDataRegion bpb fs.partitionLba) d
  | .writeCluster cluster buf =>
      (tracedWriteCluster fs cluster buf).All (InDataRegion bpb fs.partitionLba) d

/-- The cluster of the operation fits into the volume; for a search, all clusters up to the
first free one do. -/
def FatOperation.Fits (bpb : Buffer) (fs : Fat32Fs) (d : Disk) : FatOperation → Prop
  | .next cluster => FatFits bpb fs.partitionLba cluster
  | .set cluster _ => FatFits bpb fs.partitionLba cluster
  | .alloc => ∀ step < u32 (fs.totalClusters + 2) - 2,
      (∀ earlier < step, d.Passes fs 2 earlier) → FatFits bpb fs.partitionLba (2 + step)
  | .readCluster cluster => 2 ≤ cluster →
      DataFits bpb fs.partitionLba cluster (d.tried fs.sectorsPerCluster)
  | .writeCluster cluster _ => 2 ≤ cluster →
      DataFits bpb fs.partitionLba cluster (d.tried fs.sectorsPerCluster)

theorem operation_inside_iff {bpb : Buffer} (positive : bpbSectorsPerCluster bpb ≠ 0) :
    op.Inside bpb (bpbVolume bpb partitionLba) now ↔
      op.Fits bpb (bpbVolume bpb partitionLba) now := by
  have tried := @tried_positive now _ (Nat.pos_of_ne_zero positive)
  cases op with
  | next cluster => exact (all_nextCluster _).trans entryAddress_fits
  | set cluster value => exact (all_setCluster _ value).trans entryAddress_fits
  | alloc =>
      refine (all_allocFrom _ _ _).trans (forall₃_congr fun step below before => ?_)
      exact entryAddress_fits
  | readCluster cluster =>
      exact (all_readCluster _).trans (imp_congr_right fun _ => clusterAddress_fits tried)
  | writeCluster cluster buf =>
      exact (all_writeCluster _ buf).trans (imp_congr_right fun _ => clusterAddress_fits tried)

/-- The boot sector of the partition. -/
def Disk.bootSector (d : Disk) (partitionLba : Nat) : Buffer :=
  d.sectors (partitionLba % ataAddressable)

/-- What `fat32_mount` asks for. -/
structure Accepted (d : Disk) (partitionLba : Nat) : Prop where
  read : d.transfers 0 = true
  signature : bpbBootSignature (d.bootSector partitionLba) = 0x29
  fatSize16 : bpbFatSize16 (d.bootSector partitionLba) = 0
  sectorSize : bpbBytesPerSector (d.bootSector partitionLba) = 512
  memory : d.memory 0 = true

theorem mount_eq : (d.fat32Mount partitionLba).1 =
    if d.transfers 0 = true then
      if bpbBootSignature (d.bootSector partitionLba) ≠ 0x29 then .refused
      else if bpbFatSize16 (d.bootSector partitionLba) ≠ 0 then .refused
      else if bpbBytesPerSector (d.bootSector partitionLba) ≠ 512 then .refused
      else if d.memory 0 = true then
        if bpbSectorsPerCluster (d.bootSector partitionLba) = 0 then .divideError
        else .mounted (bpbVolume (d.bootSector partitionLba) partitionLba)
      else .refused
    else .refused := by
  have memory : (d.advance 1).kmalloc = (d.memory 0, (d.advance 1).granted) := rfl
  rw [Disk.fat32Mount, readSector_eq]
  by_cases read : d.transfers 0 = true
  · rw [if_pos read, if_pos read, Disk.bootSector]
    dsimp only
    rw [memory]
    cases d.memory 0 with
    | false =>
        rw [if_neg Bool.false_ne_true]
        split_ifs <;> rfl
    | true =>
        rw [if_pos rfl]
        split_ifs <;> rfl
  · rw [if_neg read, if_neg read]

theorem mount_refused (refused : ¬ Accepted d partitionLba) :
    (d.fat32Mount partitionLba).1 = .refused := by
  rw [mount_eq]
  split_ifs with read signature fatSize16 sectorSize memory
  all_goals first
    | rfl
    | exact absurd ⟨read, not_not.mp signature, not_not.mp fatSize16, not_not.mp sectorSize,
        memory⟩ refused

theorem mount_accepted (accepted : Accepted d partitionLba) :
    (d.fat32Mount partitionLba).1 =
      if bpbSectorsPerCluster (d.bootSector partitionLba) = 0 then .divideError
      else .mounted (bpbVolume (d.bootSector partitionLba) partitionLba) := by
  rw [mount_eq, if_pos accepted.read, if_neg (not_not.mpr accepted.signature),
    if_neg (not_not.mpr accepted.fatSize16), if_neg (not_not.mpr accepted.sectorSize),
    if_pos accepted.memory]

/-- Mounting divides by no zero and computes no size below zero, and once it has succeeded the
operation stays in its region, whatever the drive then holds. -/
structure StaysInside (d : Disk) (partitionLba : Nat) (now : Disk) (op : FatOperation) : Prop where
  divides : (d.fat32Mount partitionLba).1 ≠ .divideError
  sized : Accepted d partitionLba →
    bpbDataStart (d.bootSector partitionLba) ≤ bpbTotalSectors32 (d.bootSector partitionLba)
  inside : ∀ fs, (d.fat32Mount partitionLba).1 = .mounted fs →
    op.Inside (d.bootSector partitionLba) fs now

/-- A volume of ten sectors with one FAT of one sector and eight clusters of that size. -/
def tenSectorDisk (sectorsPerCluster : UInt8) : Disk :=
  { sectors := fun _ i =>
      if i = 12 ∨ i = 44 then 2
      else if i = 13 then sectorsPerCluster
      else if i = 14 ∨ i = 16 ∨ i = 36 then 1
      else if i = 32 then 10
      else if i = 66 then 0x29 else 0
    transfers := fun _ => true
    memory := fun _ => true }

theorem tenSectorDisk_accepted (sectorsPerCluster : UInt8) :
    Accepted (tenSectorDisk sectorsPerCluster) 0 := by
  constructor <;> rfl

end Mounted

end ZurichOS
