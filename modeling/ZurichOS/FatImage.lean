import ZurichOS.FatCore

/-!
The driver's transfers on an image of any contents and geometry: what the operations on
clusters read and write, and how many of the drive's transfers they take.
-/

namespace ZurichOS

open ByteBuffer Words

variable {fs : Fat32Fs} {d : Disk} {cluster : Nat}

/-- The drive after that many transfers. -/
def Disk.advance (d : Disk) (count : Nat) : Disk :=
  { d with transfers := fun n => d.transfers (n + count) }

/-- The drive after one allocation. -/
def Disk.granted (d : Disk) : Disk := { d with memory := fun n => d.memory (n + 1) }

/-- All transfers to come succeed. -/
def Disk.Steady (d : Disk) : Prop := ∀ n, d.transfers n = true

/-- The next transfers succeed. -/
def Disk.SteadyFor (d : Disk) (count : Nat) : Prop := ∀ n < count, d.transfers n = true

def Disk.put (d : Disk) (lba : Nat) (buf : Buffer) : Disk :=
  { d with sectors := Function.update d.sectors lba buf }

/-- The same drive with other contents. -/
def Disk.withSectors (d : Disk) (sectors : Nat → Buffer) : Disk := { d with sectors }

/-- The sector of the drive that has the FAT entry of the cluster. -/
def Fat32Fs.entryLba (fs : Fat32Fs) (cluster : Nat) : Nat :=
  u32 (fs.partitionLba + fatSector fs cluster) % ataAddressable

/-- The sector of the drive that has the given part of the cluster. -/
def Fat32Fs.clusterLba (fs : Fat32Fs) (cluster part : Nat) : Nat :=
  u32 (fs.partitionLba + clusterToLba fs cluster + part) % ataAddressable

def Disk.entryWord (d : Disk) (fs : Fat32Fs) (cluster : Nat) : Nat :=
  word32 (d.sectors (fs.entryLba cluster)) (entryOffset cluster)

/-- The cluster that `fat32_next_cluster` goes to when it can read the entry. -/
def Disk.link (d : Disk) (fs : Fat32Fs) (cluster : Nat) : Nat :=
  let next := d.entryWord fs cluster &&& 0x0FFFFFFF
  if fat32ClusterEnd ≤ next then 0 else next

def Disk.loaded (d : Disk) (fs : Fat32Fs) (cluster : Nat) : Buffer := fun i =>
  if i < fs.clusterSize then d.sectors (fs.clusterLba cluster (i / 512)) (i % 512) else 0

theorem link_lt : d.link fs cluster < fat32ClusterEnd := by
  rw [Disk.link]
  split
  · decide
  · omega

section Advance

variable (d)

@[simp] theorem advance_advance (first second : Nat) :
    (d.advance first).advance second = d.advance (first + second) := by
  simp only [Disk.advance, Nat.add_assoc, Nat.add_comm second first]

@[simp] theorem advance_sectors (count : Nat) : (d.advance count).sectors = d.sectors := rfl

@[simp] theorem advance_transfers (count n : Nat) :
    (d.advance count).transfers n = d.transfers (n + count) := rfl

@[simp] theorem advance_link (count : Nat) : (d.advance count).link fs = d.link fs := rfl

theorem steadyFor_advance {first second : Nat} :
    d.SteadyFor (first + second) ↔ d.SteadyFor first ∧ (d.advance first).SteadyFor second := by
  constructor
  · intro steady
    refine ⟨fun n below => steady n (by omega), fun n below => ?_⟩
    exact steady (n + first) (by omega)
  · rintro ⟨early, late⟩ n below
    by_cases isEarly : n < first
    · exact early n isEarly
    · have later := late (n - first) (by omega)
      rwa [advance_transfers, Nat.sub_add_cancel (Nat.le_of_not_lt isEarly)] at later

variable {d}

theorem Disk.Steady.advance (steady : d.Steady) (count : Nat) : d.advance count = d := by
  have later : (fun n => d.transfers (n + count)) = d.transfers := by
    funext n
    rw [steady, steady]
  rw [Disk.advance, later]

theorem Disk.Steady.for (steady : d.Steady) (count : Nat) : d.SteadyFor count :=
  fun n _ => steady n

theorem kmalloc_eq : d.kmalloc = (d.memory 0, d.granted) := rfl

theorem Disk.Steady.granted (steady : d.Steady) : d.granted.Steady := steady

theorem Disk.Steady.put (steady : d.Steady) (lba : Nat) (buf : Buffer) :
    (d.put lba buf).Steady := steady

end Advance

section Reads

theorem readSector_eq (lba : Nat) : ataReadSector d lba =
    (if d.transfers 0 = true then some (d.sectors (lba % ataAddressable)) else none,
      d.advance 1) := rfl

theorem writeSector_eq (lba : Nat) (buf : Buffer) : ataWriteSector d lba buf =
    (d.transfers 0, if d.transfers 0 = true then (d.advance 1).put (lba % ataAddressable) buf
      else d.advance 1) := by
  have kept : d.transfer = (d.transfers 0, d.advance 1) := rfl
  rw [ataWriteSector, kept]
  cases d.transfers 0 <;> rfl

theorem nextCluster_eq : fat32NextCluster fs d cluster =
    (if d.transfers 0 = true then d.link fs cluster else 0, d.advance 1) := by
  rw [fat32NextCluster, fat32ReadSectorInternal, readSector_eq]
  by_cases read : d.transfers 0 = true
  · rw [if_pos read, if_pos read]
    rfl
  · rw [if_neg read, if_neg read]

theorem readSectors_steady (lba left i : Nat) (buf : Buffer) (steady : d.SteadyFor left) :
    readSectors fs lba left i buf d = (some fun k =>
      if i ≤ k / 512 ∧ k / 512 < i + left then
        d.sectors (u32 (fs.partitionLba + lba + k / 512) % ataAddressable) (k % 512)
      else buf k, d.advance left) := by
  induction left generalizing i buf d with
  | zero =>
      rw [readSectors]
      congr 2
      funext k
      rw [if_neg (by omega)]
  | succ left ih =>
      rw [Nat.add_comm, steadyFor_advance] at steady
      rw [readSectors, readSector_eq, if_pos (steady.1 0 (by omega))]
      dsimp only
      rw [ih _ _ steady.2, advance_advance, Nat.add_comm 1 left]
      congr 2
      funext k
      rw [advance_sectors]
      by_cases later : i + 1 ≤ k / 512 ∧ k / 512 < i + 1 + left
      · rw [if_pos later, if_pos (by omega)]
      · rw [if_neg later]
        by_cases here : k / 512 = i
        · have offset : 0 + (k - i * 512) = k % 512 := by omega
          rw [if_pos (by omega), putBytes_inside _ (by omega) (by rw [bytesAt_length]; omega),
            bytesAt_getD _ (by omega), offset, here]
        · rw [if_neg (by omega), putBytes_outside]
          rw [bytesAt_length]
          omega

theorem readSectors_fails (lba left i : Nat) (buf : Buffer) (failing : ¬ d.SteadyFor left) :
    ∃ taken, readSectors fs lba left i buf d = (none, d.advance taken) := by
  induction left generalizing i buf d with
  | zero => exact absurd (fun n below => absurd below (Nat.not_lt_zero n)) failing
  | succ left ih =>
      rw [readSectors, readSector_eq]
      by_cases read : d.transfers 0 = true
      · rw [if_pos read]
        have later : ¬ (d.advance 1).SteadyFor left := by
          intro steady
          apply failing
          rw [Nat.add_comm, steadyFor_advance]
          refine ⟨fun n below => ?_, steady⟩
          obtain rfl : n = 0 := by omega
          exact read
        obtain ⟨taken, failed⟩ := ih (i + 1) _ later
        refine ⟨1 + taken, ?_⟩
        dsimp only
        rw [failed, advance_advance]
      · rw [if_neg read]
        exact ⟨1, rfl⟩

theorem readCluster_steady (valid : 2 ≤ cluster) (steady : d.SteadyFor fs.sectorsPerCluster) :
    fat32ReadCluster fs d cluster =
      (some (d.loaded fs cluster), d.advance fs.sectorsPerCluster) := by
  rw [fat32ReadCluster, if_neg (by omega), readSectors_steady _ _ _ _ steady]
  congr 2
  funext k
  rw [Disk.loaded, Fat32Fs.clusterSize]
  by_cases inside : k < fs.sectorsPerCluster * 512
  · rw [if_pos inside, if_pos (by omega)]
    rfl
  · rw [if_neg inside, if_neg (by omega)]

theorem readCluster_fails (failing : cluster < 2 ∨ ¬ d.SteadyFor fs.sectorsPerCluster) :
    ∃ taken, fat32ReadCluster fs d cluster = (none, d.advance taken) := by
  rw [fat32ReadCluster]
  by_cases low : cluster < 2
  · rw [if_pos low]
    exact ⟨0, rfl⟩
  · rw [if_neg low]
    exact readSectors_fails _ _ _ _ (failing.resolve_left low)

end Reads

section Steady

theorem Disk.Steady.nextCluster (steady : d.Steady) :
    fat32NextCluster fs d cluster = (d.link fs cluster, d) := by
  rw [nextCluster_eq, if_pos (steady 0), steady.advance]

theorem Disk.Steady.readCluster (steady : d.Steady) :
    fat32ReadCluster fs d cluster = (if cluster < 2 then none else some (d.loaded fs cluster), d) := by
  by_cases low : cluster < 2
  · rw [fat32ReadCluster, if_pos low, if_pos low]
  · rw [readCluster_steady (by omega) (steady.for _), steady.advance, if_neg low]

theorem Disk.Steady.write (steady : d.Steady) (lba : Nat) (buf : Buffer) :
    ataWriteSector d lba buf = (true, d.put (lba % ataAddressable) buf) := by
  have kept : d.transfer = (true, d) := by
    rw [Disk.transfer, steady]
    exact congrArg _ (steady.advance 1)
  rw [ataWriteSector, kept]
  rfl

theorem Disk.Steady.setCluster (steady : d.Steady) (value : Nat) :
    fat32SetCluster fs d cluster value =
      (true, d.put (fs.entryLba cluster) (putBytes (d.sectors (fs.entryLba cluster))
        (entryOffset cluster)
        (le32 ((d.entryWord fs cluster &&& 0xF0000000) ||| (value &&& 0x0FFFFFFF))))) := by
  rw [fat32SetCluster, fat32ReadSectorInternal, readSector_eq, if_pos (steady 0),
    steady.advance]
  dsimp only
  rw [fat32WriteSectorInternal, steady.write]
  rfl

end Steady

section Memory

variable {buf : Buffer} {lba : Nat} {memory : Nat → Bool}

/-- The same drive with other allocations to come. -/
def Disk.withMemory (d : Disk) (memory : Nat → Bool) : Disk := { d with memory }

theorem withMemory_granted : (d.withMemory memory).granted =
    d.withMemory fun n => memory (n + 1) := rfl

theorem withMemory_read : ataReadSector (d.withMemory memory) lba =
    ((ataReadSector d lba).1, (ataReadSector d lba).2.withMemory memory) := rfl

theorem withMemory_write : ataWriteSector (d.withMemory memory) lba buf =
    ((ataWriteSector d lba buf).1, (ataWriteSector d lba buf).2.withMemory memory) := by
  rw [writeSector_eq, writeSector_eq]
  change (d.transfers 0, if d.transfers 0 = true then _ else _) = _
  by_cases written : d.transfers 0 = true
  · rw [if_pos written, if_pos written]
    rfl
  · rw [if_neg written, if_neg written]
    rfl

theorem withMemory_nextCluster : fat32NextCluster fs (d.withMemory memory) cluster =
    ((fat32NextCluster fs d cluster).1, (fat32NextCluster fs d cluster).2.withMemory memory) := by
  rw [nextCluster_eq, nextCluster_eq]
  rfl

theorem withMemory_setCluster (value : Nat) : fat32SetCluster fs (d.withMemory memory) cluster value =
    ((fat32SetCluster fs d cluster value).1,
      (fat32SetCluster fs d cluster value).2.withMemory memory) := by
  rw [fat32SetCluster, fat32ReadSectorInternal, withMemory_read, fat32SetCluster,
    fat32ReadSectorInternal]
  rcases ataReadSector d _ with ⟨_ | found, later⟩
  · rfl
  · exact withMemory_write

theorem withMemory_allocFrom (left first : Nat) : allocFrom fs left first (d.withMemory memory) =
    ((allocFrom fs left first d).1, (allocFrom fs left first d).2.withMemory memory) := by
  induction left generalizing d first with
  | zero => rfl
  | succ left ih =>
      rw [allocFrom, fat32ReadSectorInternal, withMemory_read, allocFrom, fat32ReadSectorInternal]
      rcases ataReadSector d _ with ⟨_ | found, later⟩
      · exact ih _
      · dsimp only
        by_cases free : word32 found (entryOffset first) &&& 0x0FFFFFFF = 0
        · rw [if_pos free, if_pos free, fat32WriteSectorInternal, withMemory_write]
          rfl
        · rw [if_neg free, if_neg free]
          exact ih _

theorem withMemory_allocCluster : fat32AllocCluster fs (d.withMemory memory) =
    ((fat32AllocCluster fs d).1, (fat32AllocCluster fs d).2.withMemory memory) :=
  withMemory_allocFrom ..

theorem withMemory_readSectors (left i : Nat) : readSectors fs lba left i buf (d.withMemory memory) =
    ((readSectors fs lba left i buf d).1, (readSectors fs lba left i buf d).2.withMemory memory) := by
  induction left generalizing d i buf with
  | zero => rfl
  | succ left ih =>
      rw [readSectors, withMemory_read, readSectors]
      rcases ataReadSector d _ with ⟨_ | found, later⟩
      · rfl
      · exact ih _

theorem withMemory_readCluster : fat32ReadCluster fs (d.withMemory memory) cluster =
    ((fat32ReadCluster fs d cluster).1, (fat32ReadCluster fs d cluster).2.withMemory memory) := by
  rw [fat32ReadCluster, fat32ReadCluster, withMemory_readSectors]
  split <;> rfl

theorem withMemory_writeSectors (left i : Nat) : writeSectors fs lba buf left i (d.withMemory memory) =
    ((writeSectors fs lba buf left i d).1, (writeSectors fs lba buf left i d).2.withMemory memory) := by
  induction left generalizing d i with
  | zero => rfl
  | succ left ih =>
      rw [writeSectors, withMemory_write, writeSectors]
      rcases ataWriteSector d _ _ with ⟨_ | _, later⟩
      · rfl
      · exact ih _

theorem withMemory_writeCluster : fat32WriteCluster fs (d.withMemory memory) cluster buf =
    ((fat32WriteCluster fs d cluster buf).1,
      (fat32WriteCluster fs d cluster buf).2.withMemory memory) := by
  rw [fat32WriteCluster, fat32WriteCluster, withMemory_writeSectors]
  split <;> rfl

/-- What an operation that asks for no memory does, with other allocations to come. -/
theorem restore_memory {α : Type} (f : Disk → α × Disk)
    (commutes : ∀ d memory, f (d.withMemory memory) = ((f d).1, (f d).2.withMemory memory))
    {result : α} {after : Disk} (done : f (d.withMemory memory) = (result, after)) :
    f d = (result, after.withMemory d.memory) := by
  have same := commutes (d.withMemory memory) d.memory
  rw [done] at same
  exact same

end Memory

section Entries

/-- The entries of different clusters do not overlap, wherever the FAT lies: a FAT of 2^28
entries is shorter than what the drive addresses. -/
theorem entryWord_put {value other : Nat} (inside : cluster < 268435456)
    (insideOther : other < 268435456) :
    (d.put (fs.entryLba cluster) (putBytes (d.sectors (fs.entryLba cluster))
      (entryOffset cluster) (le32 value))).entryWord fs other =
      if other = cluster then value % 4294967296 else d.entryWord fs other := by
  simp only [Disk.entryWord, Disk.put]
  by_cases same : other = cluster
  · rw [if_pos same, same, Function.update_self, word32_put]
  · rw [if_neg same]
    by_cases near : fs.entryLba other = fs.entryLba cluster
    · rw [near, Function.update_self, word32_outside]
      rw [le32_length]
      unfold Fat32Fs.entryLba fatSector ataAddressable u32 at near
      unfold entryOffset u32
      omega
    · rw [Function.update_of_ne near]

end Entries

def emptyVolume : Fat32Fs :=
  { partitionLba := 0, sectorsPerCluster := 1, fatStartLba := 1, fatSize := 1, dataStartLba := 2
    rootCluster := 2, totalClusters := 8 }

/-- The clusters 2 and 3 follow each other in turn, and all clusters are full of entries. -/
def cyclicDisk : Disk :=
  { sectors := fun lba =>
      if lba = 1 then putBytes (fun _ => 0) 8 (le32 3 ++ le32 2) else fun _ => 0x41
    transfers := fun _ => true
    memory := fun _ => true }

end ZurichOS
