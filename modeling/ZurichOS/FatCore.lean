import ZurichOS.ByteBuffer
import ZurichOS.Words

set_option linter.all false

/-!
The FAT32 driver: `kernel/fs/fat32.c` and `kernel/fs/fat32_write.c`.
-/

namespace ZurichOS

open ByteBuffer Words

abbrev ataAddressable : Nat := 268435456
abbrev fat32ClusterEnd : Nat := 0x0FFFFFF8
abbrev fat32AttrLfn : UInt8 := 0x0F
abbrev fat32AttrVolumeId : UInt8 := 0x08
abbrev fat32AttrDirectory : UInt8 := 0x10
abbrev fat32AttrArchive : UInt8 := 0x20

/-- The sectors of the drive, and whether its next transfers and the next allocations
succeed. -/
structure Disk where
  sectors : Nat → Buffer
  transfers : Nat → Bool
  memory : Nat → Bool

structure Fat32Fs where
  partitionLba : Nat
  sectorsPerCluster : Nat
  fatStartLba : Nat
  fatSize : Nat
  dataStartLba : Nat
  rootCluster : Nat
  totalClusters : Nat

def Fat32Fs.clusterSize (fs : Fat32Fs) : Nat := fs.sectorsPerCluster * 512

def Fat32Fs.entriesPerCluster (fs : Fat32Fs) : Nat := fs.clusterSize / 32

def Disk.transfer (d : Disk) : Bool × Disk :=
  (d.transfers 0, { d with transfers := fun n => d.transfers (n + 1) })

/-- Whether the next `kmalloc` yields memory. -/
def Disk.kmalloc (d : Disk) : Bool × Disk :=
  (d.memory 0, { d with memory := fun n => d.memory (n + 1) })

/-- `ata_read_sectors` of one sector; its commands carry 28 address bits. -/
def ataReadSector (d : Disk) (lba : Nat) : Option Buffer × Disk :=
  let (ok, d) := d.transfer
  (if ok then some (d.sectors (lba % ataAddressable)) else none, d)

def ataWriteSector (d : Disk) (lba : Nat) (buf : Buffer) : Bool × Disk :=
  let (ok, d) := d.transfer
  if ok then (true, { d with sectors := Function.update d.sectors (lba % ataAddressable) buf })
  else (false, d)

section Mount

def bpbBytesPerSector (bpb : Buffer) : Nat := word16 bpb 11
def bpbSectorsPerCluster (bpb : Buffer) : Nat := (bpb 13).toNat
def bpbReservedSectors (bpb : Buffer) : Nat := word16 bpb 14
def bpbNumFats (bpb : Buffer) : Nat := (bpb 16).toNat
def bpbFatSize16 (bpb : Buffer) : Nat := word16 bpb 22
def bpbTotalSectors32 (bpb : Buffer) : Nat := word32 bpb 32
def bpbFatSize32 (bpb : Buffer) : Nat := word32 bpb 36
def bpbRootCluster (bpb : Buffer) : Nat := word32 bpb 44
def bpbBootSignature (bpb : Buffer) : UInt8 := bpb 66

/-- `data_start_lba`, which 32-bit arithmetic cuts off. -/
def bpbDataStart (bpb : Buffer) : Nat :=
  u32 (bpbReservedSectors bpb + u32 (bpbNumFats bpb * bpbFatSize32 bpb))

inductive Fat32Mounted where
  | refused
  | divideError
  | mounted (fs : Fat32Fs)

def Disk.fat32Mount (d : Disk) (partitionLba : Nat) : Fat32Mounted × Disk :=
  match ataReadSector d partitionLba with
  | (none, d) => (.refused, d)
  | (some bpb, d) =>
      if bpbBootSignature bpb ≠ 0x29 then (.refused, d)
      else if bpbFatSize16 bpb ≠ 0 then (.refused, d)
      else if bpbBytesPerSector bpb ≠ 512 then (.refused, d)
      else
        match d.kmalloc with
        | (false, d) => (.refused, d)
        | (true, d) =>
            let dataSectors := sub32 (bpbTotalSectors32 bpb) (bpbDataStart bpb)
            if bpbSectorsPerCluster bpb = 0 then (.divideError, d)
            else
              (.mounted
                { partitionLba := partitionLba
                  sectorsPerCluster := bpbSectorsPerCluster bpb
                  fatStartLba := bpbReservedSectors bpb
                  fatSize := bpbFatSize32 bpb
                  dataStartLba := bpbDataStart bpb
                  rootCluster := bpbRootCluster bpb
                  totalClusters := dataSectors / bpbSectorsPerCluster bpb }, d)

end Mount

variable (fs : Fat32Fs)

def fat32ReadSectorInternal (d : Disk) (sector : Nat) : Option Buffer × Disk :=
  ataReadSector d (u32 (fs.partitionLba + sector))

def fat32WriteSectorInternal (d : Disk) (sector : Nat) (buf : Buffer) : Bool × Disk :=
  ataWriteSector d (u32 (fs.partitionLba + sector)) buf

def clusterToLba (cluster : Nat) : Nat :=
  u32 (fs.dataStartLba + (cluster - 2) * fs.sectorsPerCluster)

/-- The loop of `fat32_read_cluster`, over the sectors from the `i`-th on. -/
def readSectors (lba : Nat) : (left i : Nat) → Buffer → Disk → Option Buffer × Disk
  | 0, _, buf, d => (some buf, d)
  | left + 1, i, buf, d =>
      match ataReadSector d (u32 (fs.partitionLba + lba + i)) with
      | (none, d) => (none, d)
      | (some sector, d) =>
          readSectors lba left (i + 1) (putBytes buf (i * 512) (bytesAt sector 0 512)) d

def fat32ReadCluster (d : Disk) (cluster : Nat) : Option Buffer × Disk :=
  if cluster < 2 then (none, d)
  -- what the buffer held before is overwritten, and nothing reads it after a failure
  else readSectors fs (clusterToLba fs cluster) fs.sectorsPerCluster 0 (fun _ => 0) d

def writeSectors (lba : Nat) (buf : Buffer) : (left i : Nat) → Disk → Bool × Disk
  | 0, _, d => (true, d)
  | left + 1, i, d =>
      match ataWriteSector d (u32 (fs.partitionLba + lba + i)) (fun j => buf (i * 512 + j)) with
      | (false, d) => (false, d)
      | (true, d) => writeSectors lba buf left (i + 1) d

def fat32WriteCluster (d : Disk) (cluster : Nat) (buf : Buffer) : Bool × Disk :=
  if cluster < 2 then (false, d)
  else writeSectors fs (clusterToLba fs cluster) buf fs.sectorsPerCluster 0 d

def fatSector (cluster : Nat) : Nat := u32 (fs.fatStartLba + u32 (cluster * 4) / 512)

def entryOffset (cluster : Nat) : Nat := u32 (cluster * 4) % 512

def fat32NextCluster (d : Disk) (cluster : Nat) : Nat × Disk :=
  match fat32ReadSectorInternal fs d (fatSector fs cluster) with
  | (none, d) => (0, d)
  | (some buf, d) =>
      let next := word32 buf (entryOffset cluster) &&& 0x0FFFFFFF
      (if fat32ClusterEnd ≤ next then 0 else next, d)

/-- The loop of `fat32_alloc_cluster`, from `cluster` on. -/
def allocFrom : (left cluster : Nat) → Disk → Nat × Disk
  | 0, _, d => (0, d)
  | left + 1, cluster, d =>
      match fat32ReadSectorInternal fs d (fatSector fs cluster) with
      | (none, d) => allocFrom left (cluster + 1) d
      | (some buf, d) =>
          if word32 buf (entryOffset cluster) &&& 0x0FFFFFFF = 0 then
            let buf := putBytes buf (entryOffset cluster) (le32 0x0FFFFFFF)
            (cluster, (fat32WriteSectorInternal fs d (fatSector fs cluster) buf).2)
          else allocFrom left (cluster + 1) d

def fat32AllocCluster (d : Disk) : Nat × Disk :=
  allocFrom fs (u32 (fs.totalClusters + 2) - 2) 2 d

def fat32SetCluster (d : Disk) (cluster value : Nat) : Bool × Disk :=
  match fat32ReadSectorInternal fs d (fatSector fs cluster) with
  | (none, d) => (false, d)
  | (some buf, d) =>
      let oldValue := word32 buf (entryOffset cluster)
      let value := (oldValue &&& 0xF0000000) ||| (value &&& 0x0FFFFFFF)
      fat32WriteSectorInternal fs d (fatSector fs cluster)
        (putBytes buf (entryOffset cluster) (le32 value))

/-- `none` when the loop has not ended within `fuel` turns. -/
def fat32FreeClusterChain : (fuel : Nat) → Disk → (cluster : Nat) → Option Disk
  | 0, _, _ => none
  | fuel + 1, d, cluster =>
      if 2 ≤ cluster ∧ cluster < fat32ClusterEnd then
        let (next, d) := fat32NextCluster fs d cluster
        let (_, d) := fat32SetCluster fs d cluster 0
        fat32FreeClusterChain fuel d next
      else some d

section Names

def upperByte (c : UInt8) : UInt8 := if 0x61 ≤ c ∧ c ≤ 0x7A then c - 32 else c

def pad (width : Nat) (bytes : List UInt8) : List UInt8 :=
  bytes ++ List.replicate (width - bytes.length) 0x20

def fat32NameTo83 (name : List UInt8) : List UInt8 :=
  let name := cString name
  let base := (name.takeWhile (· ≠ 0x2E)).take 8
  let ext := ((name.dropWhile (· ≠ 0x2E)).drop 1).take 3
  pad 8 (base.map upperByte) ++ pad 3 (ext.map upperByte)

/-- The directory entry number `i` of a cluster. -/
def direntAt (buf : Buffer) (i : Nat) : Buffer := fun k => buf (32 * i + k)

def direntAttr (entry : Buffer) : UInt8 := entry 11

def direntCluster (entry : Buffer) : Nat := word16 entry 20 <<< 16 ||| word16 entry 26

def direntSize (entry : Buffer) : Nat := word32 entry 28

def format83Name (entry : Buffer) : List UInt8 :=
  let base := (bytesAt entry 0 8).takeWhile (· ≠ 0x20)
  let ext := bytesAt entry 8 3
  base ++ if entry 8 ≠ 0x20 then 0x2E :: ext.takeWhile (· ≠ 0x20) else []

def nameMatch (pattern : List UInt8) (entry : Buffer) : Bool :=
  (cString pattern).map upperByte == (cString (format83Name entry)).map upperByte

end Names

/-- Where the scan of one directory cluster stops. -/
inductive Scan where
  | found (i : Nat)
  | last
  | more

def scanEntries (buf : Buffer) (hit : Buffer → Bool) : List Nat → Scan
  | [] => .more
  | i :: rest =>
      if buf (32 * i) = 0 then .last
      else if hit (direntAt buf i) then .found i
      else scanEntries buf hit rest

/-- The loop that `fat32_find_entry` and `fat32_update_entry_size` have in common: the
cluster, its contents and the number of the first entry that fits, if there is one. -/
def walkDirectory (hit : Buffer → Bool) :
    (fuel : Nat) → Disk → (current : Nat) → Option (Option (Nat × Buffer × Nat) × Disk)
  | 0, _, _ => none
  | fuel + 1, d, current =>
      if current = 0 ∨ fat32ClusterEnd ≤ current then some (none, d)
      else
        match fat32ReadCluster fs d current with
        | (none, d) => some (none, d)
        | (some buf, d) =>
            match scanEntries buf hit (List.range fs.entriesPerCluster) with
            | .found i => some (some (current, buf, i), d)
            | .last => some (none, d)
            | .more =>
                let (next, d) := fat32NextCluster fs d current
                walkDirectory hit fuel d next

/-- The entries that `fat32_find_entry` takes for `name`. -/
def findsEntry (name : List UInt8) (entry : Buffer) : Bool :=
  entry 0 ≠ 0xE5 && direntAttr entry ≠ fat32AttrLfn &&
    direntAttr entry &&& fat32AttrVolumeId = 0 && nameMatch name entry

def fat32FindEntry (fuel : Nat) (d : Disk) (dirCluster : Nat) (name : List UInt8) :
    Option (Option Buffer × Disk) :=
  match d.kmalloc with
  | (false, d) => some (none, d)
  | (true, d) =>
      (walkDirectory fs (findsEntry name) fuel d dirCluster).map fun
        | (some (_, buf, i), d) => (some (direntAt buf i), d)
        | (none, d) => (none, d)

/-- The entries that `fat32_update_entry_size` takes for the 8.3 name. -/
def updatesEntry (name83 : List UInt8) (entry : Buffer) : Bool :=
  entry 0 ≠ 0xE5 && direntAttr entry ≠ fat32AttrLfn && bytesAt entry 0 11 == name83

def putCluster (buf : Buffer) (i cluster : Nat) : Buffer :=
  putBytes (putBytes buf (32 * i + 20) (le16 (cluster >>> 16 &&& 0xFFFF)))
    (32 * i + 26) (le16 (cluster &&& 0xFFFF))

def fat32UpdateEntrySize (fuel : Nat) (d : Disk) (dirCluster : Nat) (name : List UInt8)
    (newSize newCluster : Nat) : Option (Int × Disk) :=
  match d.kmalloc with
  | (false, d) => some (-1, d)
  | (true, d) =>
      (walkDirectory fs (updatesEntry (fat32NameTo83 name)) fuel d dirCluster).map fun
        | (none, d) => (-1, d)
        | (some (current, buf, i), d) =>
            let buf := putBytes buf (32 * i + 28) (le32 newSize)
            let buf := if newCluster ≠ 0 then putCluster buf i newCluster else buf
            (0, (fat32WriteCluster fs d current buf).2)

/-- What `fat32_list_dir` hands to its callback. -/
structure DirListing where
  name : List UInt8
  size : Nat
  attr : UInt8
deriving DecidableEq

/-- The entries that `fat32_list_dir` hands on. -/
def listsEntry (entry : Buffer) : Bool :=
  entry 0 ≠ 0xE5 && direntAttr entry ≠ fat32AttrLfn &&
    direntAttr entry &&& fat32AttrVolumeId = 0 && (format83Name entry).head? ≠ some 0x2E

def direntListing (entry : Buffer) : DirListing :=
  ⟨format83Name entry, direntSize entry, direntAttr entry⟩

/-- The calls of the callback for one directory cluster, and whether the list ends in it. -/
def listEntries (buf : Buffer) : List Nat → List DirListing × Bool
  | [] => ([], false)
  | i :: rest =>
      if buf (32 * i) = 0 then ([], true)
      else
        let (later, ended) := listEntries buf rest
        if listsEntry (direntAt buf i) then (direntListing (direntAt buf i) :: later, ended)
        else (later, ended)

/-- The loop of `fat32_list_dir`: whether every read succeeded, and the calls of the callback. -/
def listFrom : (fuel : Nat) → Disk → (current : Nat) → Option (Bool × List DirListing × Disk)
  | 0, _, _ => none
  | fuel + 1, d, current =>
      if current = 0 ∨ fat32ClusterEnd ≤ current then some (true, [], d)
      else
        match fat32ReadCluster fs d current with
        | (none, d) => some (false, [], d)
        | (some buf, d) =>
            match listEntries buf (List.range fs.entriesPerCluster) with
            | (entries, true) => some (true, entries, d)
            | (entries, false) =>
                let (next, d) := fat32NextCluster fs d current
                (listFrom fuel d next).map fun (ok, later, d) => (ok, entries ++ later, d)

def fat32ListDir (fuel : Nat) (d : Disk) (cluster : Nat) :
    Option (Int × List DirListing × Disk) :=
  match d.kmalloc with
  | (false, d) => some (-1, [], d)
  | (true, d) =>
      (listFrom fs fuel d cluster).map fun (ok, entries, d) =>
        (if ok then (entries.length : Int) else -1, entries, d)

/-- The first entry of a cluster that is free or deleted. -/
def freeEntry (buf : Buffer) : Option Nat :=
  (List.range fs.entriesPerCluster).find? fun i => buf (32 * i) = 0 || buf (32 * i) = 0xE5

/-- `fat32_create_entry` from the free entry `i` on: the result, the cluster it puts out
and the disk. -/
def createAt (name83 : List UInt8) (attr : UInt8) (d : Disk) (current : Nat) (buf : Buffer)
    (i : Nat) : Int × Nat × Disk :=
  let buf := putBytes buf (32 * i) (List.replicate 32 0)
  let buf := putBytes buf (32 * i) name83
  let buf := putBytes buf (32 * i + 11) [attr]
  let finish (d : Disk) (newCluster : Nat) : Int × Nat × Disk :=
    let buf := putBytes (putCluster buf i newCluster) (32 * i + 28) (le32 0)
    (0, newCluster, (fat32WriteCluster fs d current buf).2)
  if attr &&& fat32AttrDirectory ≠ 0 then
    let (newCluster, d) := fat32AllocCluster fs d
    if newCluster = 0 then (-2, 0, d)
    else
      match d.kmalloc with
      | (false, d) => finish d newCluster
      | (true, d) => finish (fat32WriteCluster fs d newCluster (fun _ => 0)).2 newCluster
  else finish d 0

def createFrom (name83 : List UInt8) (attr : UInt8) :
    (fuel : Nat) → Disk → (current : Nat) → Option (Int × Nat × Disk)
  | 0, _, _ => none
  | fuel + 1, d, current =>
      if current = 0 ∨ fat32ClusterEnd ≤ current then some (-1, 0, d)
      else
        match fat32ReadCluster fs d current with
        | (none, d) => some (-1, 0, d)
        | (some buf, d) =>
            match freeEntry fs buf with
            | some i => some (createAt fs name83 attr d current buf i)
            | none =>
                let (next, d) := fat32NextCluster fs d current
                if next = 0 then
                  let (next, d) := fat32AllocCluster fs d
                  if next = 0 then some (-2, 0, d)
                  else
                    let (_, d) := fat32SetCluster fs d current next
                    let (_, d) := fat32WriteCluster fs d next (fun _ => 0)
                    createFrom name83 attr fuel d next
                else createFrom name83 attr fuel d next

def fat32CreateEntry (fuel : Nat) (d : Disk) (dirCluster : Nat) (name : List UInt8)
    (attr : UInt8) : Option (Int × Nat × Disk) :=
  match d.kmalloc with
  | (false, d) => some (-1, 0, d)
  | (true, d) => createFrom fs (fat32NameTo83 name) attr fuel d dirCluster

/-- The first cluster and the size that the user of a file keeps for it. -/
structure FatFile where
  startCluster : Nat
  fileSize : Nat

/-- The cluster after `current`, which is allocated and linked if there is none; 0 when
the volume is full. -/
def nextOrGrow (d : Disk) (current : Nat) : Nat × Disk :=
  let (next, d) := fat32NextCluster fs d current
  if next = 0 ∨ fat32ClusterEnd ≤ next then
    let (next, d) := fat32AllocCluster fs d
    if next = 0 then (0, d) else (next, (fat32SetCluster fs d current next).2)
  else (next, d)

/-- The loop that takes `fat32_write_file` to the cluster of the offset. -/
def seekWrite : (steps : Nat) → Disk → (current : Nat) → Nat × Disk
  | 0, d, current => (current, d)
  | steps + 1, d, current =>
      let (next, d) := nextOrGrow fs d current
      if next = 0 then (0, d) else seekWrite steps d next

/-- The main loop of `fat32_write_file`, with `written` bytes written; `false` when it
returns from its body. -/
def writeLoop (data : List UInt8) (target offsetInCluster : Nat) :
    (fuel : Nat) → Disk → (written current index : Nat) → Bool × Nat × Disk
  | 0, d, written, _, _ => (true, written, d)
  | fuel + 1, d, written, current, index =>
      if written < data.length then
        let (found, d) := fat32ReadCluster fs d current
        let buf := found.getD fun _ => 0
        let writeStart := if index = target then offsetInCluster else 0
        let writeSize := min (fs.clusterSize - writeStart) (data.length - written)
        let buf := putBytes buf writeStart ((data.drop written).take writeSize)
        match fat32WriteCluster fs d current buf with
        | (false, d) => (false, written, d)
        | (true, d) =>
            let written := written + writeSize
            if written < data.length then
              let (next, d) := nextOrGrow fs d current
              if next = 0 then (false, written, d)
              else writeLoop data target offsetInCluster fuel d written next (index + 1)
            else (true, written, d)
      else (true, written, d)

def fat32WriteFile (d : Disk) (file : FatFile) (offset : Nat) (data : List UInt8) :
    Int × FatFile × Disk :=
  if data.length = 0 then (0, file, d)
  else
    match d.kmalloc with
    | (false, d) => (-1, file, d)
    | (true, d) =>
        let (start, d) :=
          if file.startCluster = 0 then fat32AllocCluster fs d else (file.startCluster, d)
        let file := { file with startCluster := start }
        if start = 0 then (-1, file, d)
        else
          let target := offset / fs.clusterSize
          let (current, d) := seekWrite fs target d start
          if current = 0 then (0, file, d)
          else
            match writeLoop fs data target (offset % fs.clusterSize) data.length d 0 current
                target with
            | (false, written, d) => (int32 written, file, d)
            | (true, written, d) =>
                (int32 written,
                  { file with fileSize := max file.fileSize (u32 (offset + written)) }, d)

/-- The loop that takes `fat32_read_file` to the cluster of the offset, with the number of
steps it has made. -/
def seekRead : (left : Nat) → Disk → (current index : Nat) → Nat × Nat × Disk
  | 0, d, current, index => (current, index, d)
  | left + 1, d, current, index =>
      if current ≠ 0 then
        let (next, d) := fat32NextCluster fs d current
        seekRead left d next (index + 1)
      else (current, index, d)

/-- The main loop of `fat32_read_file`, with what it has put into the caller's buffer. -/
def readLoop (size first offsetInCluster : Nat) :
    (fuel : Nat) → Disk → (out : List UInt8) → (current index : Nat) → Int × List UInt8 × Disk
  | 0, d, out, _, _ => (int32 out.length, out, d)
  | fuel + 1, d, out, current, index =>
      if out.length < size ∧ current ≠ 0 ∧ current < fat32ClusterEnd then
        match fat32ReadCluster fs d current with
        | (none, d) => (-1, out, d)
        | (some buf, d) =>
            let copyStart := if index = first then offsetInCluster else 0
            let copySize := min (fs.clusterSize - copyStart) (size - out.length)
            let (next, d) := fat32NextCluster fs d current
            readLoop size first offsetInCluster fuel d (out ++ bytesAt buf copyStart copySize) next
              (index + 1)
      else (int32 out.length, out, d)

/-- The result of `fat32_read_file` and what it has put into the caller's buffer. -/
def fat32ReadFile (d : Disk) (file : FatFile) (offset size : Nat) : Int × List UInt8 × Disk :=
  if file.fileSize ≤ offset then (0, [], d)
  else
    let size := if file.fileSize < u32 (offset + size) then file.fileSize - offset else size
    match d.kmalloc with
    | (false, d) => (-1, [], d)
    | (true, d) =>
        let first := offset / fs.clusterSize
        let (current, index, d) := seekRead fs first d file.startCluster 0
        readLoop fs size first (offset % fs.clusterSize) size d [] current index

end ZurichOS
