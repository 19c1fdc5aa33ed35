import ZurichOS.FatVfsCore

/-!
The directory operations of `kernel/fs/fat32_vfs.c`, with the cache that its `readdir` keeps.
-/

namespace ZurichOS

open ByteBuffer Words

abbrev fat32DirCacheSize : Nat := 64

/-- The one cache of all directories.  `fs` is the address of the volume whose directory it
has, and `none` for `NULL`. -/
structure DirCache where
  fs : Option Nat
  cluster : Nat
  entries : List DirListing

def DirCache.invalidate (cache : DirCache) : DirCache := { cache with fs := none }

def dirCacheCallback (cache : DirCache) (listing : DirListing) : DirCache :=
  if cache.entries.length < fat32DirCacheSize then
    { cache with entries :=
        cache.entries ++ [{ listing with name := (cString listing.name).take 12 }] }
  else cache

variable (fs : Fat32Fs)

/-- The name and the number of the entry, for a volume at the address `volume`. -/
def fat32VfsReaddir (volume fuel : Nat) (d : Disk) (cache : DirCache) (node : FatNode)
    (index : Nat) : Option (Option (List UInt8 × Nat) × DirCache × Disk) :=
  if node.attr &&& fat32AttrDirectory = 0 then some (none, cache, d)
  else
    let filled :=
      if cache.fs ≠ some volume ∨ cache.cluster ≠ node.cluster then
        (fat32ListDir fs fuel d node.cluster).map fun (_, listings, d) =>
          (listings.foldl dirCacheCallback ⟨some volume, node.cluster, []⟩, d)
      else some (cache, d)
    filled.map fun (cache, d) =>
      (cache.entries[index]?.map fun listing => (listing.name.take (vfsMaxName - 1), index),
        cache, d)

def fat32VfsCreate (fuel : Nat) (d : Disk) (cache : DirCache) (node : FatNode)
    (name : List UInt8) (type : Nat) : Option (Int × DirCache × Disk) :=
  if node.attr &&& fat32AttrDirectory = 0 then some (-1, cache, d)
  else
    (fat32FindEntry fs fuel d node.cluster name).bind fun
      | (some _, d) => some (-2, cache, d)
      | (none, d) =>
          let attr := if type = vfsDirectory then fat32AttrDirectory else fat32AttrArchive
          (fat32CreateEntry fs fuel d node.cluster name attr).map fun (result, _, d) =>
            (result, cache.invalidate, d)

/-- The first entry of a cluster in front of its end mark that has the 8.3 name. -/
def unlinkScan (buf : Buffer) (name83 : List UInt8) : List Nat → Option Nat
  | [] => none
  | i :: rest =>
      if buf (32 * i) = 0 then none
      else if buf (32 * i) = 0xE5 then unlinkScan buf name83 rest
      else if bytesAt (direntAt buf i) 0 11 = name83 then some i
      else unlinkScan buf name83 rest

/-- The loop of `fat32_vfs_unlink`, which goes on behind an end mark with the next cluster. -/
def unlinkFrom (name83 : List UInt8) : (fuel : Nat) → Disk → (current : Nat) → Option (Int × Disk)
  | 0, _, _ => none
  | fuel + 1, d, current =>
      if current = 0 ∨ fat32ClusterEnd ≤ current then some (-1, d)
      else
        match fat32ReadCluster fs d current with
        | (none, d) => some (-1, d)
        | (some buf, d) =>
            match unlinkScan buf name83 (List.range fs.entriesPerCluster) with
            | some i =>
                some (0, (fat32WriteCluster fs d current (putBytes buf (32 * i) [0xE5])).2)
            | none =>
                let (next, d) := fat32NextCluster fs d current
                unlinkFrom name83 fuel d next

def fat32VfsUnlink (fuel : Nat) (d : Disk) (cache : DirCache) (node : FatNode)
    (name : List UInt8) : Option (Int × DirCache × Disk) :=
  if node.attr &&& fat32AttrDirectory = 0 then some (-1, cache, d)
  else
    (fat32FindEntry fs fuel d node.cluster name).bind fun
      | (none, d) => some (-1, cache, d)
      | (some entry, d) =>
          if direntAttr entry &&& fat32AttrDirectory ≠ 0 then some (-2, cache, d)
          else
            let freed :=
              if 2 ≤ direntCluster entry then
                fat32FreeClusterChain fs fuel d (direntCluster entry)
              else some d
            freed.bind fun d =>
              match d.kmalloc with
              | (false, d) => some (-1, cache, d)
              | (true, d) =>
                  (unlinkFrom fs (fat32NameTo83 name) fuel d node.cluster).map fun (result, d) =>
                    (result, if result = 0 then cache.invalidate else cache, d)

end ZurichOS
