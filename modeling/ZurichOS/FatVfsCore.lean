import ZurichOS.FatCore
import ZurichOS.RamfsCore

/-!
The nodes of `kernel/fs/fat32_vfs.c`, and the calls of `kernel/fs/vfs.c` on an open file.
-/

namespace ZurichOS

open ByteBuffer Words

/-- A node with its `fat32_vfs_data_t`.  Of the parent, only the cluster in its data is
used, which never changes. -/
structure FatNode extends VfsNode where
  cluster : Nat
  fileSize : Nat
  attr : UInt8
  parentCluster : Option Nat

def fat32CreateVfsNode (d : Disk) (name : List UInt8) (cluster size : Nat) (attr : UInt8)
    (parentCluster : Option Nat) : Option FatNode × Disk :=
  match d.kmalloc with
  | (false, d) => (none, d)
  | (true, d) =>
      match d.kmalloc with
      | (false, d) => (none, d)
      | (true, d) =>
          (some
            { name := (cString name).take (vfsMaxName - 1)
              flags := if attr &&& fat32AttrDirectory ≠ 0 then vfsDirectory else vfsFile
              length := size, inode := cluster, parent := none, ptr := none
              cluster, fileSize := size, attr, parentCluster }, d)

variable (fs : Fat32Fs)

def fat32VfsRead (d : Disk) (node : FatNode) (offset size : Nat) : Int × List UInt8 × Disk :=
  if node.attr &&& fat32AttrDirectory ≠ 0 then (-1, [], d)
  else fat32ReadFile fs d ⟨node.cluster, node.fileSize⟩ offset size

def fat32VfsWrite (fuel : Nat) (d : Disk) (node : FatNode) (offset : Nat) (data : List UInt8) :
    Option (Int × FatNode × Disk) :=
  if node.attr &&& fat32AttrDirectory ≠ 0 then some (-1, node, d)
  else
    let (result, file, d) := fat32WriteFile fs d ⟨node.cluster, node.fileSize⟩ offset data
    if 0 < result then
      let node := { node with
        cluster := file.startCluster, fileSize := file.fileSize
        length := file.fileSize, inode := file.startCluster }
      match node.parentCluster with
      | none => some (result, node, d)
      | some dir =>
          (fat32UpdateEntrySize fs fuel d dir node.name file.fileSize file.startCluster).map
            fun (_, d) => (result, node, d)
    else some (result, node, d)

def fat32VfsFinddir (fuel : Nat) (d : Disk) (node : FatNode) (name : List UInt8) :
    Option (Option FatNode × Disk) :=
  if node.attr &&& fat32AttrDirectory = 0 then some (none, d)
  else
    (fat32FindEntry fs fuel d node.cluster name).map fun
      | (none, d) => (none, d)
      | (some entry, d) =>
          fat32CreateVfsNode d (format83Name entry) (direntCluster entry) (direntSize entry)
            (direntAttr entry) (some node.cluster)

def fat32GetVfsRoot (d : Disk) : Option FatNode × Disk :=
  fat32CreateVfsNode d [0x66, 0x61, 0x74, 0x33, 0x32] fs.rootCluster 0 fat32AttrDirectory none

/-- `vfs_lookup` in a FAT32 volume, from its root on; every lookup makes new nodes. -/
def fatLookup (fuel : Nat) (d : Disk) (node : FatNode) :
    List (List UInt8) → Option (Option FatNode × Disk)
  | [] => some (some node, d)
  | name :: rest =>
      match fat32VfsFinddir fs fuel d node name with
      | none => none
      | some (none, d) => some (none, d)
      | some (some next, d) => fatLookup fuel d next rest

/-- A file that is open, of one of the two file systems that store files. -/
inductive OpenFile where
  | ramfs (node : RamfsNode)
  | fat32 (fs : Fat32Fs) (node : FatNode)

def OpenFile.length : OpenFile → Nat
  | .ramfs node => node.length
  | .fat32 _ node => node.length

def vfsRead (d : Disk) (file : OpenFile) (offset size : Nat) : Int × List UInt8 × Disk :=
  match file with
  | .ramfs node =>
      let (result, bytes) := ramfsRead node offset size true
      (result, bytes, d)
  | .fat32 fs node => fat32VfsRead fs d node offset size

def vfsWrite (fuel : Nat) (d : Disk) (file : OpenFile) (offset : Nat) (data : List UInt8) :
    Option (Int × OpenFile × Disk) :=
  match file with
  | .ramfs node =>
      let (result, node, memory) := ramfsWrite d.memory node offset (some data)
      some (result, .ramfs node, { d with memory })
  | .fat32 fs node =>
      (fat32VfsWrite fs fuel d node offset data).map fun (result, node, d) =>
        (result, .fat32 fs node, d)

def vfsAppend (fuel : Nat) (d : Disk) (file : OpenFile) (data : List UInt8) :
    Option (Int × OpenFile × Disk) :=
  vfsWrite fuel d file file.length data

def vfsTruncate : OpenFile → OpenFile
  | .ramfs node => .ramfs { node with length := 0 }
  | .fat32 fs node => .fat32 fs { node with length := 0 }

end ZurichOS
