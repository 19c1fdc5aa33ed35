import ZurichOS.ByteBuffer
import ZurichOS.Words

/-!
The nodes of the virtual file system, and the files of `kernel/fs/ramfs.c`.
-/

namespace ZurichOS

open ByteBuffer Words

abbrev vfsMaxName : Nat := 64
abbrev vfsFile : Nat := 0x01
abbrev vfsDirectory : Nat := 0x02
abbrev vfsMountpoint : Nat := 0x08
abbrev ramfsMaxFileSize : Nat := 65536

/-- `vfs_node_t`; the operations of a node go with its type. -/
structure VfsNode where
  name : List UInt8
  flags : Nat
  length : Nat
  inode : Nat
  parent : Option Nat
  ptr : Option Nat

def VfsNode.isDirectory (node : VfsNode) : Bool := node.flags &&& vfsDirectory ≠ 0

/-- `ramfs_node_t`; the children are the addresses of nodes. -/
structure RamfsNode extends VfsNode where
  data : Option Buffer
  capacity : Nat
  children : List Nat
  childCapacity : Nat

/-- What `ramfs_alloc_node` makes of the memory it gets. -/
def ramfsAllocNode (name : List UInt8) (type inode : Nat) : RamfsNode :=
  { name := (cString name).take (vfsMaxName - 1), flags := type, length := 0, inode
    parent := none, ptr := none, data := none, capacity := 0, children := []
    childCapacity := if type = vfsDirectory then 8 else 0 }

/-- The result of `ramfs_read` and what it puts into the buffer, if the caller has one. -/
def ramfsRead (node : RamfsNode) (offset size : Nat) (buffer : Bool) : Int × List UInt8 :=
  if !buffer || node.isDirectory then (-1, [])
  else if node.length ≤ offset then (0, [])
  else
    let bytesToRead := if node.length < u32 (offset + size) then node.length - offset else size
    match node.data with
    | none => (int32 bytesToRead, [])
    | some data => (int32 bytesToRead, bytesAt data offset bytesToRead)

/-- The node with a larger buffer, zero behind what the old one held. -/
def ramfsGrow (node : RamfsNode) (endPos : Nat) : RamfsNode :=
  let newCapacity := u32 (endPos + 1024)
  let newCapacity := if ramfsMaxFileSize < newCapacity then ramfsMaxFileSize else newCapacity
  let zero : Buffer := fun _ => 0
  let newData :=
    match node.data with
    | none => zero
    | some data => putBytes zero 0 (bytesAt data 0 node.capacity)
  { node with data := some newData, capacity := newCapacity }

def ramfsPut (node : RamfsNode) (offset endPos : Nat) (bytes : List UInt8) : RamfsNode :=
  { node with
    data := node.data.map fun data => putBytes data offset bytes
    length := if node.length < endPos then endPos else node.length }

/-- `ramfs_write`, given whether the next calls of `kmalloc` succeed. -/
def ramfsWrite (memory : Nat → Bool) (node : RamfsNode) (offset : Nat)
    (buffer : Option (List UInt8)) : Int × RamfsNode × (Nat → Bool) :=
  match buffer with
  | none => (-1, node, memory)
  | some bytes =>
      if node.isDirectory then (-1, node, memory)
      else
        let endPos := u32 (offset + bytes.length)
        if ramfsMaxFileSize < endPos then (-1, node, memory)
        else if node.capacity < endPos then
          let later := fun n => memory (n + 1)
          if memory 0 then
            (int32 bytes.length, ramfsPut (ramfsGrow node endPos) offset endPos bytes, later)
          else (-1, node, later)
        else (int32 bytes.length, ramfsPut node offset endPos bytes, memory)

end ZurichOS
