import ZurichOS.RamfsCore
import Mathlib.Logic.Function.Basic

/-!
Paths and mounts: `vfs_lookup`, `vfs_finddir`, `vfs_mount` and `vfs_unmount` of
`kernel/fs/vfs.c`.
-/

namespace ZurichOS

open ByteBuffer

abbrev vfsMaxPath : Nat := 256
abbrev maxMounts : Nat := 8
abbrev slash : UInt8 := 0x2F
abbrev dot : List UInt8 := [0x2E]
abbrev dotDot : List UInt8 := [0x2E, 0x2E]

/-- The `finddir` of a node: that of ramfs, over the addresses of the children, or that of
another file system. -/
inductive Finddir where
  | ramfs (children : List Nat)
  | other (find : List UInt8 → Option Nat)

structure TreeNode extends VfsNode where
  finddir : Finddir

structure MountEntry where
  path : List UInt8
  mountPoint : Nat
  fsRoot : Nat

structure Vfs where
  nodes : Nat → TreeNode
  root : Option Nat
  mounts : List MountEntry

/-- The root of the file system on a node with `VFS_MOUNTPOINT`, unless its `ptr` is null. -/
def Vfs.mounted (v : Vfs) (node : Nat) : Option Nat :=
  if (v.nodes node).flags &&& vfsMountpoint ≠ 0 then (v.nodes node).ptr else none

def ramfsFinddir (v : Vfs) (children : List Nat) (name : List UInt8) : Option Nat :=
  children.find? fun child => (v.nodes child).name = name

/-- The call through the pointer of the node. -/
def Vfs.finddir (v : Vfs) (node : Nat) (name : List UInt8) : Option Nat :=
  match (v.nodes node).finddir with
  | .ramfs children => ramfsFinddir v children name
  | .other find => find name

def vfsFinddir (v : Vfs) (node : Nat) (name : List UInt8) : Option Nat :=
  if (v.nodes node).isDirectory then
    (v.finddir node name).map fun result => (v.mounted result).getD result
  else none

/-- The next component, at most 63 characters, and the path behind it. -/
def nextComponent (path : List UInt8) : List UInt8 × List UInt8 :=
  let component := (path.takeWhile (· ≠ slash)).take (vfsMaxName - 1)
  (component, (path.drop component.length).dropWhile (· = slash))

/-- A component takes at least one character, or else the slash behind it. -/
theorem nextComponent_shorter {path : List UInt8} (nonempty : path ≠ []) :
    (nextComponent path).2.length < path.length := by
  cases path with
  | nil => exact absurd rfl nonempty
  | cons first later =>
      by_cases isSlash : first = slash
      · have skipped := (List.dropWhile_suffix (p := (· = slash)) (l := later)).length_le
        simp [nextComponent, isSlash] at skipped ⊢
        omega
      · have rest := (List.dropWhile_suffix (p := (· = slash))
          (l := (first :: later).drop (nextComponent (first :: later)).1.length)).length_le
        have some : 0 < (nextComponent (first :: later)).1.length := by
          simp [nextComponent, isSlash]
        rw [List.length_drop] at rest
        change (((first :: later).drop (nextComponent (first :: later)).1.length).dropWhile
          (· = slash)).length < (first :: later).length
        rw [List.length_cons] at rest ⊢
        omega

def Vfs.lookupFrom (v : Vfs) (current : Nat) (path : List UInt8) : Option Nat :=
  if nonempty : path = [] then some current
  else
    let component := (nextComponent path).1
    let rest := (nextComponent path).2
    have := nextComponent_shorter nonempty
    if component = dot then v.lookupFrom current rest
    else if component = dotDot then v.lookupFrom ((v.nodes current).parent.getD current) rest
    else if (v.nodes current).isDirectory then
      match vfsFinddir v current component with
      | none => none
      | some next => v.lookupFrom ((v.mounted next).getD next) rest
    else none
termination_by path.length

def vfsLookup (v : Vfs) (path : List UInt8) : Option Nat :=
  v.root.bind fun root =>
    let path := cString path
    if path = [slash] then some root
    else v.lookupFrom root (if path.head? = some slash then path.tail else path)

def vfsMount (v : Vfs) (path : List UInt8) (fsRoot : Nat) : Int × Vfs :=
  if maxMounts ≤ v.mounts.length then (-1, v)
  else
    match vfsLookup v path with
    | none => (-2, v)
    | some mountPoint =>
        if (v.nodes mountPoint).isDirectory = false then (-3, v)
        else if v.mounts.any fun entry => entry.path = cString path then (-4, v)
        else
          let entry := { path := (cString path).take (vfsMaxPath - 1), mountPoint, fsRoot }
          let point := v.nodes mountPoint
          let nodes := Function.update v.nodes mountPoint
            { point with flags := point.flags ||| vfsMountpoint, ptr := some fsRoot }
          let point := nodes mountPoint
          let nodes := Function.update nodes fsRoot { nodes fsRoot with
            parent := point.parent, name := point.name.take (vfsMaxName - 1) }
          (0, { v with nodes, mounts := v.mounts ++ [entry] })

def vfsUnmount (v : Vfs) (path : List UInt8) : Int × Vfs :=
  match v.mounts.find? fun entry => entry.path = cString path with
  | none => (-1, v)
  | some entry =>
      let point := v.nodes entry.mountPoint
      (0, { v with
        nodes := Function.update v.nodes entry.mountPoint
          { point with flags := point.flags &&& 0xFFFFFFF7, ptr := none }
        mounts := v.mounts.eraseP fun entry => entry.path = cString path })

end ZurichOS
