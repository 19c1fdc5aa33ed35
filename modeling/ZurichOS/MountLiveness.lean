import ZurichOS.MountRuns
import ZurichOS.Transitions
import Mathlib.Data.Nat.Pairing
import Mathlib.Logic.Relation

set_option linter.all false

/-!
What the mount table refers to, while directories are removed (`ramfs_unlink` of
`kernel/fs/ramfs.c`) and FAT32 volumes are released (`cmd_fatmount` of
`kernel/shell/cmds/cmd_disk.c`).
-/

namespace ZurichOS

open ByteBuffer Transitions

/-- Nodes are numbered: the even ones are those of ramfs, and an odd one is a node of a FAT32
volume. -/
def fatVolume (node : Nat) : Option Nat :=
  if node % 2 = 1 then some (Nat.unpair (node / 2)).1 else none

def fatNode (volume index : Nat) : Nat := 2 * Nat.pair volume index + 1

/-- The tree and the mount table; the ramfs nodes allocated so far and those freed; the
volumes read so far and those not yet released; and the volume of `fatmount`. -/
structure MountSystem where
  vfs : Vfs
  nodes : Nat
  freed : List Nat
  volumes : Nat
  live : List Nat
  mountedFat32 : Option Nat

def Vfs.childCount (v : Vfs) (node : Nat) : Nat :=
  match (v.nodes node).finddir with
  | .ramfs children => children.length
  | .other _ => 0

def Vfs.addChild (v : Vfs) (dir child : Nat) (children : List Nat) (node : TreeNode) : Vfs :=
  let nodes := Function.update v.nodes child node
  let parent := { v.nodes dir with finddir := .ramfs (children ++ [child]) }
  { v with nodes := Function.update nodes dir parent }

def Vfs.dropChild (v : Vfs) (dir child : Nat) (children : List Nat) : Vfs :=
  let parent := { v.nodes dir with finddir := .ramfs (children.erase child) }
  { v with nodes := Function.update v.nodes dir parent }

/-- `ramfs_create`, given whether there is memory for the node and its place. -/
def ramfsCreate (s : MountSystem) (dir : Nat) (name : List UInt8) (type : Nat) (memory : Bool) :
    Int × MountSystem :=
  match (s.vfs.nodes dir).finddir with
  | .other _ => (-1, s)
  | .ramfs children =>
      if (s.vfs.nodes dir).isDirectory = false then (-1, s)
      else if (ramfsFinddir s.vfs children (cString name)).isSome then (-1, s)
      else if memory = false then (-1, s)
      else
        let child := 2 * s.nodes
        let node : TreeNode := { ramfsAllocNode name type (s.nodes + 1) with
          finddir := .ramfs [], parent := some dir }
        (0, { s with vfs := s.vfs.addChild dir child children node, nodes := s.nodes + 1 })

def ramfsUnlink (s : MountSystem) (dir : Nat) (name : List UInt8) : Int × MountSystem :=
  match (s.vfs.nodes dir).finddir with
  | .other _ => (-1, s)
  | .ramfs children =>
      if (s.vfs.nodes dir).isDirectory = false then (-1, s)
      else
        match ramfsFinddir s.vfs children (cString name) with
        | none => (-1, s)
        | some child =>
            if (s.vfs.nodes child).isDirectory ∧ 0 < s.vfs.childCount child then (-1, s)
            else
              let vfs := s.vfs.dropChild dir child children
              (0, { s with vfs, freed := child :: s.freed })

def fat32Mount (s : MountSystem) : Nat × MountSystem :=
  (s.volumes, { s with volumes := s.volumes + 1, live := s.volumes :: s.live })

def fat32Unmount (s : MountSystem) (volume : Nat) : MountSystem :=
  { s with live := s.live.erase volume }

/-- The volume of an earlier `fatmount` is unmounted from the new path and released. -/
def releaseFat32 (s : MountSystem) (mountPath : List UInt8) : MountSystem :=
  match s.mountedFat32 with
  | none => s
  | some volume =>
      { fat32Unmount { s with vfs := (vfsUnmount s.vfs mountPath).2 } volume with
        mountedFat32 := none }

/-- `cmd_fatmount`, given whether the drive is there, whether it has a FAT32 volume, and
whether there is memory for the node of its root. -/
def cmdFatmount (s : MountSystem) (mountPath : List UInt8) (drive readable memory : Bool) :
    MountSystem :=
  if drive = false then s
  else
    let s := releaseFat32 s mountPath
    if readable = false then s
    else
      let (volume, s) := fat32Mount s
      if memory = false then fat32Unmount s volume
      else
        let mounted := vfsMount s.vfs mountPath (fatNode volume 0)
        if mounted.1 < 0 then fat32Unmount s volume
        else { s with vfs := mounted.2, mountedFat32 := some volume }

/-- `fat32_automount_all` for one drive. -/
def fat32Automount (s : MountSystem) (mountPath : List UInt8) (readable memory : Bool) :
    MountSystem :=
  if readable = false then s
  else
    let (volume, s) := fat32Mount s
    if memory = false then s
    else { s with vfs := (vfsMount s.vfs mountPath (fatNode volume 0)).2 }

inductive FsCall where
  | mount (path : List UInt8) (fsRoot : Nat)
  | unmount (path : List UInt8)
  | create (dir : Nat) (name : List UInt8) (memory : Bool)
  | unlink (dir : Nat) (name : List UInt8)
  | automount (path : List UInt8) (readable memory : Bool)
  | fatmount (path : List UInt8) (drive readable memory : Bool)

def fsStep (s : MountSystem) : FsCall → MountSystem
  | .mount path fsRoot => { s with vfs := (vfsMount s.vfs path fsRoot).2 }
  | .unmount path => { s with vfs := (vfsUnmount s.vfs path).2 }
  | .create dir name memory => (ramfsCreate s dir name vfsDirectory memory).2
  | .unlink dir name => (ramfsUnlink s dir name).2
  | .automount path readable memory => fat32Automount s path readable memory
  | .fatmount path drive readable memory => cmdFatmount s path drive readable memory

/-- A node that was not freed, of a volume that was not released. -/
structure MountSystem.Alive (s : MountSystem) (node : Nat) : Prop where
  kept : node ∉ s.freed
  volume : ∀ volume, fatVolume node = some volume → volume ∈ s.live

def MountsAlive (s : MountSystem) : Prop :=
  ∀ entry ∈ s.vfs.mounts, s.Alive entry.mountPoint ∧ s.Alive entry.fsRoot

/-- One step of a path: to a child, to the root mounted on a node, or to the parent. -/
inductive Vfs.Edge (v : Vfs) : Nat → Nat → Prop
  | child {dir child children} : (v.nodes dir).finddir = .ramfs children → child ∈ children →
      v.Edge dir child
  | entry {dir node find name} : (v.nodes dir).finddir = .other find → find name = some node →
      v.Edge dir node
  | mounted {node root} : v.mounted node = some root → v.Edge node root
  | parent {node parent} : (v.nodes node).parent = some parent → v.Edge node parent

/-- The nodes that paths lead to. -/
def Vfs.Found (v : Vfs) (node : Nat) : Prop :=
  ∃ root, v.root = some root ∧ Relation.ReflTransGen v.Edge root node

/-- The caller names nodes that paths lead to.  A directory is removed only if the mount table
does not refer to it and it is nobody's parent.  `fatmount` releases a volume only if the
mount table, without the entry it unmounts, does not refer to it, and none of its nodes is
the parent of one outside. -/
def FsCareful (s : MountSystem) : FsCall → Prop
  | .mount _ fsRoot => s.vfs.Found fsRoot
  | .create dir _ _ => s.vfs.Found dir
  | .unlink dir name => ∀ children child, (s.vfs.nodes dir).finddir = .ramfs children →
      ramfsFinddir s.vfs children (cString name) = some child →
      ¬ ((s.vfs.nodes child).isDirectory ∧ 0 < s.vfs.childCount child) →
      (∀ entry ∈ s.vfs.mounts, entry.mountPoint ≠ child ∧ entry.fsRoot ≠ child) ∧
        ∀ node, s.vfs.Found node → (s.vfs.nodes node).parent ≠ some child
  | .fatmount path drive _ _ => ∀ volume, drive = true → s.mountedFat32 = some volume →
      (∀ entry ∈ (vfsUnmount s.vfs path).2.mounts,
        fatVolume entry.mountPoint ≠ some volume ∧ fatVolume entry.fsRoot ≠ some volume) ∧
        ∀ node parent, s.vfs.Found node → (s.vfs.nodes node).parent = some parent →
          fatVolume parent = some volume → fatVolume node = some volume
  | _ => True

section Paths

variable {v after : Vfs}

theorem Vfs.Found.step {node next : Nat} (found : v.Found node) (edge : v.Edge node next) :
    v.Found next := by
  obtain ⟨root, isRoot, path⟩ := found
  exact ⟨root, isRoot, path.tail edge⟩

/-- What holds of the root and along every edge holds of all nodes that paths lead to. -/
theorem Vfs.Found.closed (holds : Nat → Prop) {node : Nat} (found : v.Found node)
    (base : ∀ root, v.root = some root → holds root)
    (step : ∀ node next, holds node → v.Edge node next → holds next) : holds node := by
  obtain ⟨root, isRoot, path⟩ := found
  induction path with
  | refl => exact base root isRoot
  | tail _ edge ih => exact step _ _ ih edge

theorem Vfs.Found.mono {node : Nat} (found : after.Found node) (root : after.root = v.root)
    (edges : ∀ node next, after.Edge node next → v.Edge node next) : v.Found node :=
  found.closed v.Found (fun top isTop => ⟨top, root ▸ isTop, .refl⟩)
    fun node next here edge => here.step (edges node next edge)

theorem Vfs.Found.getD_mounted {node : Nat} (found : v.Found node) :
    v.Found ((v.mounted node).getD node) := by
  cases mounted : v.mounted node with
  | none => exact found
  | some root => exact found.step (.mounted mounted)

theorem vfsFinddir_found {dir next : Nat} {name : List UInt8} (found : v.Found dir)
    (result : vfsFinddir v dir name = some next) : v.Found next := by
  unfold vfsFinddir at result
  split at result
  · obtain ⟨node, isNode, rfl⟩ := Option.map_eq_some_iff.mp result
    refine Vfs.Found.getD_mounted (found.step ?_)
    unfold Vfs.finddir at isNode
    split at isNode
    · rename_i children isRamfs
      exact .child isRamfs (List.mem_of_find?_eq_some isNode)
    · rename_i find isOther
      exact .entry isOther isNode
  · cases result

theorem lookupFrom_found {current node : Nat} {path : List UInt8} (found : v.Found current)
    (result : v.lookupFrom current path = some node) : v.Found node := by
  induction size : path.length using Nat.strongRecOn generalizing current path with
  | ind length ih =>
      subst size
      rw [Vfs.lookupFrom] at result
      split at result
      · exact Option.some.inj result ▸ found
      · rename_i nonempty
        have shorter := nextComponent_shorter nonempty
        dsimp only at result
        split at result
        · exact ih _ shorter found result rfl
        · split at result
          · refine ih _ shorter ?_ result rfl
            cases parent : (v.nodes current).parent with
            | none => exact found
            | some parent => exact found.step (.parent ‹_›)
          · split at result
            · split at result
              · cases result
              · rename_i next isNext
                exact ih _ shorter (vfsFinddir_found found isNext).getD_mounted result rfl
            · cases result

theorem vfsLookup_found {path : List UInt8} {node : Nat} (result : vfsLookup v path = some node) :
    v.Found node := by
  obtain ⟨root, isRoot, rest⟩ := Option.bind_eq_some_iff.mp result
  have top : v.Found root := ⟨root, isRoot, .refl⟩
  dsimp only at rest
  split at rest
  · exact Option.some.inj rest ▸ top
  · exact lookupFrom_found top rest

end Paths

section Mounts

variable {v : Vfs} {path : List UInt8} {mountPoint fsRoot : Nat}

theorem withMount_finddir (node : Nat) :
    ((v.withMount path mountPoint fsRoot).nodes node).finddir = (v.nodes node).finddir := by
  by_cases isRoot : node = fsRoot <;> by_cases isPoint : node = mountPoint <;>
    simp_all [Vfs.withMount, Function.update_apply]

theorem withMount_mounted (node : Nat) :
    (v.withMount path mountPoint fsRoot).mounted node =
      if node = mountPoint then some fsRoot else v.mounted node := by
  have flag := (setMountpoint (v.nodes mountPoint).flags).1
  by_cases isRoot : node = fsRoot <;> by_cases isPoint : node = mountPoint <;>
    simp_all [Vfs.withMount, Vfs.mounted, Function.update_apply]

theorem withMount_parent (node : Nat) :
    ((v.withMount path mountPoint fsRoot).nodes node).parent =
      if node = fsRoot then (v.nodes mountPoint).parent else (v.nodes node).parent := by
  by_cases isRoot : node = fsRoot <;> by_cases isPoint : node = mountPoint <;>
    simp_all [Vfs.withMount, Function.update_apply]

/-- A mount leads from its point to its root, and from there to the point's parent. -/
theorem withMount_edge {node next : Nat}
    (edge : (v.withMount path mountPoint fsRoot).Edge node next) :
    v.Edge node next ∨ node = mountPoint ∧ next = fsRoot ∨
      node = fsRoot ∧ v.Edge mountPoint next := by
  cases edge with
  | child isRamfs member =>
      rw [withMount_finddir] at isRamfs
      exact .inl (.child isRamfs member)
  | entry isOther found =>
      rw [withMount_finddir] at isOther
      exact .inl (.entry isOther found)
  | mounted root =>
      rw [withMount_mounted] at root
      split at root
      · exact .inr (.inl ⟨‹_›, (Option.some.inj root).symm⟩)
      · exact .inl (.mounted root)
  | parent parent =>
      rw [withMount_parent] at parent
      split at parent
      · exact .inr (.inr ⟨‹_›, .parent parent⟩)
      · exact .inl (.parent parent)

theorem withoutMount_edge {entry : MountEntry} {mounts : List MountEntry} {node next : Nat}
    (edge : (v.withoutMount entry mounts).Edge node next) : v.Edge node next := by
  have same := withoutMount_same (v := v) entry mounts node
  cases edge with
  | child isRamfs member => exact .child (same.2.1.symm.trans isRamfs) member
  | entry isOther found => exact .entry (same.2.1.symm.trans isOther) found
  | mounted root =>
      rw [withoutMount_mounted] at root
      split at root
      · cases root
      · exact .mounted root
  | parent parent => exact .parent (same.2.2.2.symm.trans parent)

end Mounts

/-- The ramfs nodes form trees below directories, and a volume keeps to its own nodes. -/
structure FsShape (v : Vfs) (nodes : Nat) : Prop where
  top : ∀ root, v.root = some root → fatVolume root = none ∧ root < 2 * nodes ∧
    ∀ dir children, (v.nodes dir).finddir = .ramfs children → root ∉ children
  once : ∀ dir children, (v.nodes dir).finddir = .ramfs children → children.Nodup
  apart : ∀ dir other children others child, (v.nodes dir).finddir = .ramfs children →
    (v.nodes other).finddir = .ramfs others → child ∈ children → child ∈ others → dir = other
  plain : ∀ dir children child, (v.nodes dir).finddir = .ramfs children → child ∈ children →
    fatVolume child = none ∧ child < 2 * nodes
  inside : ∀ dir find name node, (v.nodes dir).finddir = .other find → find name = some node →
    fatVolume dir ≠ none ∧ fatVolume node = fatVolume dir
  volumes : ∀ dir volume, fatVolume dir = some volume →
    ∃ find, (v.nodes dir).finddir = .other find

theorem FsShape.congr {v after : Vfs} {nodes : Nat} (shape : FsShape v nodes)
    (root : after.root = v.root)
    (same : ∀ node, (after.nodes node).finddir = (v.nodes node).finddir) :
    FsShape after nodes := by
  constructor
  · intro top isTop
    obtain ⟨plain, bound, outside⟩ := shape.top top (root ▸ isTop)
    exact ⟨plain, bound,
      fun dir children isRamfs => outside dir children ((same dir).symm.trans isRamfs)⟩
  · exact fun dir children isRamfs => shape.once dir children ((same dir).symm.trans isRamfs)
  · exact fun dir other children others child first second => shape.apart dir other children others
      child ((same dir).symm.trans first) ((same other).symm.trans second)
  · exact fun dir children child isRamfs => shape.plain dir children child
      ((same dir).symm.trans isRamfs)
  · exact fun dir find name node isOther => shape.inside dir find name node
      ((same dir).symm.trans isOther)
  · intro dir volume isVolume
    obtain ⟨find, isOther⟩ := shape.volumes dir volume isVolume
    exact ⟨find, (same dir).trans isOther⟩

structure FsKept (s : MountSystem) : Prop where
  shape : FsShape s.vfs s.nodes
  alive : ∀ node, s.vfs.Found node → s.Alive node
  table : MountsAlive s
  flagged : ∀ node root, s.vfs.mounted node = some root →
    ∃ entry ∈ s.vfs.mounts, entry.mountPoint = node ∧ entry.fsRoot = root
  /-- Of the nodes of volumes to come, no parent lies elsewhere. -/
  dormant : ∀ node volume parent, fatVolume node = some volume → s.volumes ≤ volume →
    (s.vfs.nodes node).parent = some parent → fatVolume parent = some volume
  freed : ∀ node ∈ s.freed, fatVolume node = none ∧ node < 2 * s.nodes
  used : ∀ volume ∈ s.live, volume < s.volumes

section Kept

variable {s : MountSystem}

theorem MountSystem.Alive.grow {node : Nat} (alive : s.Alive node) {live : List Nat}
    (grow : ∀ volume ∈ s.live, volume ∈ live) (vfs : Vfs) (volumes : Nat)
    (mountedFat32 : Option Nat) :
    MountSystem.Alive { s with vfs, volumes, live, mountedFat32 } node :=
  ⟨alive.kept, fun volume isVolume => grow volume (alive.volume volume isVolume)⟩

theorem FsKept.grow (kept : FsKept s) {volumes : Nat} {live : List Nat}
    (more : s.volumes ≤ volumes) (grow : ∀ volume ∈ s.live, volume ∈ live)
    (used : ∀ volume ∈ live, volume < volumes) (mountedFat32 : Option Nat) :
    FsKept { s with volumes, live, mountedFat32 } where
  shape := kept.shape
  alive node found := (kept.alive node found).grow grow ..
  table entry member := ⟨(kept.table entry member).1.grow grow .., (kept.table entry member).2.grow grow ..⟩
  flagged := kept.flagged
  dormant node volume parent isVolume later := kept.dormant node volume parent isVolume
    (more.trans later)
  freed := kept.freed
  used := used

theorem FsKept.unmount (kept : FsKept s) (path : List UInt8) :
    FsKept { s with vfs := (vfsUnmount s.vfs path).2 } ∧
      (∀ node next, (vfsUnmount s.vfs path).2.Edge node next → s.vfs.Edge node next) ∧
      ∀ node, ((vfsUnmount s.vfs path).2.nodes node).parent = (s.vfs.nodes node).parent := by
  rcases vfsUnmount_cases s.vfs path with ⟨entry, front, back, split, _, _, done⟩ | ⟨_, done⟩
  · rw [done]
    have fewer : ∀ other ∈ front ++ back, other ∈ s.vfs.mounts := by
      intro other member
      rw [split]
      exact (List.append_sublist_append_left front).mpr (List.sublist_cons_self ..) |>.subset member
    have same := withoutMount_same (v := s.vfs) entry (front ++ back)
    refine ⟨⟨kept.shape.congr rfl fun node => (same node).2.1, fun node found => ?_,
      fun other member => ?_, fun node root mounted => ?_,
      fun node volume parent isVolume later isParent => ?_, kept.freed, kept.used⟩,
      fun node next => withoutMount_edge, fun node => (same node).2.2.2⟩
    · exact (kept.alive node (found.mono rfl fun node next => withoutMount_edge)).grow
        (fun _ isLive => isLive) ..
    · obtain ⟨point, root⟩ := kept.table other (fewer other member)
      exact ⟨point.grow (fun _ isLive => isLive) .., root.grow (fun _ isLive => isLive) ..⟩
    · rw [withoutMount_mounted] at mounted
      split at mounted
      · cases mounted
      · rename_i apart
        obtain ⟨other, member, isPoint, isRoot⟩ := kept.flagged node root mounted
        refine ⟨other, ?_, isPoint, isRoot⟩
        rw [split] at member
        rcases List.mem_append.mp member with before | rest
        · exact List.mem_append_left _ before
        · rcases List.mem_cons.mp rest with rfl | later
          · exact absurd isPoint.symm apart
          · exact List.mem_append_right _ later
    · exact kept.dormant node volume parent isVolume later ((same node).2.2.2.symm.trans isParent)
  · rw [done]
    exact ⟨kept, fun _ _ edge => edge, fun _ => rfl⟩

/-- A path stays among the nodes of a volume that is not mounted yet. -/
theorem FsKept.dormant_edge (kept : FsKept s) {node next volume : Nat}
    (isVolume : fatVolume node = some volume) (later : s.volumes ≤ volume)
    (edge : s.vfs.Edge node next) : fatVolume next = some volume := by
  cases edge with
  | child isRamfs _ =>
      obtain ⟨find, isOther⟩ := kept.shape.volumes _ _ isVolume
      rw [isRamfs] at isOther
      cases isOther
  | entry isOther found => exact (kept.shape.inside _ _ _ _ isOther found).2.trans isVolume
  | mounted root =>
      obtain ⟨entry, member, rfl, _⟩ := kept.flagged _ _ root
      have earlier := kept.used _ ((kept.table entry member).1.volume _ isVolume)
      omega
  | parent parent => exact kept.dormant _ _ _ isVolume later parent

/-- A root that was found, or that of a volume just read, is mounted. -/
theorem FsKept.mount (kept : FsKept s) {volumes fsRoot : Nat} {live : List Nat}
    (more : s.volumes ≤ volumes) (grow : ∀ volume ∈ s.live, volume ∈ live)
    (used : ∀ volume ∈ live, volume < volumes)
    (new : s.vfs.Found fsRoot ∨
      ∃ volume ∈ live, fatVolume fsRoot = some volume ∧ s.volumes ≤ volume)
    (path : List UInt8) (mountedFat32 : Option Nat) :
    FsKept { s with vfs := (vfsMount s.vfs path fsRoot).2, volumes, live, mountedFat32 } := by
  rcases vfsMount_cases s.vfs path fsRoot with ⟨mountPoint, accepts, done⟩ | ⟨_, _, _, done⟩
  · rw [done]
    have point := vfsLookup_found accepts.found
    -- What paths lead to is what they led to before and the nodes of the new volume.
    let reach : Nat → Prop := fun node => s.vfs.Found node ∨
      ∃ volume ∈ live, fatVolume node = some volume ∧ s.volumes ≤ volume
    have reached : ∀ node, (s.vfs.withMount path mountPoint fsRoot).Found node → reach node := by
      intro node found
      refine found.closed reach ?_ ?_
      · exact fun root isRoot => .inl ⟨root, isRoot, .refl⟩
      intro node next here edge
      rcases withMount_edge edge with old | ⟨_, rfl⟩ | ⟨_, old⟩
      · rcases here with here | ⟨volume, isLive, isVolume, later⟩
        · exact .inl (here.step old)
        · exact .inr ⟨volume, isLive, kept.dormant_edge isVolume later old, later⟩
      · exact new
      · exact .inl (point.step old)
    have alive : ∀ node, reach node →
        MountSystem.Alive { s with
          vfs := s.vfs.withMount path mountPoint fsRoot, volumes, live, mountedFat32 } node := by
      rintro node (found | ⟨volume, isLive, isVolume, _⟩)
      · exact (kept.alive node found).grow grow ..
      · refine ⟨fun freed => ?_, fun other isOther => ?_⟩
        · have plain := (kept.freed node freed).1
          rw [isVolume] at plain
          cases plain
        · obtain rfl : other = volume := Option.some.inj (isOther.symm.trans isVolume)
          exact isLive
    refine ⟨kept.shape.congr rfl withMount_finddir, fun node found => alive node (reached node found),
      fun entry member => ?_, fun node root mounted => ?_,
      fun node volume parent isVolume later isParent => ?_, kept.freed, used⟩
    · rcases List.mem_append.mp member with old | last
      · obtain ⟨point, root⟩ := kept.table entry old
        exact ⟨point.grow grow .., root.grow grow ..⟩
      · rw [List.mem_singleton.mp last]
        exact ⟨alive mountPoint (.inl point), alive fsRoot new⟩
    · rw [withMount_mounted] at mounted
      split at mounted
      · exact ⟨_, List.mem_append_right _ (List.mem_singleton_self _), Eq.symm ‹_›,
          Option.some.inj mounted⟩
      · obtain ⟨entry, member, same⟩ := kept.flagged node root mounted
        exact ⟨entry, List.mem_append_left _ member, same⟩
    · rw [withMount_parent] at isParent
      split at isParent
      · rename_i isRoot
        subst isRoot
        have early := used volume ((alive node new).volume volume isVolume)
        exact absurd later (Nat.not_le.mpr early)
      · exact kept.dormant node volume parent isVolume (more.trans later) isParent
  · rw [done]
    exact kept.grow more grow used mountedFat32

theorem fatVolume_even (n : Nat) : fatVolume (2 * n) = none := if_neg (by omega)

theorem fatVolume_fatNode (volume index : Nat) : fatVolume (fatNode volume index) = some volume := by
  have half : (2 * Nat.pair volume index + 1) / 2 = Nat.pair volume index := by omega
  unfold fatVolume fatNode
  rw [if_pos (by omega), half, Nat.unpair_pair]

/-- The tree with an empty directory added below `dir`. -/
structure AddsChild (v after : Vfs) (dir child : Nat) (children : List Nat) : Prop where
  root : after.root = v.root
  mounts : after.mounts = v.mounts
  finddir : ∀ node, (after.nodes node).finddir =
    if node = dir then .ramfs (children ++ [child])
    else if node = child then .ramfs [] else (v.nodes node).finddir
  mounted : ∀ node root, after.mounted node = some root →
    v.mounted node = some root ∧ (node = child → node = dir)
  parent : ∀ node parent, (after.nodes node).parent = some parent →
    node = child ∧ parent = dir ∨
      (v.nodes node).parent = some parent ∧ (node = child → node = dir)

theorem ramfsCreate_cases (s : MountSystem) (dir : Nat) (name : List UInt8) (memory : Bool) :
    (ramfsCreate s dir name vfsDirectory memory).2 = s ∨
      ∃ children vfs, (s.vfs.nodes dir).finddir = .ramfs children ∧
        AddsChild s.vfs vfs dir (2 * s.nodes) children ∧
        (ramfsCreate s dir name vfsDirectory memory).2 = { s with vfs, nodes := s.nodes + 1 } := by
  unfold ramfsCreate
  split
  · exact .inl rfl
  · rename_i children isRamfs
    split
    · exact .inl rfl
    · split
      · exact .inl rfl
      · split
        · exact .inl rfl
        · refine .inr ⟨children, _, isRamfs, ?_, rfl⟩
          refine ⟨rfl, rfl, fun node => ?_, fun node root => ?_, fun node parent => ?_⟩
          · by_cases isDir : node = dir
            · subst isDir
              simp [Vfs.addChild]
            · by_cases isNew : node = 2 * s.nodes
              · subst isNew
                simp [Vfs.addChild, isDir]
              · simp [Vfs.addChild, isDir, isNew]
          · by_cases isDir : node = dir
            · subst isDir
              simp [Vfs.mounted, Vfs.addChild]
            · by_cases isNew : node = 2 * s.nodes
              · subst isNew
                simp [Vfs.mounted, Vfs.addChild, isDir, ramfsAllocNode]
              · simp [Vfs.mounted, Vfs.addChild, isDir, isNew]
          · by_cases isDir : node = dir
            · subst isDir
              simp +contextual [Vfs.addChild]
            · by_cases isNew : node = 2 * s.nodes
              · subst isNew
                simp [Vfs.addChild, isDir, eq_comm]
              · simp [Vfs.addChild, isDir, isNew]

section AddsChild

variable {v after : Vfs} {dir child node : Nat} {children list : List Nat}

/-- A list of children after a child was added: that of the directory, that of the child, or
an old one. -/
theorem AddsChild.ramfs (adds : AddsChild v after dir child children)
    (isList : (after.nodes node).finddir = .ramfs list) :
    node = dir ∧ list = children ++ [child] ∨ list = [] ∨
      (v.nodes node).finddir = .ramfs list ∧ node ≠ child := by
  rw [adds.finddir] at isList
  split at isList
  · exact .inl ⟨‹_›, (Finddir.ramfs.inj isList).symm⟩
  · split at isList
    · exact .inr (.inl (Finddir.ramfs.inj isList).symm)
    · exact .inr (.inr ⟨isList, ‹_›⟩)

theorem AddsChild.other (adds : AddsChild v after dir child children)
    {find : List UInt8 → Option Nat} (isOther : (after.nodes node).finddir = .other find) :
    (v.nodes node).finddir = .other find ∧ node ≠ child := by
  rw [adds.finddir] at isOther
  split at isOther
  · cases isOther
  · split at isOther
    · cases isOther
    · exact ⟨isOther, ‹_›⟩

theorem AddsChild.edge (adds : AddsChild v after dir child children)
    (isRamfs : (v.nodes dir).finddir = .ramfs children) {next : Nat}
    (edge : after.Edge node next) :
    v.Edge node next ∧ (node = child → node = dir) ∨ next = child ∨ next = dir := by
  cases edge with
  | child isList member =>
      rcases adds.ramfs isList with ⟨rfl, rfl⟩ | rfl | ⟨old, apart⟩
      · rcases List.mem_append.mp member with old | last
        · exact .inl ⟨.child isRamfs old, fun _ => rfl⟩
        · exact .inr (.inl (List.mem_singleton.mp last))
      · cases member
      · exact .inl ⟨.child old member, fun isNew => absurd isNew apart⟩
  | entry isOther found =>
      obtain ⟨old, apart⟩ := adds.other isOther
      exact .inl ⟨.entry old found, fun isNew => absurd isNew apart⟩
  | mounted root =>
      obtain ⟨old, own⟩ := adds.mounted _ _ root
      exact .inl ⟨.mounted old, own⟩
  | parent parent =>
      rcases adds.parent _ _ parent with ⟨_, isDir⟩ | ⟨old, own⟩
      · exact .inr (.inr isDir)
      · exact .inl ⟨.parent old, own⟩

/-- A child in a list is the new one, or one that was in the node's list before. -/
theorem AddsChild.member (adds : AddsChild v after dir child children)
    (isRamfs : (v.nodes dir).finddir = .ramfs children)
    (isList : (after.nodes node).finddir = .ramfs list) {next : Nat} (member : next ∈ list) :
    next = child ∧ node = dir ∨
      ∃ old, (v.nodes node).finddir = .ramfs old ∧ next ∈ old := by
  rcases adds.ramfs isList with ⟨rfl, rfl⟩ | rfl | ⟨old, _⟩
  · rcases List.mem_append.mp member with old | last
    · exact .inr ⟨children, isRamfs, old⟩
    · exact .inl ⟨List.mem_singleton.mp last, rfl⟩
  · cases member
  · exact .inr ⟨list, old, member⟩

theorem AddsChild.shape {nodes : Nat} (adds : AddsChild v after dir (2 * nodes) children)
    (shape : FsShape v nodes) (isRamfs : (v.nodes dir).finddir = .ramfs children) :
    FsShape after (nodes + 1) := by
  constructor
  · intro root isRoot
    obtain ⟨plain, bound, outside⟩ := shape.top root (adds.root ▸ isRoot)
    refine ⟨plain, by omega, fun node list isList member => ?_⟩
    rcases adds.member isRamfs isList member with ⟨isNew, _⟩ | ⟨old, isOld, inOld⟩
    · omega
    · exact outside node old isOld inOld
  · intro node list isList
    rcases adds.ramfs isList with ⟨rfl, rfl⟩ | rfl | ⟨old, _⟩
    · refine List.nodup_append.mpr ⟨shape.once node children isRamfs, List.nodup_singleton _, ?_⟩
      rintro old inOld new last rfl
      have bound := (shape.plain node children old isRamfs inOld).2
      have isNew := List.mem_singleton.mp last
      omega
    · exact .nil
    · exact shape.once node list old
  · intro node other list others child first second inFirst inSecond
    rcases adds.member isRamfs first inFirst with ⟨isNew, isDir⟩ | ⟨old, isOld, inOld⟩
    · rcases adds.member isRamfs second inSecond with ⟨_, isOther⟩ | ⟨also, isAlso, inAlso⟩
      · rw [isDir, isOther]
      · have bound := (shape.plain other also child isAlso inAlso).2
        omega
    · rcases adds.member isRamfs second inSecond with ⟨isNew, _⟩ | ⟨also, isAlso, inAlso⟩
      · have bound := (shape.plain node old child isOld inOld).2
        omega
      · exact shape.apart node other old also child isOld isAlso inOld inAlso
  · intro node list child isList member
    rcases adds.member isRamfs isList member with ⟨rfl, _⟩ | ⟨old, isOld, inOld⟩
    · exact ⟨fatVolume_even nodes, by omega⟩
    · obtain ⟨plain, bound⟩ := shape.plain node old child isOld inOld
      exact ⟨plain, by omega⟩
  · intro node find name next isOther
    exact shape.inside node find name next (adds.other isOther).1
  · intro node volume isVolume
    obtain ⟨find, isOther⟩ := shape.volumes node volume isVolume
    refine ⟨find, ?_⟩
    rw [adds.finddir, if_neg, if_neg]
    · exact isOther
    · rintro rfl
      rw [fatVolume_even] at isVolume
      cases isVolume
    · rintro rfl
      rw [isRamfs] at isOther
      cases isOther

end AddsChild

theorem ramfsCreate_kept (kept : FsKept s) {dir : Nat} {name : List UInt8} {memory : Bool}
    (found : s.vfs.Found dir) : FsKept (fsStep s (.create dir name memory)) := by
  simp only [fsStep]
  rcases ramfsCreate_cases s dir name memory with same | ⟨children, vfs, isRamfs, adds, result⟩
  · rw [same]
    exact kept
  · rw [result]
    have alive : ∀ node, s.vfs.Found node ∨ node = 2 * s.nodes →
        MountSystem.Alive { s with vfs, nodes := s.nodes + 1 } node := by
      rintro node (old | rfl)
      · exact ⟨(kept.alive node old).kept, (kept.alive node old).volume⟩
      · refine ⟨fun freed => ?_, fun volume isVolume => ?_⟩
        · have bound := (kept.freed _ freed).2
          omega
        · rw [fatVolume_even] at isVolume
          cases isVolume
    refine ⟨adds.shape kept.shape isRamfs, fun node isFound => alive node ?_, fun entry member => ?_,
      fun node root mounted => ?_, fun node volume parent isVolume later isParent => ?_,
      fun node freed => ?_, kept.used⟩
    · let reach : Nat → Prop := fun node => s.vfs.Found node ∨ node = 2 * s.nodes
      refine isFound.closed reach (fun root isRoot => .inl ⟨root, adds.root ▸ isRoot, .refl⟩) ?_
      intro node next here edge
      rcases adds.edge isRamfs edge with ⟨old, own⟩ | rfl | rfl
      · rcases here with here | isNew
        · exact .inl (here.step old)
        · exact .inl ((own isNew ▸ found).step old)
      · exact .inr rfl
      · exact .inl found
    · rw [adds.mounts] at member
      obtain ⟨point, root⟩ := kept.table entry member
      exact ⟨⟨point.kept, point.volume⟩, ⟨root.kept, root.volume⟩⟩
    · rw [adds.mounts]
      exact kept.flagged node root (adds.mounted node root mounted).1
    · rcases adds.parent node parent isParent with ⟨rfl, _⟩ | ⟨old, _⟩
      · rw [fatVolume_even] at isVolume
        cases isVolume
      · exact kept.dormant node volume parent isVolume later old
    · obtain ⟨plain, bound⟩ := kept.freed node freed
      exact ⟨plain, Nat.lt_of_lt_of_le bound (Nat.mul_le_mul_left 2 (Nat.le_succ s.nodes))⟩

theorem ramfsUnlink_cases (s : MountSystem) (dir : Nat) (name : List UInt8) :
    (ramfsUnlink s dir name).2 = s ∨ ∃ children child,
      (s.vfs.nodes dir).finddir = .ramfs children ∧
      ramfsFinddir s.vfs children (cString name) = some child ∧
      ¬ ((s.vfs.nodes child).isDirectory ∧ 0 < s.vfs.childCount child) ∧
      (ramfsUnlink s dir name).2 =
        { s with vfs := s.vfs.dropChild dir child children, freed := child :: s.freed } := by
  unfold ramfsUnlink
  split
  · exact .inl rfl
  · rename_i children isRamfs
    split
    · exact .inl rfl
    · split
      · exact .inl rfl
      · rename_i child isChild
        split
        · exact .inl rfl
        · rename_i empty
          exact .inr ⟨children, child, isRamfs, isChild, empty, rfl⟩

theorem dropChild_same (v : Vfs) (dir child : Nat) (children : List Nat) (node : Nat) :
    let after := v.dropChild dir child children
    after.mounted node = v.mounted node ∧ (after.nodes node).parent = (v.nodes node).parent ∧
      (after.nodes node).finddir =
        if node = dir then .ramfs (children.erase child) else (v.nodes node).finddir := by
  by_cases isDir : node = dir
  · subst isDir
    simp [Vfs.dropChild, Vfs.mounted]
  · simp [Vfs.dropChild, Vfs.mounted, isDir]

theorem dropChild_shape {v : Vfs} {dir child nodes : Nat} {children : List Nat}
    (shape : FsShape v nodes) (isRamfs : (v.nodes dir).finddir = .ramfs children) :
    FsShape (v.dropChild dir child children) nodes := by
  have same := fun node => (dropChild_same v dir child children node).2.2
  have lists : ∀ node list, ((v.dropChild dir child children).nodes node).finddir = .ramfs list →
      ∃ old, (v.nodes node).finddir = .ramfs old ∧ list.Sublist old := by
    intro node list isList
    rw [same] at isList
    split at isList
    · rename_i isDir
      obtain rfl := Finddir.ramfs.inj isList
      exact ⟨children, isDir ▸ isRamfs, List.erase_sublist⟩
    · exact ⟨list, isList, .refl _⟩
  have others : ∀ node find, ((v.dropChild dir child children).nodes node).finddir = .other find ↔
      (v.nodes node).finddir = .other find := by
    intro node find
    rw [same]
    split
    · rename_i isDir
      rw [isDir, isRamfs]
      simp
    · rfl
  constructor
  · intro root isRoot
    obtain ⟨plain, bound, outside⟩ := shape.top root isRoot
    refine ⟨plain, bound, fun node list isList member => ?_⟩
    obtain ⟨old, isOld, fewer⟩ := lists node list isList
    exact outside node old isOld (fewer.subset member)
  · intro node list isList
    obtain ⟨old, isOld, fewer⟩ := lists node list isList
    exact fewer.nodup (shape.once node old isOld)
  · intro node other list also next first second inFirst inSecond
    obtain ⟨old, isOld, fewer⟩ := lists node list first
    obtain ⟨past, isPast, less⟩ := lists other also second
    exact shape.apart node other old past next isOld isPast (fewer.subset inFirst)
      (less.subset inSecond)
  · intro node list next isList member
    obtain ⟨old, isOld, fewer⟩ := lists node list isList
    exact shape.plain node old next isOld (fewer.subset member)
  · exact fun node find name next isOther => shape.inside node find name next
      ((others node find).mp isOther)
  · intro node volume isVolume
    obtain ⟨find, isOther⟩ := shape.volumes node volume isVolume
    exact ⟨find, (others node find).mpr isOther⟩

theorem dropChild_edge {v : Vfs} {dir child : Nat} {children : List Nat}
    (isRamfs : (v.nodes dir).finddir = .ramfs children) {node next : Nat}
    (edge : (v.dropChild dir child children).Edge node next) : v.Edge node next := by
  obtain ⟨mounted, parent, finddir⟩ := dropChild_same v dir child children node
  cases edge with
  | child isList member =>
      rw [finddir] at isList
      split at isList
      · rename_i isDir
        obtain rfl := Finddir.ramfs.inj isList
        exact .child (isDir ▸ isRamfs) (List.mem_of_mem_erase member)
      · exact .child isList member
  | entry isOther found =>
      rw [finddir] at isOther
      split at isOther
      · cases isOther
      · exact .entry isOther found
  | mounted root => exact .mounted (mounted ▸ root)
  | parent isParent => exact .parent (parent ▸ isParent)

/-- After its removal no path leads to a directory that nothing else refers to. -/
theorem dropChild_lost (kept : FsKept s) {dir child : Nat} {children : List Nat}
    (isRamfs : (s.vfs.nodes dir).finddir = .ramfs children) (inside : child ∈ children)
    (unmounted : ∀ entry ∈ s.vfs.mounts, entry.fsRoot ≠ child)
    (childless : ∀ node, s.vfs.Found node → (s.vfs.nodes node).parent ≠ some child) {node : Nat}
    (found : (s.vfs.dropChild dir child children).Found node) : s.vfs.Found node ∧ node ≠ child := by
  refine found.closed (fun node => s.vfs.Found node ∧ node ≠ child) (fun root isRoot => ?_) ?_
  · refine ⟨⟨root, isRoot, .refl⟩, ?_⟩
    rintro rfl
    exact (kept.shape.top root isRoot).2.2 dir children isRamfs inside
  rintro node next ⟨here, _⟩ edge
  refine ⟨here.step (dropChild_edge isRamfs edge), ?_⟩
  rintro rfl
  obtain ⟨mounted, parent, finddir⟩ := dropChild_same s.vfs dir next children node
  cases edge with
  | child isList member =>
      rw [finddir] at isList
      split at isList
      · obtain rfl := Finddir.ramfs.inj isList
        exact (kept.shape.once dir children isRamfs).not_mem_erase member
      · rename_i apart
        exact apart (kept.shape.apart node dir _ _ next isList isRamfs member inside)
  | entry isOther result =>
      rw [finddir] at isOther
      split at isOther
      · cases isOther
      · obtain ⟨volume, same⟩ := kept.shape.inside node _ _ next isOther result
        rw [(kept.shape.plain dir children next isRamfs inside).1] at same
        exact volume same.symm
  | mounted root =>
      obtain ⟨entry, member, _, isRoot⟩ := kept.flagged node next (mounted ▸ root)
      exact unmounted entry member isRoot
  | parent isParent => exact childless node here (parent ▸ isParent)

theorem ramfsUnlink_kept (kept : FsKept s) {dir : Nat} {name : List UInt8}
    (careful : FsCareful s (.unlink dir name)) : FsKept (fsStep s (.unlink dir name)) := by
  simp only [fsStep]
  rcases ramfsUnlink_cases s dir name with same | ⟨children, child, isRamfs, isChild, empty, result⟩
  · rw [same]
    exact kept
  · rw [result]
    obtain ⟨unmounted, childless⟩ := careful children child isRamfs isChild empty
    have inside : child ∈ children := List.mem_of_find?_eq_some isChild
    have same := dropChild_same s.vfs dir child children
    have alive : ∀ node, s.Alive node → node ≠ child → MountSystem.Alive { s with
        vfs := s.vfs.dropChild dir child children, freed := child :: s.freed } node := by
      refine fun node old apart => ⟨fun freed => ?_, old.volume⟩
      rcases List.mem_cons.mp freed with isNew | earlier
      · exact apart isNew
      · exact old.kept earlier
    refine ⟨dropChild_shape kept.shape isRamfs, fun node found => ?_, fun entry member => ?_,
      fun node root mounted => kept.flagged node root ((same node).1 ▸ mounted),
      fun node volume parent isVolume later isParent => kept.dormant node volume parent isVolume
        later ((same node).2.1 ▸ isParent), fun node freed => ?_, kept.used⟩
    · obtain ⟨old, apart⟩ := dropChild_lost kept isRamfs inside
        (fun entry member => (unmounted entry member).2) childless found
      exact alive node (kept.alive node old) apart
    · obtain ⟨point, root⟩ := kept.table entry member
      exact ⟨alive _ point (unmounted entry member).1, alive _ root (unmounted entry member).2⟩
    · rcases List.mem_cons.mp freed with rfl | earlier
      · exact kept.shape.plain dir children node isRamfs inside
      · exact kept.freed node earlier

theorem vfsUnmount_root (v : Vfs) (path : List UInt8) : (vfsUnmount v path).2.root = v.root := by
  unfold vfsUnmount
  split <;> rfl

theorem releaseFat32_kept (kept : FsKept s) {path : List UInt8} {readable memory : Bool}
    (careful : FsCareful s (.fatmount path true readable memory)) :
    FsKept (releaseFat32 s path) := by
  unfold releaseFat32
  split
  · exact kept
  · rename_i volume isMounted
    obtain ⟨unreferred, childless⟩ := careful volume rfl isMounted
    obtain ⟨unmounted, edges, parents⟩ := kept.unmount path
    have alive : ∀ node, MountSystem.Alive { s with vfs := (vfsUnmount s.vfs path).2 } node →
        fatVolume node ≠ some volume → MountSystem.Alive { fat32Unmount { s with
          vfs := (vfsUnmount s.vfs path).2 } volume with mountedFat32 := none } node :=
      fun node old apart => ⟨old.kept, fun other isOther => by
        have differs : other ≠ volume := fun same => apart (isOther.trans (congrArg some same))
        exact (List.mem_erase_of_ne differs).mpr (old.volume other isOther)⟩
    -- No path leads into the volume any more.
    have outside : ∀ node, (vfsUnmount s.vfs path).2.Found node →
        s.vfs.Found node ∧ fatVolume node ≠ some volume := by
      intro node found
      refine found.closed (fun node => s.vfs.Found node ∧ fatVolume node ≠ some volume)
        (fun root isRoot => ?_) ?_
      · have plain := (unmounted.shape.top root isRoot).1
        exact ⟨⟨root, vfsUnmount_root s.vfs path ▸ isRoot, .refl⟩, by simp [plain]⟩
      rintro node next ⟨here, apart⟩ edge
      refine ⟨here.step (edges node next edge), ?_⟩
      cases edge with
      | child isRamfs member => simp [(unmounted.shape.plain _ _ _ isRamfs member).1]
      | entry isOther result =>
          rw [(unmounted.shape.inside _ _ _ _ isOther result).2]
          exact apart
      | mounted root =>
          obtain ⟨entry, member, _, rfl⟩ := unmounted.flagged _ _ root
          exact (unreferred entry member).2
      | parent isParent =>
          exact fun isVolume => apart (childless node next here
            ((parents node).symm.trans isParent) isVolume)
    refine ⟨unmounted.shape, fun node found => ?_, fun entry member => ?_, unmounted.flagged,
      unmounted.dormant, unmounted.freed, fun other isLive => ?_⟩
    · exact alive node (unmounted.alive node found) (outside node found).2
    · obtain ⟨point, root⟩ := unmounted.table entry member
      exact ⟨alive _ point (unreferred entry member).1, alive _ root (unreferred entry member).2⟩
    · exact kept.used other (List.mem_of_mem_erase isLive)

/-- A volume is read, and its root mounted or not. -/
theorem FsKept.read (kept : FsKept s) (path : List UInt8) (mountedFat32 : Option Nat) :
    FsKept { (fat32Mount s).2 with
        vfs := (vfsMount s.vfs path (fatNode s.volumes 0)).2, mountedFat32 } ∧
      FsKept (fat32Mount s).2 ∧ FsKept (fat32Unmount (fat32Mount s).2 s.volumes) := by
  have more : ∀ volume ∈ s.live, volume ∈ s.volumes :: s.live :=
    fun volume isLive => List.mem_cons_of_mem _ isLive
  have used : ∀ volume ∈ s.volumes :: s.live, volume < s.volumes + 1 := by
    intro volume isLive
    rcases List.mem_cons.mp isLive with rfl | earlier
    · exact Nat.lt_succ_self _
    · exact Nat.lt_succ_of_lt (kept.used volume earlier)
  refine ⟨?_, ?_, ?_⟩
  · exact kept.mount (Nat.le_succ _) more used (.inr ⟨s.volumes, List.mem_cons_self ..,
      fatVolume_fatNode s.volumes 0, Nat.le_refl _⟩) path mountedFat32
  · exact kept.grow (Nat.le_succ _) more used s.mountedFat32
  · unfold fat32Unmount fat32Mount
    rw [List.erase_cons_head]
    exact kept.grow (Nat.le_succ _) (fun _ isLive => isLive)
      (fun volume isLive => Nat.lt_succ_of_lt (kept.used volume isLive)) s.mountedFat32

theorem cmdFatmount_kept (kept : FsKept s) {path : List UInt8} {drive readable memory : Bool}
    (careful : FsCareful s (.fatmount path drive readable memory)) :
    FsKept (fsStep s (.fatmount path drive readable memory)) := by
  simp only [fsStep]
  unfold cmdFatmount
  split
  · exact kept
  · rename_i there
    obtain rfl : drive = true := by simpa using there
    have released := releaseFat32_kept kept careful
    generalize releaseFat32 s path = s at released ⊢
    dsimp only
    split
    · exact released
    · obtain ⟨mounted, _, failed⟩ := released.read path (some s.volumes)
      split
      · exact failed
      · split
        · exact failed
        · exact mounted

theorem fsStep_kept (kept : FsKept s) {call : FsCall} (careful : FsCareful s call) :
    FsKept (fsStep s call) := by
  cases call with
  | mount path fsRoot =>
      exact kept.mount (Nat.le_refl _) (fun _ isLive => isLive) kept.used (.inl careful) path
        s.mountedFat32
  | unmount path => exact (kept.unmount path).1
  | create dir name memory => exact ramfsCreate_kept kept careful
  | unlink dir name => exact ramfsUnlink_kept kept careful
  | automount path readable memory =>
      simp only [fsStep]
      unfold fat32Automount
      obtain ⟨mounted, read, _⟩ := kept.read path s.mountedFat32
      split
      · exact kept
      · dsimp only
        split
        · exact read
        · exact mounted
  | fatmount path drive readable memory => exact cmdFatmount_kept kept careful

end Kept

/-- Nothing is mounted, freed or read yet. -/
structure FsStart (s : MountSystem) : Prop where
  shape : FsShape s.vfs s.nodes
  reach : ∀ node, s.vfs.Found node → fatVolume node = none
  unmounted : s.vfs.mounts = [] ∧ ∀ node, s.vfs.mounted node = none
  own : ∀ node volume parent, fatVolume node = some volume →
    (s.vfs.nodes node).parent = some parent → fatVolume parent = some volume
  unfreed : s.freed = []
  unread : s.live = []

theorem FsStart.kept {s : MountSystem} (start : FsStart s) : FsKept s := by
  refine ⟨start.shape, fun node found => ⟨?_, fun volume isVolume => ?_⟩, fun entry member => ?_,
    fun node root mounted => ?_, fun node volume parent isVolume _ => start.own node volume parent
      isVolume, fun node freed => ?_, fun volume isLive => ?_⟩
  · simp [start.unfreed]
  · simp [start.reach node found] at isVolume
  · simp [start.unmounted.1] at member
  · simp [start.unmounted.2 node] at mounted
  · simp [start.unfreed] at freed
  · simp [start.unread] at isLive

/-- In a run of careful calls, the mount table refers to live nodes only, after every call. -/
theorem mounts_alive_run {s : MountSystem} (start : FsStart s) (calls : List FsCall)
    (careful : Along fsStep FsCareful s calls) :
    Along fsStep (fun s call => MountsAlive (fsStep s call)) s calls :=
  careful.sound FsKept (fun _ _ kept met =>
    ⟨fsStep_kept kept met, (fsStep_kept kept met).table⟩) start.kept

/-- The root directory of ramfs, and volumes without entries. -/
def fsBoot : MountSystem where
  vfs :=
    { nodes := fun node =>
        { ramfsAllocNode [slash] vfsDirectory 1 with
          finddir := if node % 2 = 1 then .other fun _ => none else .ramfs [] }
      root := some 0
      mounts := [] }
  nodes := 1
  freed := []
  volumes := 0
  live := []
  mountedFat32 := none

theorem fsBoot_ramfs {dir : Nat} {children : List Nat}
    (isRamfs : (fsBoot.vfs.nodes dir).finddir = .ramfs children) : children = [] := by
  simp only [fsBoot] at isRamfs
  split at isRamfs
  · cases isRamfs
  · exact (Finddir.ramfs.inj isRamfs).symm

theorem fsBoot_other {dir : Nat} {find : List UInt8 → Option Nat}
    (isOther : (fsBoot.vfs.nodes dir).finddir = .other find) (name : List UInt8) :
    find name = none := by
  simp only [fsBoot] at isOther
  split at isOther
  · exact (congrFun (Finddir.other.inj isOther) name).symm
  · cases isOther

theorem fsBoot_start : FsStart fsBoot := by
  have mounted : ∀ node, fsBoot.vfs.mounted node = none := fun node => by
    simp [Vfs.mounted, fsBoot, ramfsAllocNode]
  refine ⟨⟨?_, ?_, ?_, ?_, ?_, ?_⟩, fun node found => ?_, ⟨rfl, mounted⟩, ?_, rfl, rfl⟩
  · intro root isRoot
    obtain rfl : 0 = root := Option.some.inj isRoot
    refine ⟨rfl, by decide, fun dir children isRamfs => ?_⟩
    simp [fsBoot_ramfs isRamfs]
  · intro dir children isRamfs
    simp [fsBoot_ramfs isRamfs]
  · intro dir other children others child isRamfs _ inside
    simp [fsBoot_ramfs isRamfs] at inside
  · intro dir children child isRamfs inside
    simp [fsBoot_ramfs isRamfs] at inside
  · intro dir find name node isOther result
    simp [fsBoot_other isOther] at result
  · intro dir volume isVolume
    unfold fatVolume at isVolume
    split at isVolume
    · exact ⟨_, if_pos ‹_›⟩
    · cases isVolume
  · refine found.closed (fun node => fatVolume node = none) (fun root isRoot => ?_) ?_
    · obtain rfl : 0 = root := Option.some.inj isRoot
      rfl
    intro node next _ edge
    cases edge with
    | child isRamfs member => simp [fsBoot_ramfs isRamfs] at member
    | entry isOther result => simp [fsBoot_other isOther] at result
    | mounted root => simp [mounted] at root
    | parent isParent => cases isParent
  · intro node volume parent _ isParent
    cases isParent

/-- A root with two directories; the second one is removed again. -/
theorem mounts_alive_boot :
    Along fsStep (fun s call => MountsAlive (fsStep s call)) fsBoot
      [.create 0 [0x61] true, .create 0 [0x62] true, .unlink 0 [0x62],
        .fatmount [slash, 0x61] true true true, .unmount [slash, 0x61]] := by
  have parents : ∀ node parent, ((fsStep (fsStep fsBoot (.create 0 [0x61] true))
      (.create 0 [0x62] true)).vfs.nodes node).parent = some parent → parent = 0 := by
    intro node parent isParent
    by_cases first : node = 2
    · subst first
      exact (Option.some.inj isParent).symm
    · by_cases second : node = 4
      · subst second
        exact (Option.some.inj isParent).symm
      · by_cases root : node = 0
        · subst root
          cases isParent
        · change (Function.update (Function.update (Function.update (Function.update
            fsBoot.vfs.nodes 2 _) 0 _) 4 _) 0 _ node).parent = some parent at isParent
          rw [Function.update_of_ne root, Function.update_of_ne second, Function.update_of_ne root,
            Function.update_of_ne first] at isParent
          cases isParent
  refine mounts_alive_run fsBoot_start _ ⟨⟨0, rfl, .refl⟩, ⟨0, rfl, .refl⟩, ?_, ?_, trivial, trivial⟩
  · intro children child isRamfs isChild _
    obtain rfl : [2, 4] = children := Finddir.ramfs.inj isRamfs
    obtain rfl : 4 = child := Option.some.inj isChild
    refine ⟨fun entry member => ?_, fun node _ isParent => ?_⟩
    · cases member
    · cases parents node 4 isParent
  · intro volume _ isMounted
    cases isMounted

theorem fsBoot_mount (fsRoot : Nat) :
    vfsMount (fsStep fsBoot (.create 0 [0x61] true)).vfs [slash, 0x61] fsRoot =
      (0, (fsStep fsBoot (.create 0 [0x61] true)).vfs.withMount [slash, 0x61] 2 fsRoot) := by
  have lookup : vfsLookup (fsStep fsBoot (.create 0 [0x61] true)).vfs [slash, 0x61] =
      some 2 := by
    rw [vfsLookup_walk, steps_slash_a]
    rfl
  rw [vfsMount, lookup]
  rfl

theorem cmdFatmount_first {s : MountSystem} (unused : s.mountedFat32 = none) {path : List UInt8}
    {vfs : Vfs} (mounted : vfsMount s.vfs path (fatNode s.volumes 0) = (0, vfs)) :
    cmdFatmount s path true true true =
      { (fat32Mount s).2 with vfs, mountedFat32 := some s.volumes } := by
  have released : releaseFat32 s path = s := by
    unfold releaseFat32
    rw [unused]
  simp [cmdFatmount, released, fat32Mount, mounted]

/-- A directory is removed while a volume is mounted on it; and `fatmount` for another path
releases the volume that is mounted on the first. -/
theorem mount_point_freed :
    FsStart fsBoot ∧
      ¬ Along fsStep (fun s call => MountsAlive (fsStep s call)) fsBoot
        [.create 0 [0x61] true, .automount [slash, 0x61] true true, .unlink 0 [0x61]] ∧
      ¬ Along fsStep (fun s call => MountsAlive (fsStep s call)) fsBoot
        [.create 0 [0x61] true, .fatmount [slash, 0x61] true true true,
          .fatmount [slash, 0x62] true false false] := by
  have mounted := fsBoot_mount (fatNode 0 0)
  refine ⟨fsBoot_start, fun alive => ?_, fun alive => ?_⟩
  · have last := alive.2.2.1
    generalize isCreated : fsStep fsBoot (.create 0 [0x61] true) = created at last mounted
    have isMounted : fsStep created (.automount [slash, 0x61] true true) = { (fat32Mount created).2
        with vfs := created.vfs.withMount [slash, 0x61] 2 (fatNode 0 0) } := by
      subst isCreated
      exact congrArg (fun vfs => { (fat32Mount _).2 with vfs }) (congrArg Prod.snd mounted)
    rw [isMounted] at last
    subst isCreated
    exact (last ⟨[slash, 0x61], 2, fatNode 0 0⟩ (List.mem_singleton_self _)).1.kept
      (List.mem_singleton_self _)
  · have last := alive.2.2.1
    generalize isCreated : fsStep fsBoot (.create 0 [0x61] true) = created at last mounted
    have isMounted : fsStep created (.fatmount [slash, 0x61] true true true) =
        { (fat32Mount created).2 with
          vfs := created.vfs.withMount [slash, 0x61] 2 (fatNode 0 0), mountedFat32 := some 0 } := by
      subst isCreated
      exact cmdFatmount_first rfl mounted
    rw [isMounted] at last
    subst isCreated
    have isLive := (last ⟨[slash, 0x61], 2, fatNode 0 0⟩ (List.mem_singleton_self _)).2.volume 0
      (fatVolume_fatNode 0 0)
    cases isLive

end ZurichOS
