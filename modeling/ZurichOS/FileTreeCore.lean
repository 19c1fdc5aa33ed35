import ZurichOS.Faulting
import ZurichOS.RamfsCore
import Mathlib.Logic.Function.Basic

set_option linter.all false

/-!
The tree of `vfs_node_t` that `kernel/fs/ramfs.c`, `devfs.c` and `procfs.c` build, with the
operation table and the private data of every node.
-/

namespace ZurichOS

open ByteBuffer Words Faulting

inductive Slot where
  | read | write | openFile | closeFile | readdir | finddir | create | unlink
  deriving DecidableEq

/-- The functions that stand in operation tables; none is for `open` or `close`. -/
inductive NodeFunction : Slot → Type where
  | ramfsRead : NodeFunction .read
  | procfsDynamicRead : NodeFunction .read
  | ramfsWrite : NodeFunction .write
  | ramfsReaddir : NodeFunction .readdir
  | ramfsFinddir : NodeFunction .finddir
  | ramfsCreate : NodeFunction .create
  | ramfsUnlink : NodeFunction .unlink

inductive ImplType where
  | ramfsNode | procfsNode
  deriving DecidableEq

/-- What the function casts `node->impl` to. -/
def NodeFunction.casts {slot : Slot} : NodeFunction slot → ImplType
  | .procfsDynamicRead => .procfsNode
  | _ => .ramfsNode

structure FsNode extends VfsNode where
  table : (slot : Slot) → Option (NodeFunction slot)
  impl : Option Nat

/-- `ramfs_node_t`; `children` is null or an array of `child_count` addresses. -/
structure RamfsObject where
  vfs : FsNode
  data : Option Buffer
  capacity : Nat
  children : Option (List Nat)
  childCapacity : Nat

structure ProcfsNode where
  vfs : FsNode
  fileType : Nat

inductive FsObject where
  | ramfs (node : RamfsObject)
  | procfs (node : ProcfsNode)

def FsObject.type : FsObject → ImplType
  | .ramfs _ => .ramfsNode
  | .procfs _ => .procfsNode

/-- The node at the address of the object. -/
def FsObject.vfs : FsObject → FsNode
  | .ramfs node => node.vfs
  | .procfs node => node.vfs

def FsObject.withVfs (node : FsNode) : FsObject → FsObject
  | .ramfs object => .ramfs { object with vfs := node }
  | .procfs object => .procfs { object with vfs := node }

def RamfsObject.childList (node : RamfsObject) : List Nat := node.children.getD []

/-- The objects by address, where an address is not used again; and whether the next calls of
`kmalloc` succeed. -/
structure FileTree where
  objects : Nat → Option FsObject
  allocated : Nat
  nextInode : Nat
  deviceCount : Nat
  root : Option Nat
  memory : Nat → Bool

/-- Where the kernel uses memory that is not what the program takes it for. -/
inductive FileFault where
  | freed | cast | nullChildren

abbrev TreeProgram := Program FileTree FileFault

namespace FileTree

abbrev ramfsNodeSize : Nat := 164
abbrev procfsNodeSize : Nat := 148
abbrev maxDevices : Nat := 64

def kmalloc (size : Nat) : TreeProgram Bool :=
  modifyGet fun s =>
    if size = 0 then (false, s) else (s.memory 0, { s with memory := fun n => s.memory (n + 1) })

def newObject (object : Nat → FsObject) : TreeProgram Nat :=
  modifyGet fun s => (s.allocated,
    { s with
      objects := Function.update s.objects s.allocated (some (object s.allocated))
      allocated := s.allocated + 1 })

def store (address : Nat) (object : Option FsObject) : TreeProgram Unit :=
  modifyGet fun s => ((), { s with objects := Function.update s.objects address object })

def objectAt (address : Nat) : TreeProgram FsObject := do
  match ← modifyGet fun s => (s.objects address, s) with
  | none => throw .freed
  | some object => pure object

def nodeAt (address : Nat) : TreeProgram FsNode := do
  let object ← objectAt address
  pure object.vfs

def setNode (address : Nat) (change : FsNode → FsNode) : TreeProgram Unit := do
  let object ← objectAt address
  store address (some (object.withVfs (change object.vfs)))

/-- A use of memory as a `ramfs_node_t`. -/
def ramfsAt (address : Nat) : TreeProgram RamfsObject := do
  match ← objectAt address with
  | .ramfs node => pure node
  | .procfs _ => throw .cast

def procfsAt (address : Nat) : TreeProgram ProcfsNode := do
  match ← objectAt address with
  | .procfs node => pure node
  | .ramfs _ => throw .cast

section Ramfs

def ramfsTable : (slot : Slot) → Option (NodeFunction slot)
  | .read => some .ramfsRead
  | .write => some .ramfsWrite
  | .openFile => none
  | .closeFile => none
  | .readdir => some .ramfsReaddir
  | .finddir => some .ramfsFinddir
  | .create => some .ramfsCreate
  | .unlink => some .ramfsUnlink

def newRamfsNode (name : List UInt8) (type inode : Nat) (children : Option (List Nat))
    (address : Nat) : RamfsObject :=
  { vfs := { name := (cString name).take (vfsMaxName - 1), flags := type, length := 0, inode
             parent := none, ptr := none, table := ramfsTable, impl := some address }
    data := none, capacity := 0, children
    childCapacity := if type = vfsDirectory then 8 else 0 }

/-- Whether a new node gets an array of eight children. -/
def allocChildren (type : Nat) : TreeProgram Bool :=
  if type = vfsDirectory then kmalloc 32 else pure false

def ramfsAllocNode (name : List UInt8) (type : Nat) : TreeProgram (Option Nat) := do
  if ← kmalloc ramfsNodeSize then
    let inode ← modifyGet fun s => (s.nextInode, { s with nextInode := u32 (s.nextInode + 1) })
    let array ← allocChildren type
    let node ← newObject fun address =>
      .ramfs (newRamfsNode name type inode (if array then some [] else none) address)
    pure (some node)
  else pure none

def linkChild (parent child : Nat) (dir : RamfsObject) (children : List Nat)
    (childCapacity : Nat) : TreeProgram Int := do
  store parent (some (.ramfs { dir with children := some (children ++ [child]), childCapacity }))
  setNode child fun node => { node with parent := some parent }
  pure 0

def ramfsAddChild (parent child : Nat) : TreeProgram Int := do
  let dir ← ramfsAt parent
  if dir.vfs.isDirectory = false then pure (-1)
  else if dir.childCapacity ≤ dir.childList.length then
    let newCapacity := u32 (dir.childCapacity * 2)
    if ← kmalloc (u32 (4 * newCapacity)) then
      linkChild parent child dir dir.childList newCapacity
    else pure (-1)
  else
    match dir.children with
    | none => throw .nullChildren
    | some children => linkChild parent child dir children dir.childCapacity

/-- The first of the children with the name. -/
def findChild (name : List UInt8) : List Nat → TreeProgram (Option Nat)
  | [] => pure none
  | child :: rest => do
      let node ← ramfsAt child
      if node.vfs.name = name then pure (some child) else findChild name rest

def ramfsRead (node offset size : Nat) (buffer : Bool) : TreeProgram (Int × List UInt8) := do
  let vfs ← nodeAt node
  match vfs.impl with
  | none => pure (-1, [])
  | some impl =>
      if !buffer || vfs.isDirectory then pure (-1, [])
      else if vfs.length ≤ offset then pure (0, [])
      else
        let rnode ← ramfsAt impl
        pure (ZurichOS.ramfsRead
          { vfs.toVfsNode with data := rnode.data, capacity := rnode.capacity, children := []
                               childCapacity := 0 } offset size buffer)

def ramfsWrite (node offset : Nat) (buffer : Option (List UInt8)) : TreeProgram Int := do
  let vfs ← nodeAt node
  match vfs.impl, buffer with
  | none, _ => pure (-1)
  | _, none => pure (-1)
  | some impl, some bytes =>
      if vfs.isDirectory then pure (-1)
      else if ramfsMaxFileSize < u32 (offset + bytes.length) then pure (-1)
      else
        let rnode ← ramfsAt impl
        let file : RamfsNode := { vfs.toVfsNode with
          data := rnode.data, capacity := rnode.capacity, children := [], childCapacity := 0 }
        let (result, file) ← modifyGet fun s =>
          let (result, file, memory) := ZurichOS.ramfsWrite s.memory file offset (some bytes)
          ((result, file), { s with memory })
        store impl (some (.ramfs { rnode with data := file.data, capacity := file.capacity }))
        setNode node fun vfs => { vfs with length := file.length }
        pure result

/-- The name and the inode of the child at the index. -/
def ramfsReaddir (node index : Nat) : TreeProgram (Option (List UInt8 × Nat)) := do
  let vfs ← nodeAt node
  match vfs.impl with
  | none => pure none
  | some impl =>
      if vfs.isDirectory = false then pure none
      else
        let rnode ← ramfsAt impl
        match rnode.childList[index]? with
        | none => pure none
        | some child =>
            let entry ← ramfsAt child
            pure (some (entry.vfs.name.take (vfsMaxName - 1), entry.vfs.inode))

def ramfsFinddir (node : Nat) (name : List UInt8) : TreeProgram (Option Nat) := do
  let vfs ← nodeAt node
  match vfs.impl with
  | none => pure none
  | some impl =>
      if vfs.isDirectory = false then pure none
      else
        let rnode ← ramfsAt impl
        findChild (cString name) rnode.childList

def ramfsCreate (node : Nat) (name : List UInt8) (type : Nat) : TreeProgram Int := do
  let vfs ← nodeAt node
  match vfs.impl with
  | none => pure (-1)
  | some parent =>
      if vfs.isDirectory = false then pure (-1)
      else
        match ← ramfsFinddir node name with
        | some _ => pure (-1)
        | none =>
            match ← ramfsAllocNode name type with
            | none => pure (-1)
            | some child => ramfsAddChild parent child

def ramfsUnlink (node : Nat) (name : List UInt8) : TreeProgram Int := do
  let vfs ← nodeAt node
  match vfs.impl with
  | none => pure (-1)
  | some parent =>
      if vfs.isDirectory = false then pure (-1)
      else
        let dir ← ramfsAt parent
        match ← findChild (cString name) dir.childList with
        | none => pure (-1)
        | some child =>
            let entry ← ramfsAt child
            if entry.vfs.isDirectory ∧ 0 < entry.childList.length then pure (-1)
            else
              let children := dir.children.map fun children => children.erase child
              store parent (some (.ramfs { dir with children }))
              store child none
              pure 0

def ramfsInit : TreeProgram (Option Nat) := ramfsAllocNode [0x2F] vfsDirectory

end Ramfs

section Procfs

/-- `procfs_dynamic_read`, given what it puts together for a type of file. -/
def procfsDynamicRead (answer : Nat → Nat → Nat → Int × List UInt8) (node offset size : Nat) :
    TreeProgram (Int × List UInt8) := do
  let vfs ← nodeAt node
  match vfs.impl with
  | none => pure (-1, [])
  | some impl =>
      let pnode ← procfsAt impl
      pure (answer pnode.fileType offset size)

end Procfs

section Vfs

def vfsRead (answer : Nat → Nat → Nat → Int × List UInt8) (node offset size : Nat) (buffer : Bool) :
    TreeProgram (Int × List UInt8) := do
  let vfs ← nodeAt node
  match vfs.table .read with
  | none => pure (-1, [])
  | some .ramfsRead => ramfsRead node offset size buffer
  | some .procfsDynamicRead => procfsDynamicRead answer node offset size

def vfsWrite (node offset : Nat) (buffer : Option (List UInt8)) : TreeProgram Int := do
  let vfs ← nodeAt node
  match vfs.table .write with
  | none => pure (-1)
  | some .ramfsWrite => ramfsWrite node offset buffer

def vfsAppend (node : Nat) (buffer : Option (List UInt8)) : TreeProgram Int := do
  let vfs ← nodeAt node
  match vfs.table .write with
  | none => pure (-1)
  | some .ramfsWrite => ramfsWrite node vfs.length buffer

def vfsTruncate (node : Nat) : TreeProgram Int := do
  setNode node fun vfs => { vfs with length := 0 }
  pure 0

def vfsOpen (node : Nat) : TreeProgram Int := do
  let vfs ← nodeAt node
  match vfs.table .openFile with
  | none => pure 0
  | some function => by cases function

def vfsClose (node : Nat) : TreeProgram Int := do
  let vfs ← nodeAt node
  match vfs.table .closeFile with
  | none => pure 0
  | some function => by cases function

def vfsReaddir (node index : Nat) : TreeProgram (Option (List UInt8 × Nat)) := do
  let vfs ← nodeAt node
  if vfs.isDirectory = false then pure none
  else
    match vfs.table .readdir with
    | none => pure none
    | some .ramfsReaddir => ramfsReaddir node index

def vfsFinddir (node : Nat) (name : List UInt8) : TreeProgram (Option Nat) := do
  let vfs ← nodeAt node
  if vfs.isDirectory = false then pure none
  else
    match vfs.table .finddir with
    | none => pure none
    | some .ramfsFinddir =>
        match ← ramfsFinddir node name with
        | none => pure none
        | some result =>
            let found ← nodeAt result
            if found.flags &&& vfsMountpoint ≠ 0 then pure (some (found.ptr.getD result))
            else pure (some result)

def vfsCreate (node : Nat) (name : List UInt8) (type : Nat) : TreeProgram Int := do
  let vfs ← nodeAt node
  if vfs.isDirectory = false then pure (-1)
  else
    match vfs.table .create with
    | none => pure (-1)
    | some .ramfsCreate => ramfsCreate node name type

def vfsUnlink (node : Nat) (name : List UInt8) : TreeProgram Int := do
  let vfs ← nodeAt node
  if vfs.isDirectory = false then pure (-1)
  else
    match vfs.table .unlink with
    | none => pure (-1)
    | some .ramfsUnlink => ramfsUnlink node name

end Vfs

section Boot

/-- `ramfs_create_file` and `ramfs_create_dir`. -/
def ramfsCreateNode (type parent : Nat) (name : List UInt8) : TreeProgram (Option Nat) := do
  let result ← ramfsCreate parent name type
  if result ≠ 0 then pure none else vfsFinddir parent name

abbrev ramfsCreateFile := ramfsCreateNode vfsFile

abbrev ramfsCreateDir := ramfsCreateNode vfsDirectory

def ramfsWriteFile (node : Nat) (data : List UInt8) : TreeProgram Int :=
  ramfsWrite node 0 (some data)

/-- The entry of the device table and the file in `/dev`, if there is one. -/
def devfsRegister (devfsRoot : Option Nat) (name : List UInt8) : TreeProgram Int := do
  let count ← modifyGet fun s => (s.deviceCount, s)
  if maxDevices ≤ count then pure (-1)
  else
    modifyGet fun s => ((), { s with deviceCount := s.deviceCount + 1 })
    match devfsRoot with
    | none => pure 0
    | some root =>
        let _ ← ramfsCreateFile root name
        pure 0

def procfsLength : Nat → Nat
  | 1 => 300
  | 2 => 32
  | 3 => 400
  | 4 => 100
  | 5 => 32
  | 6 => 64
  | 7 => 200
  | 8 => 8
  | 9 => 32
  | 10 => 256
  | 11 => 7
  | 12 => 9
  | 13 => 6
  | 14 => 20
  | 15 => 256
  | 16 => 512
  | 17 => 256
  | 18 => 256
  | 19 => 256
  | _ => 64

def procfsTable : (slot : Slot) → Option (NodeFunction slot)
  | .read => some .procfsDynamicRead
  | _ => none

def newProcfsNode (name : List UInt8) (fileType address : Nat) : ProcfsNode :=
  { vfs := { name := (cString name).take (vfsMaxName - 1), flags := vfsFile
             length := procfsLength fileType, inode := 0, parent := none, ptr := none
             table := procfsTable, impl := some address }
    fileType }

/-- What `procfs_create_dynamic` makes of a file of ramfs. -/
def dynamicFile (impl fileType : Nat) (file : FsNode) : FsNode :=
  { file with
    table := Function.update file.table .read (some .procfsDynamicRead)
    impl := some impl
    length := procfsLength fileType }

def procfsCreateDynamic (parent : Nat) (name : List UInt8) (fileType : Nat) :
    TreeProgram (Option Nat) := do
  if ← kmalloc procfsNodeSize then
    let node ← newObject fun address => .procfs (newProcfsNode name fileType address)
    match ← ramfsCreateFile parent name with
    | none => pure none
    | some file =>
        setNode file (dynamicFile node fileType)
        pure (some file)
  else pure none

def ascii (text : String) : List UInt8 := text.toList.map fun char => UInt8.ofNat char.toNat

def procfsCreateAll (dir : Nat) : List (String × Nat) → TreeProgram Unit
  | [] => pure ()
  | (name, fileType) :: rest => do
      let _ ← procfsCreateDynamic dir (ascii name) fileType
      procfsCreateAll dir rest

/-- A file with a text of `size` bytes. -/
def createText (dir : Nat) (name text : String) (size : Nat) : TreeProgram Unit := do
  match ← ramfsCreateFile dir (ascii name) with
  | none => pure ()
  | some file =>
      let _ ← ramfsWriteFile file ((ascii text ++ [0]).take size)
      pure ()

def createDir (parent : Nat) (name : String) (fill : Nat → TreeProgram Unit) : TreeProgram Unit := do
  match ← ramfsCreateDir parent (ascii name) with
  | none => pure ()
  | some dir => fill dir

def procfsInit (parent : Nat) : TreeProgram (Option Nat) := do
  match ← ramfsCreateDir parent (ascii "proc") with
  | none => pure none
  | some root =>
      procfsCreateAll root [("meminfo", 1), ("uptime", 2), ("cpuinfo", 3), ("version", 4),
        ("cmdline", 5), ("filesystems", 6), ("mounts", 7), ("self", 8), ("loadavg", 9), ("stat", 10)]
      createDir root "sys" fun sys => do
        createDir sys "kernel" fun kernel =>
          procfsCreateAll kernel [("hostname", 11), ("ostype", 12), ("osrelease", 13),
            ("version", 14)]
        createDir sys "net" fun net =>
          createDir net "ipv4" fun ipv4 => do
            createText ipv4 "ip_forward" "0\n" 2
            createText ipv4 "tcp_syncookies" "1\n" 2
        createDir sys "vm" fun vm => createText vm "swappiness" "60\n" 3
      createDir root "net" fun net => do
        procfsCreateAll net [("arp", 15), ("dev", 16), ("route", 17), ("tcp", 18), ("udp", 19)]
        createText net "unix" "Num       RefCount Protocol Flags    Type St Path\n" 50
      createDir root "fs" fun fs => do
        createText fs "file-nr" "0\t0\t8192\n" 9
        createText fs "inode-nr" "0\t0\n" 4
      pure (some root)

def devfsRegisterAll (devfsRoot : Option Nat) : List String → TreeProgram Unit
  | [] => pure ()
  | name :: rest => do
      let _ ← devfsRegister devfsRoot (ascii name)
      devfsRegisterAll devfsRoot rest

def devfsInit (parent : Nat) : TreeProgram (Option Nat) := do
  match ← ramfsCreateDir parent (ascii "dev") with
  | none => pure none
  | some root =>
      devfsRegisterAll (some root) ["null", "zero", "full", "random", "urandom", "console", "tty",
        "tty0", "tty1", "ttyS0", "hda", "hda1", "hdb", "sda", "sda1", "mem", "kmem", "fd0"]
      let _ ← ramfsCreateDir root (ascii "pts")
      pure (some root)

/-- What the kernel puts into the tree when it starts. -/
def bootDirectories (root : Nat) : TreeProgram Unit := do
  createDir root "tmp" fun _ => pure ()
  createDir root "run" fun run => do
    createDir run "lock" fun _ => pure ()
    createDir run "shm" fun _ => pure ()
  createDir root "mnt" fun mnt => do
    createDir mnt "cdrom" fun _ => pure ()
    createDir mnt "usb" fun _ => pure ()
    createDir mnt "floppy" fun _ => pure ()
  createDir root "media" fun _ => pure ()
  createDir root "disks" fun disks => do
    createDir disks "hda" fun _ => pure ()
    createDir disks "hdb" fun _ => pure ()
  let _ ← devfsInit root
  let _ ← procfsInit root
  createDir root "sys" fun sys => do
    createDir sys "class" fun devices => do
      createDir devices "net" fun _ => pure ()
      createDir devices "block" fun _ => pure ()
    createDir sys "devices" fun _ => pure ()
    createDir sys "kernel" fun _ => pure ()

def bootFilesystem : TreeProgram Unit := do
  match ← ramfsInit with
  | none => pure ()
  | some root =>
      modifyGet fun s => ((), { s with root := some root })
      bootDirectories root

/-- `ramfs_init`, and `vfs_set_root` with what it returns. -/
def plantRoot : TreeProgram Unit := do
  match ← ramfsInit with
  | none => pure ()
  | some root => modifyGet fun s => ((), { s with root := some root })

end Boot

end FileTree

end ZurichOS
