import ZurichOS.FileContents
import ZurichOS.Ramfs
import ZurichOS.SignedWords
import ZurichOS.Sort

/-!
The archives of `tar`: what `list` and `extract` read of one, and what becomes of files that go
through `create` and `extract`.
-/

namespace ZurichOS

open ByteBuffer Words FileContents

namespace Tar

/-- `TAR_MAGIC`. -/
def magic : List UInt8 := [0x5A, 0x54, 0x41, 0x52]

def buffer (data : List UInt8) : Buffer := fun i => data.getD i 0

def Inside (data : List UInt8) (offset : Int) (count : Nat) : Prop :=
  0 ≤ offset ∧ offset + count ≤ data.length

instance (data : List UInt8) (offset : Int) (count : Nat) : Decidable (Inside data offset count) :=
  inferInstanceAs (Decidable (_ ∧ _))

section Reading

/-! None stands for a read outside of the archive. -/

def readU32 (data : List UInt8) (offset : Int) : Option Nat :=
  if Inside data offset 4 then some (word32 (buffer data) offset.toNat) else none

def readBytes (data : List UInt8) (offset : Int) (count : Nat) : Option (List UInt8) :=
  if Inside data offset count then some (readAt data offset.toNat count) else none

structure Entry where
  name : List UInt8
  dataLen : Nat
  offset : Int
  deriving DecidableEq

/-- The part of a turn that both loops have, up to the contents of the file; the loop is left
where the name does not fit. -/
def readEntry (data : List UInt8) (offset : Int) : Option (Option Entry) :=
  (readU32 data offset).bind fun nameLen =>
    let offset := wrap32 (offset + 4)
    if data.length < wrap32 (wrap32 (offset + int32 nameLen) + 4) then some none
    else
      (readBytes data offset (min nameLen (vfsMaxName - 1))).bind fun name =>
        let offset := wrap32 (offset + nameLen)
        (readU32 data offset).map fun dataLen =>
          some { name := cString name, dataLen, offset := wrap32 (offset + 4) }

end Reading

/-- What has become of a loop over an archive. -/
inductive Walk (α : Type) where
  | done (result : α)
  | outside
  | running

/-- The loop over an archive; a visit can leave it or read outside, as above. -/
def walk {α : Type} (data : List UInt8) (visit : Entry → α → Option (Option α)) :
    Nat → Int → α → Walk α
  | 0, _, _ => .running
  | fuel + 1, offset, state =>
      if wrap32 (offset + 4) ≤ data.length then
        match readEntry data offset with
        | none => .outside
        | some none => .done state
        | some (some entry) =>
            match visit entry state with
            | none => .outside
            | some none => .done state
            | some (some state) =>
                walk data visit fuel (wrap32 (entry.offset + entry.dataLen)) state
      else .done state

/-- The archive, or the message if there is none. -/
def openArchive (memory : Bool) (file : VfsFile) : Except (List UInt8) (List UInt8) :=
  match readFileContents memory file with
  | none => .error (message "tar: cannot read archive\n")
  | some contents =>
      let data := contents.dropLast
      if data.length < 4 ∨ data.take 4 ≠ magic then
        .error (message "tar: not a valid archive\n")
      else .ok data

/-- The names and sizes that are printed, the count of which follows them. -/
abbrev Listing := List (List UInt8 × Nat)

def list (fuel : Nat) (memory : Bool) (file : VfsFile) : Walk (Except (List UInt8) Listing) :=
  match openArchive memory file with
  | .error text => .done (.error text)
  | .ok data =>
      match walk data (fun entry listed => some (some (listed ++ [(entry.name, entry.dataLen)])))
        fuel 4 [] with
      | .done listed => .done (.ok listed)
      | .outside => .outside
      | .running => .running

/-- A directory of ramfs, and whether the next calls of `kmalloc` succeed. -/
structure Directory where
  children : List RamfsNode
  childCapacity : Nat
  nextInode : Nat
  memory : Nat → Bool

namespace Directory

def finddir (dir : Directory) (name : List UInt8) : Option Nat :=
  dir.children.findIdx? fun child => child.name = name

/-- The directory after a call of `kmalloc`. -/
def asked (dir : Directory) : Directory := { dir with memory := fun n => dir.memory (n + 1) }

/-- `ramfs_add_child`. -/
def addChild (dir : Directory) (child : RamfsNode) : Directory :=
  if dir.children.length < dir.childCapacity then
    { dir with children := dir.children ++ [child] }
  else if dir.memory 0 then
    { dir.asked with
      children := dir.children ++ [child], childCapacity := dir.childCapacity * 2 }
  else dir.asked

/-- `ramfs_create` of a file. -/
def create (dir : Directory) (name : List UInt8) : Directory :=
  if (dir.finddir name).isSome then dir
  else if dir.memory 0 then
    { dir.asked with nextInode := dir.nextInode + 1 }.addChild
      (ramfsAllocNode name vfsFile dir.nextInode)
  else dir.asked

/-- The directory once the file is looked up, and made if there is none. -/
def provide (dir : Directory) (name : List UInt8) : Directory :=
  if (dir.finddir name).isSome then dir else dir.create name

/-- `vfs_truncate` and `vfs_write` of bytes of the archive.  A write that is refused does not look
at them, and the root of what is mounted on a child is a directory, which refuses. -/
def put (dir : Directory) (data : List UInt8) (offset : Int) (len i : Nat) : Option Directory :=
  match dir.children[i]? with
  | none => some dir
  | some child =>
      if child.flags &&& vfsMountpoint ≠ 0 ∧ child.ptr.isSome then some dir
      else
        let child := { child with length := 0 }
        if len = 0 then some { dir with children := dir.children.set i child }
        else
          let wrote := ramfsWrite dir.memory child 0
            (some (bytesAt (buffer data) offset.toNat len))
          if wrote.1 < 0 ∨ Inside data offset len then
            some { dir with children := dir.children.set i wrote.2.1, memory := wrote.2.2 }
          else none

def files (dir : Directory) : List (List UInt8 × List UInt8) :=
  dir.children.map fun child => (child.name, child.contents)

end Directory

structure Extraction where
  dir : Directory
  extracted : Listing

def extractEntry (data : List UInt8) (entry : Entry) (s : Extraction) :
    Option (Option Extraction) :=
  if data.length < wrap32 (entry.offset + int32 entry.dataLen) then some none
  else
    let dir := s.dir.provide entry.name
    match dir.finddir entry.name with
    | none => some (some { s with dir })
    | some i =>
        (dir.put data entry.offset entry.dataLen i).map fun dir =>
          some { dir, extracted := s.extracted ++ [(entry.name, entry.dataLen)] }

def extract (fuel : Nat) (memory : Bool) (file : VfsFile) (dir : Directory) :
    Walk (Except (List UInt8) Extraction) :=
  match openArchive memory file with
  | .error text => .done (.error text)
  | .ok data =>
      match walk data (extractEntry data) fuel 4 { dir, extracted := [] } with
      | .done s => .done (.ok s)
      | .outside => .outside
      | .running => .running

/-- The files that are not skipped. -/
def packedFiles (resolvePath : CString → Option VfsFile) (names : List CString) :
    List (CString × VfsFile) :=
  names.filterMap fun name =>
    match resolvePath name with
    | none => none
    | some file => if file.isDirectory then none else some (name, file)

def total (files : List (CString × VfsFile)) : Nat :=
  files.foldl (fun sum file => u32 (sum + (4 + file.1.chars.length + 4 + file.2.length))) 4

/-- The second pass of `create`, in a block of which `kept` are the bytes before; none writes behind
the block. -/
def pack (kept : Buffer) (block : Nat) : List UInt8 → List (CString × VfsFile) → Option (List UInt8)
  | archive, [] => some archive
  | archive, (name, file) :: rest =>
      let header := archive ++ le32 name.chars.length ++ name.chars ++ le32 file.length
      let read := if file.length = 0 then [] else (file.read 0 file.length).2.take file.length
      let packed := header ++ read ++
        bytesAt kept (header.length + read.length) (file.length - read.length)
      if block < packed.length then none else pack kept block packed rest

/-- The bytes that are written to the archive. -/
def create (kept : Buffer) (memory : Bool) (resolvePath : CString → Option VfsFile)
    (names : List CString) : Option (Except (List UInt8) (List UInt8)) :=
  if names = [] then
    some (.error (message "Usage: tar create <archive> <file1> [file2] ...\n"))
  else
    let files := packedFiles resolvePath names
    if !kmallocSucceeds memory (total files) then
      some (.error (message "tar: out of memory\n"))
    else (pack kept (total files) magic files).map .ok

end Tar

end ZurichOS
