import ZurichOS.FileTreeSteps
import Mathlib.Data.List.TakeDrop

set_option linter.all false

/-!
What the programs of ramfs, devfs and procfs do to the tree.  All of them take such steps only,
but for `procfs_create_dynamic`.
-/

namespace ZurichOS

open AddressForest Faulting Words ByteBuffer PartialTable

/-- `ramfs_create_file` has the memory for a new file, in a directory without the name. -/
structure FileTree.Accepts (s : FileTree) (parent : Nat) (name : List UInt8) (type : Nat)
    (dir : RamfsObject) : Prop where
  held : s.objects parent = some (.ramfs dir)
  directory : dir.vfs.isDirectory = true
  unused : ∀ child ∈ dir.childList, ∀ node, s.objects child = some (.ramfs node) →
    node.vfs.name ≠ cString name
  memory : s.memory 0 = true
  room : dir.childList.length < dir.childCapacity ∨
    u32 (4 * u32 (dir.childCapacity * 2)) ≠ 0 ∧
      s.memory (if type = vfsDirectory then 2 else 1) = true

/-- The call has the memory for its nodes, and the file for the whole of its name. -/
def FileTree.MakesDynamic (s : FileTree) (parent : Nat) (name : List UInt8) : Prop :=
  (cString name).length < vfsMaxName ∧ s.memory 0 = true ∧
    ∃ dir, ({ s with memory := fun n => s.memory (n + 1) } : FileTree).Accepts parent name vfsFile dir

variable {s t u : FileTree} {address parent child : Nat} {node dir : RamfsObject}

section Create

variable {name : List UInt8} {type : Nat} {result : Int}

/-- The node as it is before it gets into a directory. -/
structure RamfsObject.New (address : Nat) (name : List UInt8) (type : Nat) (node : RamfsObject) :
    Prop where
  alone : node.Alone address
  name : node.vfs.name = (cString name).take (vfsMaxName - 1)
  flags : node.vfs.flags = type

/-- A name has at most 63 characters, so the search for a longer one does not find it. -/
theorem named_iff (cut : node.vfs.name = (cString name).take (vfsMaxName - 1)) :
    node.vfs.name = cString name ↔ (cString name).length < vfsMaxName := by
  rw [cut, List.take_eq_self_iff]
  exact Nat.lt_succ_iff.symm

theorem newRamfsNode_new (name : List UInt8) (type inode address : Nat) (array : Bool) :
    (FileTree.newRamfsNode name type inode (if array then some [] else none) address).New address
      name type := by
  refine ⟨⟨⟨rfl, rfl⟩, ?_, rfl⟩, rfl, rfl⟩
  cases array with
  | false => rfl
  | true => rfl

namespace FileTree

theorem ramfsAllocNode_ok {made : Option Nat}
    (ran : ramfsAllocNode name type s = .ok (made, t)) :
    (made = none ∧ s.memory 0 = false ∧ s.Same t) ∨
      ∃ node, made = some s.allocated ∧ s.memory 0 = true ∧ node.New s.allocated name type ∧
        s.Grown t (.ramfs node) ∧ t.root = s.root ∧
        t.memory = fun n => s.memory (n + if type = vfsDirectory then 2 else 1) := by
  obtain ⟨given, u, asked, ran⟩ := bind_ok.mp ran
  obtain ⟨same, ⟨nothing, _⟩ | ⟨_, rfl, rfl⟩⟩ := kmalloc_ok asked
  · cases nothing
  cases answer : s.memory 0 with
  | false =>
      rw [if_neg (by rw [answer]; decide)] at ran
      obtain ⟨rfl, rfl⟩ := pure_ok.mp ran
      exact .inl ⟨rfl, rfl, same⟩
  | true =>
      rw [if_pos answer] at ran
      obtain ⟨inode, v, counted, ran⟩ := bind_ok.mp ran
      obtain ⟨array, w, children, ran⟩ := bind_ok.mp ran
      obtain ⟨place, x, stored, ran⟩ := bind_ok.mp ran
      obtain ⟨rfl, rfl⟩ := pure_ok.mp ran
      obtain ⟨rfl, rfl⟩ := modifyGet_ok.mp counted
      obtain ⟨rfl, rfl⟩ := modifyGet_ok.mp stored
      have isSame : s.objects = w.objects ∧ s.allocated = w.allocated ∧ s.root = w.root ∧
          w.memory = fun n => s.memory (n + if type = vfsDirectory then 2 else 1) := by
        by_cases isDirectory : type = vfsDirectory
        · rw [allocChildren, if_pos isDirectory] at children
          obtain ⟨same, ⟨nothing, _⟩ | ⟨_, _, rfl⟩⟩ := kmalloc_ok children
          · cases nothing
          · rw [if_pos isDirectory]
            exact ⟨rfl, rfl, rfl, rfl⟩
        · rw [allocChildren, if_neg isDirectory] at children
          obtain ⟨_, rfl⟩ := pure_ok.mp children
          rw [if_neg isDirectory]
          exact ⟨rfl, rfl, rfl, rfl⟩
      obtain ⟨objects, allocated, root, memory⟩ := isSame
      rw [allocated]
      refine .inr ⟨_, rfl, rfl, newRamfsNode_new name type s.nextInode _ array, ⟨?_, ?_⟩, root.symm,
        memory⟩
      · rw [objects, allocated]
      · rw [allocated]

/-- The array of a directory has a free place, or there is memory for a larger one. -/
def HasRoom (s : FileTree) (dir : RamfsObject) : Prop :=
  dir.childList.length < dir.childCapacity ∨
    u32 (4 * u32 (dir.childCapacity * 2)) ≠ 0 ∧ s.memory 0 = true

theorem linkChild_ok {children : List Nat} {capacity : Nat} (apart : child ≠ parent)
    (isNode : s.objects child = some (.ramfs node))
    (ran : linkChild parent child dir children capacity s = .ok (result, t)) :
    result = 0 ∧ t.objects = Function.update (Function.update s.objects child
        (some (.ramfs { node with vfs := { node.vfs with parent := some parent } }))) parent
        (some (.ramfs { dir with
          children := some (children ++ [child]), childCapacity := capacity })) ∧
      t.allocated = s.allocated ∧ t.root = s.root := by
  obtain ⟨_, u, stored, ran⟩ := bind_ok.mp ran
  obtain ⟨_, v, linked, ran⟩ := bind_ok.mp ran
  obtain ⟨rfl, rfl⟩ := pure_ok.mp ran
  obtain ⟨_, rfl⟩ := modifyGet_ok.mp stored
  obtain ⟨object, held, rfl⟩ := setNode_ok.mp linked
  have held : Function.update s.objects parent _ child = some object := held
  rw [Function.update_of_ne apart, isNode] at held
  cases held
  refine ⟨rfl, ?_, rfl, rfl⟩
  exact Function.update_comm apart.symm _ _ _

theorem ramfsAddChild_ok (apart : child ≠ parent) (isDir : s.objects parent = some (.ramfs dir))
    (isNode : s.objects child = some (.ramfs node))
    (ran : ramfsAddChild parent child s = .ok (result, t)) :
    (result ≠ 0 ∧ s.Same t ∧ ¬ (dir.vfs.isDirectory = true ∧ s.HasRoom dir)) ∨
      result = 0 ∧ dir.vfs.isDirectory = true ∧ s.HasRoom dir ∧
        (∃ capacity, t.objects = Function.update (Function.update s.objects child
          (some (.ramfs { node with vfs := { node.vfs with parent := some parent } }))) parent
          (some (.ramfs { dir with
            children := some (dir.childList ++ [child]), childCapacity := capacity }))) ∧
        t.allocated = s.allocated ∧ t.root = s.root := by
  obtain ⟨held, u, looked, ran⟩ := bind_ok.mp ran
  obtain ⟨isHeld, rfl⟩ := ramfsAt_ok.mp looked
  cases isDir.symm.trans isHeld
  cases directory : dir.vfs.isDirectory with
  | false =>
      rw [if_pos directory] at ran
      obtain ⟨rfl, rfl⟩ := pure_ok.mp ran
      exact .inl ⟨by decide, ⟨rfl, rfl, rfl⟩, fun accepts => Bool.false_ne_true accepts.1⟩
  | true =>
      rw [if_neg (by rw [directory]; decide)] at ran
      by_cases full : dir.childCapacity ≤ dir.childList.length
      · rw [if_pos full] at ran
        obtain ⟨given, u, asked, ran⟩ := bind_ok.mp ran
        obtain ⟨same, grant⟩ := kmalloc_ok asked
        cases given with
        | false =>
            rw [if_neg (by decide)] at ran
            obtain ⟨rfl, rfl⟩ := pure_ok.mp ran
            refine .inl ⟨by decide, same, ?_⟩
            rintro ⟨_, room | ⟨some, available⟩⟩
            · exact Nat.not_lt.mpr full room
            · rcases grant with ⟨nothing, _⟩ | ⟨_, denied, _⟩
              · exact some nothing
              · rw [available] at denied
                cases denied
        | true =>
            rw [if_pos rfl] at ran
            rcases grant with ⟨_, denied, _⟩ | ⟨some, available, _⟩
            · cases denied
            · obtain ⟨rfl, objects, allocated, root⟩ :=
                linkChild_ok apart (same.objects.symm ▸ isNode) ran
              rw [same.objects] at objects
              exact .inr ⟨rfl, rfl, .inr ⟨some, available.symm⟩, ⟨_, objects⟩,
                allocated.trans same.allocated, root.trans same.root⟩
      · rw [if_neg full] at ran
        cases isArray : dir.children with
        | none =>
            rw [isArray] at ran
            exact (throw_ok.mp ran).elim
        | some children =>
            rw [isArray] at ran
            have isList : dir.childList = children := by rw [RamfsObject.childList, isArray]; rfl
            obtain ⟨rfl, objects, allocated, root⟩ := linkChild_ok apart isNode ran
            have room := Nat.lt_of_not_le full
            rw [isList]
            exact .inr ⟨rfl, rfl, .inl room, ⟨_, objects⟩, allocated, root⟩

/-- The new child of a successful call. -/
structure Creates (s t : FileTree) (parent : Nat) (name : List UInt8) (type : Nat)
    (dir child : RamfsObject) : Prop where
  accepts : s.Accepts parent name type dir
  born : s.Born t parent dir child
  name : child.vfs.name = (cString name).take (vfsMaxName - 1)
  flags : child.vfs.flags = type

theorem hasRoom_iff {u : FileTree}
    (memory : u.memory = fun n => s.memory (n + if type = vfsDirectory then 2 else 1)) :
    u.HasRoom dir ↔ dir.childList.length < dir.childCapacity ∨
      u32 (4 * u32 (dir.childCapacity * 2)) ≠ 0 ∧
        s.memory (if type = vfsDirectory then 2 else 1) = true := by
  rw [HasRoom, memory]
  dsimp only
  rw [Nat.zero_add]

/-- A directory has its own address behind `impl`, or else the call faults. -/
theorem directory_ordinary (sound : s.Sound) {object : FsObject} {impl : Nat}
    (held : s.objects address = some object) (isImpl : object.vfs.impl = some impl)
    (directory : object.vfs.isDirectory = true) (isNode : s.objects impl = some (.ramfs node)) :
    impl = address ∧ object = .ramfs node := by
  cases object with
  | procfs pnode =>
      have file := sound.files address pnode held
      exact absurd (directory.symm.trans file) (by decide)
  | ramfs dir =>
      rcases sound.kinds address dir held with ⟨_, own⟩ | ⟨_, place, pnode, other, isOther⟩
      · obtain rfl := Option.some.inj (isImpl.symm.trans own)
        exact ⟨rfl, Option.some.inj (held.symm.trans isNode)⟩
      · obtain rfl := Option.some.inj (isImpl.symm.trans other)
        cases isNode.symm.trans isOther

theorem ramfsFinddir_ok (sound : s.Sound) {found : Option Nat} {vfs : FsNode} {object : FsObject}
    (held : s.objects parent = some object) (isVfs : object.vfs = vfs)
    (directory : vfs.isDirectory = true) (present : vfs.impl ≠ none)
    (ran : ramfsFinddir parent name s = .ok (found, t)) :
    s = t ∧ ∃ dir, object = .ramfs dir ∧ vfs.impl = some parent ∧
      (∀ child, found = some child → child ∈ dir.childList ∧
        ∃ node, s.objects child = some (.ramfs node) ∧ node.vfs.name = cString name) ∧
      (found = none → ∀ child ∈ dir.childList, ∀ node, s.objects child = some (.ramfs node) →
        node.vfs.name ≠ cString name) := by
  refine ⟨ramfsFinddir_reads name s found t ran, ?_⟩
  obtain ⟨_, _, looked, searched⟩ := bind_ok.mp ran
  obtain ⟨_, isAgain, rfl, rfl⟩ := nodeAt_ok.mp looked
  cases held.symm.trans isAgain
  subst isVfs
  cases isImpl : object.vfs.impl with
  | none => exact absurd isImpl present
  | some impl =>
      simp only [isImpl] at searched
      rw [if_neg (by rw [directory]; decide)] at searched
      obtain ⟨dir, _, cast, walked⟩ := bind_ok.mp searched
      obtain ⟨isDir, rfl⟩ := ramfsAt_ok.mp cast
      obtain ⟨rfl, rfl⟩ := directory_ordinary sound held isImpl directory isDir
      exact ⟨dir, rfl, rfl, findChild_ok walked⟩

theorem ramfsCreate_ok (sound : s.Sound)
    (ran : ramfsCreate parent name type s = .ok (result, t)) :
    (result ≠ 0 ∧ s.Kept t ∧ ∀ dir, ¬ s.Accepts parent name type dir) ∨
      result = 0 ∧ ∃ dir child, s.Creates t parent name type dir child := by
  obtain ⟨vfs, u, looked, ran⟩ := bind_ok.mp ran
  obtain ⟨object, held, isVfs, rfl⟩ := nodeAt_ok.mp looked
  cases isImpl : vfs.impl with
  | none =>
      simp only [isImpl] at ran
      obtain ⟨rfl, rfl⟩ := pure_ok.mp ran
      refine .inl ⟨by decide, Std.Refl.refl s, fun dir accepts => ?_⟩
      cases held.symm.trans accepts.held
      subst isVfs
      rcases sound.kinds parent dir accepts.held with ⟨_, own⟩ | ⟨_, _, _, other, _⟩
      · cases isImpl.symm.trans own
      · cases isImpl.symm.trans other
  | some impl =>
      simp only [isImpl] at ran
      cases directory : vfs.isDirectory with
      | false =>
          rw [if_pos directory] at ran
          obtain ⟨rfl, rfl⟩ := pure_ok.mp ran
          refine .inl ⟨by decide, Std.Refl.refl s, fun dir accepts => ?_⟩
          cases held.symm.trans accepts.held
          subst isVfs
          exact Bool.false_ne_true (directory.symm.trans accepts.directory)
      | true =>
          rw [if_neg (by rw [directory]; decide)] at ran
          obtain ⟨found, u, searched, ran⟩ := bind_ok.mp ran
          obtain ⟨rfl, dir, rfl, own, hit, miss⟩ := ramfsFinddir_ok sound held isVfs directory
            (by rw [isImpl]; exact Option.some_ne_none _) searched
          obtain rfl := Option.some.inj (isImpl.symm.trans own)
          subst isVfs
          cases found with
          | some child =>
              obtain ⟨rfl, rfl⟩ := pure_ok.mp ran
              refine .inl ⟨by decide, Std.Refl.refl s, fun other accepts => ?_⟩
              cases held.symm.trans accepts.held
              obtain ⟨member, node, isNode, named⟩ := hit child rfl
              exact accepts.unused child member node isNode named
          | none =>
              obtain ⟨made, u, allocated, ran⟩ := bind_ok.mp ran
              rcases ramfsAllocNode_ok allocated with
                ⟨rfl, denied, same⟩ | ⟨node, rfl, given, new, grown, root, memory⟩
              · obtain ⟨rfl, rfl⟩ := pure_ok.mp ran
                refine .inl ⟨by decide, same.kept, fun other accepts => ?_⟩
                exact Bool.false_ne_true (denied.symm.trans accepts.memory)
              · have apart := sound.allocated_ne held
                have isDir := grown.some_iff.mpr (.inr ⟨apart.symm, held⟩)
                have isNode := grown.some_iff.mpr (.inl ⟨rfl, rfl⟩)
                rcases ramfsAddChild_ok apart isDir isNode ran with
                  ⟨failed, same, full⟩ | ⟨rfl, _, room, ⟨capacity, objects⟩, count, sameRoot⟩
                · refine .inl ⟨failed, ?_, fun other accepts => full ?_⟩
                  · exact Trans.trans (grown.kept_ramfs new.alone root) same.kept
                  · cases held.symm.trans accepts.held
                    exact ⟨directory, (hasRoom_iff memory).mpr accepts.room⟩
                · rw [grown.objects, Function.update_idem] at objects
                  refine .inr ⟨rfl, dir, _, ⟨held, directory, miss rfl, given,
                    (hasRoom_iff memory).mp room⟩, ⟨held, directory, ⟨capacity, objects⟩,
                    count.trans grown.allocated, sameRoot.trans root, new.alone.ordinary,
                    new.alone.children, rfl⟩, new.name, new.flags⟩

/-- The search after it finds the new child, unless the name was cut. -/
theorem Creates.find {entry : RamfsObject} (creates : s.Creates t parent name vfsFile dir entry)
    (sound : s.Sound) {found : Option Nat}
    (ran : vfsFinddir parent name t = .ok (found, u)) :
    t = u ∧ (found = none ∧ ¬ (cString name).length < vfsMaxName ∨
      found = some s.allocated ∧ (cString name).length < vfsMaxName) := by
  have soundAfter := (creates.born.kept sound).1
  refine ⟨vfsFinddir_reads name t found u ran, ?_⟩
  have isNamed := named_iff creates.name
  -- No other child has the name.
  have only : ∀ child ∈ dir.childList ++ [s.allocated], ∀ node,
      t.objects child = some (.ramfs node) → node.vfs.name = cString name → child = s.allocated := by
    intro child member node isNode named
    rcases List.mem_append.mp member with old | last
    · rcases creates.born.old isNode with rfl | ⟨before, isBefore, same⟩
      · rfl
      · exact absurd (same ▸ named) (creates.accepts.unused child old before isBefore)
    · exact List.mem_singleton.mp last
  obtain ⟨vfs, _, looked, ran⟩ := bind_ok.mp ran
  obtain ⟨object, isHeld, isVfs, rfl⟩ := nodeAt_ok.mp looked
  obtain ⟨capacity, isDir⟩ := creates.born.after_parent
  obtain rfl := Option.some.inj (isHeld.symm.trans isDir)
  have isVfs : dir.vfs = vfs := isVfs
  have directory : vfs.isDirectory = true := by rw [← isVfs, creates.born.directory]
  rw [if_neg (by rw [directory]; decide)] at ran
  have isTable : vfs.table .finddir = some .ramfsFinddir ∧ vfs.impl ≠ none := by
    rw [← isVfs]
    rcases sound.kinds parent dir creates.born.held with
      ⟨table, impl⟩ | ⟨table, _, _, impl, _⟩
    · rw [table, impl]
      exact ⟨rfl, Option.some_ne_none _⟩
    · rw [table, impl]
      exact ⟨rfl, Option.some_ne_none _⟩
  simp only [isTable.1] at ran
  obtain ⟨first, _, searched, ran⟩ := bind_ok.mp ran
  obtain ⟨rfl, after, isAfter, _, hit, miss⟩ :=
    ramfsFinddir_ok soundAfter isHeld isVfs directory isTable.2 searched
  cases isAfter
  have isChild := creates.born.after_child sound
  cases first with
  | none =>
      obtain ⟨rfl, _⟩ := pure_ok.mp ran
      refine .inl ⟨rfl, fun short => ?_⟩
      exact miss rfl s.allocated (List.mem_append_right _ (List.mem_singleton_self _)) entry isChild
        (isNamed.mpr short)
  | some child =>
      obtain ⟨member, node, isNode, named⟩ := hit child rfl
      obtain rfl := only child member node isNode named
      obtain rfl : entry = node := by
        cases isChild.symm.trans isNode
        rfl
      obtain ⟨vfs', _, looked, ran⟩ := bind_ok.mp ran
      obtain ⟨_, isHeld, isVfs', rfl⟩ := nodeAt_ok.mp looked
      cases isChild.symm.trans isHeld
      have plain : ¬ vfs'.flags &&& vfsMountpoint ≠ 0 := by
        rw [← isVfs']
        change ¬ entry.vfs.flags &&& vfsMountpoint ≠ 0
        rw [creates.flags]
        decide
      rw [if_neg plain] at ran
      exact .inr ⟨(pure_ok.mp ran).1.symm, isNamed.mp named⟩

/-- `ramfs_create_file` returns the new file exactly if it was accepted with its whole name. -/
theorem ramfsCreateFile_ok (sound : s.Sound) {found : Option Nat}
    (ran : ramfsCreateFile parent name s = .ok (found, t)) :
    (found = none ∧ s.Kept t ∧
        ¬ ((cString name).length < vfsMaxName ∧ ∃ dir, s.Accepts parent name vfsFile dir)) ∨
      found = some s.allocated ∧ (cString name).length < vfsMaxName ∧
        ∃ dir child, s.Creates t parent name vfsFile dir child := by
  obtain ⟨result, u, created, ran⟩ := bind_ok.mp ran
  rcases ramfsCreate_ok sound created with
    ⟨failed, kept, refused⟩ | ⟨rfl, dir, child, creates⟩
  · rw [if_pos failed] at ran
    obtain ⟨rfl, rfl⟩ := pure_ok.mp ran
    exact .inl ⟨rfl, kept, fun ⟨_, dir, accepts⟩ => refused dir accepts⟩
  · rw [if_neg (by decide)] at ran
    obtain ⟨rfl, ⟨rfl, long⟩ | ⟨rfl, short⟩⟩ := creates.find sound ran
    · exact .inl ⟨rfl, creates.born.kept, fun accepts => long accepts.1⟩
    · exact .inr ⟨rfl, short, dir, child, creates⟩

end FileTree

end Create

section Calls

variable {name : List UInt8}

namespace FileTree

theorem kept_of_reads {α : Type} {x : TreeProgram α} (reads : Moves Eq x) : Moves Kept x := by
  intro s a t ran
  obtain rfl := reads s a t ran
  exact Std.Refl.refl s

theorem setNode_kept {change : FsNode → FsNode}
    (alike : ∀ object : FsObject, object.Alike (object.withVfs (change object.vfs))) :
    Moves Kept (setNode address change) := by
  intro s _ t ran
  obtain ⟨object, held, rfl⟩ := setNode_ok.mp ran
  exact kept_alike held (alike object)

theorem alike_length (object : FsObject) (length : Nat) :
    object.Alike (object.withVfs { object.vfs with length }) := by
  cases object with
  | ramfs node => exact ⟨rfl, rfl, rfl, rfl, rfl⟩
  | procfs node => exact ⟨rfl, rfl, rfl, rfl, rfl⟩

theorem ramfsWrite_kept (offset : Nat) (buffer : Option (List UInt8)) :
    Moves Kept (ramfsWrite address offset buffer) := by
  refine (kept_of_reads nodeAt_reads).bind fun vfs => ?_
  cases vfs.impl with
  | none => exact .pure _
  | some impl =>
      cases buffer with
      | none => exact .pure _
      | some bytes =>
          refine .ite (.pure _) (.ite (.pure _) ?_)
          intro s result t ran
          obtain ⟨rnode, _, cast, ran⟩ := bind_ok.mp ran
          obtain ⟨held, rfl⟩ := ramfsAt_ok.mp cast
          obtain ⟨written, u, wrote, ran⟩ := bind_ok.mp ran
          obtain ⟨_, v, stored, ran⟩ := bind_ok.mp ran
          obtain ⟨_, w, renewed, ran⟩ := bind_ok.mp ran
          obtain ⟨rfl, rfl⟩ := pure_ok.mp ran
          obtain ⟨_, isAfter⟩ := modifyGet_ok.mp wrote
          have same : s.Same u := by
            rw [← isAfter]
            exact ⟨rfl, rfl, rfl⟩
          obtain ⟨_, rfl⟩ := modifyGet_ok.mp stored
          refine Trans.trans same.kept (Trans.trans (kept_alike (same.objects.symm ▸ held) ?_)
            (setNode_kept (fun object => alike_length object _) _ _ _ renewed))
          exact ⟨rfl, rfl, rfl, rfl, rfl⟩

theorem vfsWrite_kept (offset : Nat) (buffer : Option (List UInt8)) :
    Moves Kept (vfsWrite address offset buffer) := by
  refine (kept_of_reads nodeAt_reads).bind fun vfs => ?_
  cases vfs.table .write with
  | none => exact .pure _
  | some function =>
      cases function
      exact ramfsWrite_kept offset buffer

theorem vfsAppend_kept (buffer : Option (List UInt8)) :
    Moves Kept (vfsAppend address buffer) := by
  refine (kept_of_reads nodeAt_reads).bind fun vfs => ?_
  cases vfs.table .write with
  | none => exact .pure _
  | some function =>
      cases function
      exact ramfsWrite_kept vfs.length buffer

theorem vfsTruncate_kept : Moves Kept (vfsTruncate address) :=
  (setNode_kept fun object => alike_length object 0).bind fun _ => .pure _

theorem vfsRead_reads (answer : Nat → Nat → Nat → Int × List UInt8) (offset size : Nat)
    (buffer : Bool) : Moves Eq (vfsRead answer address offset size buffer) := by
  refine nodeAt_reads.bind fun vfs => ?_
  cases vfs.table .read with
  | none => exact .pure _
  | some function =>
      cases function with
      | ramfsRead =>
          refine nodeAt_reads.bind fun vfs => ?_
          cases vfs.impl with
          | none => exact .pure _
          | some impl =>
              exact .ite (.pure _) (.ite (.pure _) (ramfsAt_reads.bind fun rnode => .pure _))
      | procfsDynamicRead =>
          refine nodeAt_reads.bind fun vfs => ?_
          cases vfs.impl with
          | none => exact .pure _
          | some impl =>
              refine Moves.bind (objectAt_reads.bind fun object => ?_) fun pnode => .pure _
              cases object with
              | ramfs node => exact .throw _
              | procfs node => exact .pure _

theorem vfsOpen_reads : Moves Eq (vfsOpen address) := by
  refine nodeAt_reads.bind fun vfs => ?_
  cases vfs.table .openFile with
  | none => exact .pure _
  | some function => cases function

theorem vfsClose_reads : Moves Eq (vfsClose address) := by
  refine nodeAt_reads.bind fun vfs => ?_
  cases vfs.table .closeFile with
  | none => exact .pure _
  | some function => cases function

theorem vfsReaddir_reads (index : Nat) : Moves Eq (vfsReaddir address index) := by
  refine nodeAt_reads.bind fun vfs => .ite (.pure _) ?_
  cases vfs.table .readdir with
  | none => exact .pure _
  | some function =>
      cases function
      refine nodeAt_reads.bind fun vfs => ?_
      cases vfs.impl with
      | none => exact .pure _
      | some impl =>
          refine .ite (.pure _) (ramfsAt_reads.bind fun rnode => ?_)
          cases rnode.childList[index]? with
          | none => exact .pure _
          | some child => exact ramfsAt_reads.bind fun entry => .pure _

theorem ramfsCreate_kept (type : Nat) : Moves Kept (ramfsCreate address name type) := by
  intro s result t ran sound
  rcases ramfsCreate_ok sound ran with ⟨_, kept, _⟩ | ⟨_, dir, child, creates⟩
  · exact kept sound
  · exact creates.born.kept sound

theorem ramfsCreateNode_kept (type : Nat) : Moves Kept (ramfsCreateNode type address name) :=
  (ramfsCreate_kept type).bind fun _ => .ite (.pure _) (kept_of_reads (vfsFinddir_reads name))

theorem vfsCreate_kept (type : Nat) : Moves Kept (vfsCreate address name type) := by
  refine (kept_of_reads nodeAt_reads).bind fun vfs => .ite (.pure _) ?_
  cases vfs.table .create with
  | none => exact .pure _
  | some function =>
      cases function
      exact ramfsCreate_kept type

theorem devfsRegister_kept (devfsRoot : Option Nat) :
    Moves Kept (devfsRegister devfsRoot name) := by
  have counted : ∀ s : FileTree, ∀ count, s.Kept { s with deviceCount := count } :=
    fun s count => Same.kept ⟨rfl, rfl, rfl⟩
  refine Moves.bind (kept_of_reads ?_) fun count => .ite (.pure _) (Moves.bind ?_ fun _ => ?_)
  · intro s count t ran
    exact (modifyGet_ok.mp ran).2
  · intro s _ t ran
    obtain ⟨_, rfl⟩ := modifyGet_ok.mp ran
    exact counted s _
  · cases devfsRoot with
    | none => exact .pure _
    | some root => exact (ramfsCreateNode_kept vfsFile).bind fun _ => .pure _

theorem plantRoot_kept : Moves Kept plantRoot := by
  intro s _ t ran
  obtain ⟨made, u, allocated, ran⟩ := bind_ok.mp ran
  rcases ramfsAllocNode_ok allocated with ⟨rfl, _, same⟩ | ⟨node, rfl, _, new, grown, _, _⟩
  · obtain ⟨_, rfl⟩ := pure_ok.mp ran
    exact same.kept
  · obtain ⟨_, rfl⟩ := modifyGet_ok.mp ran
    exact Grown.kept_root ⟨grown.objects, grown.allocated⟩ new.alone rfl

theorem ramfsUnlink_kept : Moves Kept (ramfsUnlink address name) := by
  intro s result t ran sound
  obtain ⟨vfs, _, looked, ran⟩ := bind_ok.mp ran
  obtain ⟨object, held, isVfs, rfl⟩ := nodeAt_ok.mp looked
  cases isImpl : vfs.impl with
  | none =>
      simp only [isImpl] at ran
      obtain ⟨_, rfl⟩ := pure_ok.mp ran
      exact ⟨sound, .refl s⟩
  | some parent =>
      simp only [isImpl] at ran
      by_cases file : vfs.isDirectory = false
      · rw [if_pos file] at ran
        obtain ⟨_, rfl⟩ := pure_ok.mp ran
        exact ⟨sound, .refl s⟩
      · rw [if_neg file] at ran
        obtain ⟨dir, _, cast, ran⟩ := bind_ok.mp ran
        obtain ⟨isDir, rfl⟩ := ramfsAt_ok.mp cast
        obtain ⟨found, _, searched, ran⟩ := bind_ok.mp ran
        obtain rfl := findChild_reads _ _ _ _ _ searched
        cases found with
        | none =>
            obtain ⟨_, rfl⟩ := pure_ok.mp ran
            exact ⟨sound, .refl s⟩
        | some child =>
            obtain ⟨member, _⟩ := (findChild_ok searched).1 child rfl
            obtain ⟨entry, _, cast, ran⟩ := bind_ok.mp ran
            obtain ⟨isChild, rfl⟩ := ramfsAt_ok.mp cast
            by_cases full : entry.vfs.isDirectory ∧ 0 < entry.childList.length
            · rw [if_pos full] at ran
              obtain ⟨_, rfl⟩ := pure_ok.mp ran
              exact ⟨sound, .refl s⟩
            · rw [if_neg full] at ran
              obtain ⟨_, u, unlinked, ran⟩ := bind_ok.mp ran
              obtain ⟨_, v, freed, ran⟩ := bind_ok.mp ran
              obtain ⟨_, rfl⟩ := pure_ok.mp ran
              obtain ⟨_, rfl⟩ := modifyGet_ok.mp unlinked
              obtain ⟨_, rfl⟩ := modifyGet_ok.mp freed
              refine kept_prune isDir isChild member (fun directory => ?_) rfl sound
              by_contra some
              exact full ⟨directory, List.length_pos_iff.mpr some⟩

theorem vfsUnlink_kept : Moves Kept (vfsUnlink address name) := by
  refine (kept_of_reads nodeAt_reads).bind fun vfs => .ite (.pure _) ?_
  cases vfs.table .unlink with
  | none => exact .pure _
  | some function =>
      cases function
      exact ramfsUnlink_kept

end FileTree

end Calls

section Procfs

variable {name : List UInt8} {fileType : Nat}

theorem FileTree.accepts_congr (memory : t.memory = s.memory)
    (same : ∀ address node, t.objects address = some (.ramfs node) ↔
      s.objects address = some (.ramfs node)) {type : Nat} :
    t.Accepts parent name type dir ↔ s.Accepts parent name type dir := by
  constructor
  · rintro ⟨held, directory, unused, given, room⟩
    rw [memory] at given room
    exact ⟨(same parent dir).mp held, directory, fun child member node isNode =>
      unused child member node ((same child node).mpr isNode), given, room⟩
  · rintro ⟨held, directory, unused, given, room⟩
    rw [← memory] at given room
    exact ⟨(same parent dir).mpr held, directory, fun child member node isNode =>
      unused child member node ((same child node).mp isNode), given, room⟩

/-- A file of ramfs gets the functions and the `impl` of a file of procfs. -/
structure FileTree.Converted (s t : FileTree) (address : Nat) (file : RamfsObject)
    (place fileType : Nat) : Prop where
  held : s.objects address = some (.ramfs file)
  ordinary : file.Ordinary address
  procfs : ∃ pnode, s.objects place = some (.procfs pnode)
  after : t = { s with
    objects := Function.update s.objects address
      (some (.ramfs { file with vfs := FileTree.dynamicFile place fileType file.vfs })) }

section Converted

variable {file : RamfsObject} {place : Nat}

theorem FileTree.Converted.forest (converted : s.Converted t address file place fileType) :
    t.forest = s.forest := by
  rw [converted.after]
  simp only [FileTree.forest, Forest.mk.injEq, and_true]
  funext other
  by_cases own : other = address
  · rw [own, Function.update_self, converted.held]
    rfl
  · rw [Function.update_of_ne own]

theorem FileTree.Converted.dynamic (converted : s.Converted t address file place fileType) :
    ∃ later, t.objects address = some (.ramfs later) ∧ t.Dynamic later := by
  obtain ⟨pnode, isProcfs⟩ := converted.procfs
  have apart : place ≠ address := by
    rintro rfl
    cases isProcfs.symm.trans converted.held
  refine ⟨_, by rw [converted.after]; exact Function.update_self .., ?_, place, pnode, rfl, ?_⟩
  · change Function.update file.vfs.table .read (some .procfsDynamicRead) = _
    rw [converted.ordinary.1]
  · rw [converted.after]
    exact update_some.mpr (.inr ⟨apart, isProcfs⟩)

theorem FileTree.Converted.old (converted : s.Converted t address file place fileType)
    {other : Nat} {object : FsObject} (held : t.objects other = some object) :
    other = address ∨ s.objects other = some object := by
  rw [converted.after] at held
  rcases update_some.mp held with ⟨own, _⟩ | ⟨_, old⟩
  · exact .inl own
  · exact .inr old

theorem FileTree.Converted.sound (converted : s.Converted t address file place fileType)
    (sound : s.Sound) : t.Sound := by
  obtain ⟨later, isLater, dynamic⟩ := converted.dynamic
  have kept : ∀ other pnode, s.objects other = some (.procfs pnode) →
      t.objects other = some (.procfs pnode) := by
    intro other pnode held
    rw [converted.after]
    refine update_some.mpr (.inr ⟨?_, held⟩)
    rintro rfl
    cases held.symm.trans converted.held
  constructor
  · intro other large
    have large : s.allocated ≤ other := by
      rw [converted.after] at large
      exact large
    cases held : t.objects other with
    | none => rfl
    | some object =>
        have none := sound.fresh other large
        rcases converted.old held with rfl | old
        · cases none.symm.trans converted.held
        · cases none.symm.trans old
  · rw [converted.forest]
    exact sound.forest
  · intro other node held
    rcases converted.old held with rfl | old
    · cases isLater.symm.trans held
      exact .inr dynamic
    · rcases sound.kinds other node old with ordinary | ⟨table, there, pnode, impl, isProcfs⟩
      · exact .inl ordinary
      · exact .inr ⟨table, there, pnode, impl, kept there pnode isProcfs⟩
  · intro other pnode held
    rcases converted.old held with rfl | old
    · cases isLater.symm.trans held
    · exact sound.files other pnode old

end Converted

theorem FileTree.procfsCreateDynamic_ok (sound : s.Sound) {found : Option Nat}
    (ran : procfsCreateDynamic parent name fileType s = .ok (found, t)) :
    (s.Kept t ∧ ¬ s.MakesDynamic parent name) ∨
      s.MakesDynamic parent name ∧ ∃ before middle dir file place,
        s.Kept before ∧ s.allocated ≤ before.allocated ∧
        before.forest = { s.forest with next := before.allocated } ∧
        before.Creates middle parent name vfsFile dir file ∧
        middle.Converted t before.allocated file place fileType := by
  obtain ⟨given, u, asked, ran⟩ := bind_ok.mp ran
  obtain ⟨same, ⟨nothing, _⟩ | ⟨_, rfl, rfl⟩⟩ := kmalloc_ok asked
  · cases nothing
  cases answer : s.memory 0 with
  | false =>
      rw [if_neg (by rw [answer]; decide)] at ran
      obtain ⟨_, rfl⟩ := pure_ok.mp ran
      exact .inl ⟨same.kept, fun makes => Bool.false_ne_true (answer.symm.trans makes.2.1)⟩
  | true =>
      rw [if_pos answer] at ran
      obtain ⟨place, v, stored, ran⟩ := bind_ok.mp ran
      obtain ⟨rfl, rfl⟩ := modifyGet_ok.mp stored
      obtain ⟨file, w, created, ran⟩ := bind_ok.mp ran
      set shifted : FileTree := { s with memory := fun n => s.memory (n + 1) } with isShifted
      set before : FileTree := { shifted with
        objects := Function.update shifted.objects shifted.allocated
          (some (.procfs (newProcfsNode name fileType shifted.allocated)))
        allocated := shifted.allocated + 1 } with isBefore
      have grown : shifted.Grown before (.procfs (newProcfsNode name fileType s.allocated)) :=
        ⟨rfl, rfl⟩
      have keptBefore : s.Kept before := Trans.trans same.kept (grown.kept_procfs rfl (by
        change decide (vfsFile &&& vfsDirectory ≠ 0) = false
        decide))
      have soundShifted := (same.kept sound).1
      have soundBefore := (keptBefore sound).1
      have sameNodes : ∀ address node, before.objects address = some (.ramfs node) ↔
          shifted.objects address = some (.ramfs node) := by
        intro address node
        constructor
        · intro held
          rcases grown.some_iff.mp held with ⟨_, other⟩ | ⟨_, old⟩
          · cases other
          · exact old
        · intro held
          exact update_empty (soundShifted.fresh _ (Nat.le_refl _)) held _
      have accepts : ∀ dir, before.Accepts parent name vfsFile dir ↔
          shifted.Accepts parent name vfsFile dir := by
        intro dir
        apply accepts_congr
        · rfl
        · exact sameNodes
      rcases ramfsCreateFile_ok soundBefore created with
        ⟨rfl, kept, refused⟩ | ⟨rfl, short, dir, child, creates⟩
      · obtain ⟨_, rfl⟩ := pure_ok.mp ran
        refine .inl ⟨Trans.trans keptBefore kept, fun ⟨short, _, dir, accepted⟩ => ?_⟩
        exact refused ⟨short, dir, (accepts dir).mpr accepted⟩
      · obtain ⟨_, x, converted, ran⟩ := bind_ok.mp ran
        obtain ⟨_, rfl⟩ := pure_ok.mp ran
        obtain ⟨object, held, isAfter⟩ := setNode_ok.mp converted
        cases (creates.born.after_child soundBefore).symm.trans held
        obtain ⟨pnode, isProcfs⟩ := (creates.born.kept soundBefore).2.procfs s.allocated _
          (grown.some_iff.mpr (.inl ⟨rfl, rfl⟩))
        refine .inr ⟨⟨short, answer, dir, (accepts dir).mp creates.accepts⟩, before, w, dir, child,
          s.allocated, keptBefore, Nat.le_succ _, ?_, creates,
          creates.born.after_child soundBefore, creates.born.ordinary, ⟨pnode, isProcfs⟩, isAfter⟩
        rw [grown.forest_procfs soundShifted rfl, same.forest]
        rfl

end Procfs

end ZurichOS
