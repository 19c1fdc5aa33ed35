import ZurichOS.AddressForest
import ZurichOS.FileTreeCore

set_option linter.all false

/-!
The tree of nodes as a forest of addresses, and the steps that leave the functions and the
private data of every node as they are.
-/

namespace ZurichOS

open AddressForest Faulting PartialTable

def FsObject.entry : FsObject → Option Entry
  | .ramfs node => some ⟨node.childList, node.vfs.parent, node.vfs.isDirectory⟩
  | .procfs _ => none

/-- The nodes of ramfs with their links; paths lead along these. -/
def FileTree.forest (s : FileTree) : Forest :=
  { entries := fun address => (s.objects address).bind FsObject.entry
    root := s.root
    next := s.allocated }

def RamfsObject.Ordinary (address : Nat) (node : RamfsObject) : Prop :=
  node.vfs.table = FileTree.ramfsTable ∧ node.vfs.impl = some address

/-- A file as `procfs_create_dynamic` leaves it. -/
def FileTree.Dynamic (s : FileTree) (node : RamfsObject) : Prop :=
  node.vfs.table = Function.update FileTree.ramfsTable .read (some .procfsDynamicRead) ∧
    ∃ address pnode, node.vfs.impl = some address ∧ s.objects address = some (.procfs pnode)

structure FileTree.Sound (s : FileTree) : Prop where
  fresh : ∀ address, s.allocated ≤ address → s.objects address = none
  forest : s.forest.Sound
  kinds : ∀ address node, s.objects address = some (.ramfs node) →
    node.Ordinary address ∨ s.Dynamic node
  files : ∀ address pnode, s.objects address = some (.procfs pnode) →
    pnode.vfs.isDirectory = false

/-- What all calls do but one: no node gets other functions or another `impl`. -/
structure FileTree.Steps (s t : FileTree) : Prop where
  edits : Edits s.forest t.forest
  nodes : ∀ address node, t.objects address = some (.ramfs node) → node.Ordinary address ∨
    ∃ before, s.objects address = some (.ramfs before) ∧ node.vfs.table = before.vfs.table ∧
      node.vfs.impl = before.vfs.impl
  procfs : ∀ address pnode, s.objects address = some (.procfs pnode) →
    ∃ later, t.objects address = some (.procfs later)
  files : ∀ address pnode, t.objects address = some (.procfs pnode) →
    pnode.vfs.isDirectory = false ∨ ∃ before, s.objects address = some (.procfs before) ∧
      pnode.vfs.isDirectory = before.vfs.isDirectory

variable {s t u : FileTree} {address parent child : Nat} {node dir : RamfsObject}

theorem FileTree.forest_some {entry : Entry} : s.forest.entries address = some entry ↔
    ∃ node, s.objects address = some (.ramfs node) ∧
      entry = ⟨node.childList, node.vfs.parent, node.vfs.isDirectory⟩ := by
  rw [FileTree.forest, Option.bind_eq_some_iff]
  constructor
  · rintro ⟨object, held, isEntry⟩
    cases object with
    | ramfs node => exact ⟨node, held, (Option.some.inj isEntry).symm⟩
    | procfs node => cases isEntry
  · rintro ⟨node, held, rfl⟩
    exact ⟨_, held, rfl⟩

/-- No object lies at the next address. -/
theorem FileTree.Sound.allocated_ne (sound : s.Sound) {object : FsObject}
    (held : s.objects address = some object) : s.allocated ≠ address := by
  rintro rfl
  rw [sound.fresh _ (Nat.le_refl _)] at held
  cases held

section Steps

theorem FileTree.Steps.refl (s : FileTree) : s.Steps s :=
  ⟨.refl, fun _ node held => .inr ⟨node, held, rfl, rfl⟩, fun _ pnode held => ⟨pnode, held⟩,
    fun _ pnode held => .inr ⟨pnode, held, rfl⟩⟩

theorem FileTree.Steps.trans (first : s.Steps t) (second : t.Steps u) : s.Steps u := by
  refine ⟨first.edits.trans second.edits, ?_, ?_, ?_⟩
  · intro address node held
    rcases second.nodes address node held with ordinary | ⟨middle, isMiddle, table, impl⟩
    · exact .inl ordinary
    · rcases first.nodes address middle isMiddle with ordinary | ⟨before, isBefore, sameTable, same⟩
      · exact .inl ⟨table.trans ordinary.1, impl.trans ordinary.2⟩
      · exact .inr ⟨before, isBefore, table.trans sameTable, impl.trans same⟩
  · intro address pnode held
    obtain ⟨middle, isMiddle⟩ := first.procfs address pnode held
    exact second.procfs address middle isMiddle
  · intro address pnode held
    rcases second.files address pnode held with file | ⟨middle, isMiddle, same⟩
    · exact .inl file
    · rcases first.files address middle isMiddle with file | ⟨before, isBefore, sameAgain⟩
      · exact .inl (same.trans file)
      · exact .inr ⟨before, isBefore, same.trans sameAgain⟩

theorem FileTree.Sound.next (sound : s.Sound) (steps : s.Steps t)
    (fresh : ∀ address, t.allocated ≤ address → t.objects address = none) : t.Sound := by
  refine ⟨fresh, steps.edits.sound sound.forest, fun address node held => ?_,
    fun address pnode held => ?_⟩
  · rcases steps.nodes address node held with ordinary | ⟨before, isBefore, table, impl⟩
    · exact .inl ordinary
    · rcases sound.kinds address before isBefore with
        ordinary | ⟨isTable, place, pnode, isImpl, isNode⟩
      · exact .inl ⟨table.trans ordinary.1, impl.trans ordinary.2⟩
      · obtain ⟨later, isLater⟩ := steps.procfs place pnode isNode
        exact .inr ⟨table.trans isTable, place, later, impl.trans isImpl, isLater⟩
  · rcases steps.files address pnode held with file | ⟨before, isBefore, same⟩
    · exact file
    · exact same.trans (sound.files address before isBefore)

/-- A program that keeps the tree sound and takes such steps only. -/
def FileTree.Kept (s t : FileTree) : Prop := s.Sound → t.Sound ∧ s.Steps t

instance : Std.Refl FileTree.Kept := ⟨fun s sound => ⟨sound, .refl s⟩⟩

instance : IsTrans FileTree FileTree.Kept := ⟨fun _ _ _ first second sound =>
  ⟨(second (first sound).1).1, (first sound).2.trans (second (first sound).1).2⟩⟩

/-- Nothing changes that paths or functions see. -/
structure FileTree.Same (s t : FileTree) : Prop where
  objects : t.objects = s.objects
  allocated : t.allocated = s.allocated
  root : t.root = s.root

theorem FileTree.Same.forest (same : s.Same t) : t.forest = s.forest := by
  rw [FileTree.forest, FileTree.forest, same.objects, same.root, same.allocated]

theorem FileTree.Same.kept (same : s.Same t) : s.Kept t := by
  intro sound
  have steps : s.Steps t := by
    refine ⟨by rw [same.forest], ?_, ?_, ?_⟩
    · intro address node held
      exact .inr ⟨node, same.objects ▸ held, rfl, rfl⟩
    · intro address pnode held
      exact ⟨pnode, same.objects ▸ held⟩
    · intro address pnode held
      exact .inr ⟨pnode, same.objects ▸ held, rfl⟩
  refine ⟨sound.next steps fun address large => ?_, steps⟩
  rw [same.objects]
  exact sound.fresh address (same.allocated ▸ large)

/-- Only what the links of an object are matters to paths. -/
structure FsObject.Alike (before after : FsObject) : Prop where
  type : after.type = before.type
  entry : after.entry = before.entry
  table : after.vfs.table = before.vfs.table
  impl : after.vfs.impl = before.vfs.impl
  directory : after.vfs.isDirectory = before.vfs.isDirectory

theorem FileTree.kept_alike {before after : FsObject} (held : s.objects address = some before)
    (alike : before.Alike after) :
    s.Kept { s with objects := Function.update s.objects address (some after) } := by
  intro sound
  have sameForest : ({ s with objects := Function.update s.objects address (some after) } :
      FileTree).forest = s.forest := by
    simp only [FileTree.forest, Forest.mk.injEq, and_true]
    funext other
    by_cases own : other = address
    · rw [own, Function.update_self, held]
      exact alike.entry
    · rw [Function.update_of_ne own]
  have steps : s.Steps { s with objects := Function.update s.objects address (some after) } := by
    refine ⟨by rw [sameForest], ?_, ?_, ?_⟩
    · intro other node found
      rcases update_some.mp found with ⟨rfl, isNew⟩ | ⟨_, old⟩
      · obtain rfl := Option.some.inj isNew
        cases before with
        | ramfs old => exact .inr ⟨old, held, alike.table, alike.impl⟩
        | procfs old =>
            have sameType := alike.type
            cases sameType
      · exact .inr ⟨node, old, rfl, rfl⟩
    · intro other pnode found
      by_cases own : other = address
      · subst own
        obtain rfl := Option.some.inj (held.symm.trans found)
        cases after with
        | ramfs new =>
            have sameType := alike.type
            cases sameType
        | procfs new => exact ⟨new, Function.update_self ..⟩
      · exact ⟨pnode, update_some.mpr (.inr ⟨own, found⟩)⟩
    · intro other pnode found
      rcases update_some.mp found with ⟨rfl, isNew⟩ | ⟨_, old⟩
      · obtain rfl := Option.some.inj isNew
        cases before with
        | ramfs old =>
            have sameType := alike.type
            cases sameType
        | procfs old => exact .inr ⟨old, held, alike.directory⟩
      · exact .inr ⟨pnode, old, rfl⟩
  refine ⟨sound.next steps fun other large => ?_, steps⟩
  have away : other ≠ address := by
    rintro rfl
    rw [sound.fresh other large] at held
    cases held
  change Function.update s.objects address (some after) other = none
  rw [Function.update_of_ne away]
  exact sound.fresh other large

/-- A new object at the next address. -/
structure FileTree.Grown (s t : FileTree) (object : FsObject) : Prop where
  objects : t.objects = Function.update s.objects s.allocated (some object)
  allocated : t.allocated = s.allocated + 1

theorem FileTree.Grown.some_iff {object found : FsObject} (grown : s.Grown t object) :
    t.objects address = some found ↔ address = s.allocated ∧ object = found ∨
      address ≠ s.allocated ∧ s.objects address = some found := by
  rw [grown.objects, update_some, Option.some.injEq]

theorem FileTree.Grown.fresh {object : FsObject} (grown : s.Grown t object) (sound : s.Sound)
    (large : t.allocated ≤ address) : t.objects address = none := by
  rw [grown.allocated] at large
  have away : address ≠ s.allocated := by omega
  rw [grown.objects, Function.update_of_ne away]
  exact sound.fresh address (by omega)

theorem FileTree.Grown.kept {object : FsObject} (grown : s.Grown t object)
    (ordinary : ∀ node, object = .ramfs node → node.Ordinary s.allocated)
    (file : ∀ pnode, object = .procfs pnode → pnode.vfs.isDirectory = false)
    (edit : Edit s.forest t.forest) : s.Kept t := by
  intro sound
  have steps : s.Steps t := by
    refine ⟨.single edit, ?_, ?_, ?_⟩
    · intro address node held
      rcases grown.some_iff.mp held with ⟨rfl, isNew⟩ | ⟨_, old⟩
      · exact .inl (ordinary node isNew)
      · exact .inr ⟨node, old, rfl, rfl⟩
    · intro address pnode held
      have away := (sound.allocated_ne held).symm
      exact ⟨pnode, grown.some_iff.mpr (.inr ⟨away, held⟩)⟩
    · intro address pnode held
      rcases grown.some_iff.mp held with ⟨rfl, isNew⟩ | ⟨_, old⟩
      · exact .inl (file pnode isNew)
      · exact .inr ⟨pnode, old, rfl⟩
  exact ⟨sound.next steps fun _ large => grown.fresh sound large, steps⟩

/-- A node of ramfs that is not in a directory yet. -/
structure RamfsObject.Alone (address : Nat) (node : RamfsObject) : Prop where
  ordinary : node.Ordinary address
  children : node.childList = []
  parent : node.vfs.parent = none

theorem FileTree.Grown.stray (grown : s.Grown t (.ramfs node)) (alone : node.Alone s.allocated)
    (root : t.root = s.root) : t.forest = s.forest.stray node.vfs.isDirectory := by
  simp only [FileTree.forest, Forest.stray, Forest.mk.injEq]
  refine ⟨?_, root, grown.allocated⟩
  funext other
  rw [grown.objects]
  by_cases own : other = s.allocated
  · rw [own, Function.update_self, Function.update_self]
    change some (⟨node.childList, node.vfs.parent, node.vfs.isDirectory⟩ : Entry) = _
    rw [alone.children, alone.parent]
  · rw [Function.update_of_ne own, Function.update_of_ne own]

theorem FileTree.Grown.kept_ramfs (grown : s.Grown t (.ramfs node))
    (alone : node.Alone s.allocated) (root : t.root = s.root) : s.Kept t := by
  apply grown.kept
  · intro other same
    cases same
    exact alone.ordinary
  · intro pnode same
    cases same
  · rw [grown.stray alone root]
    exact .stray _

theorem FileTree.Grown.kept_root (grown : s.Grown t (.ramfs node))
    (alone : node.Alone s.allocated) (root : t.root = some s.allocated) : s.Kept t := by
  apply grown.kept
  · intro other same
    cases same
    exact alone.ordinary
  · intro pnode same
    cases same
  · have isStray := FileTree.Grown.stray (t := { t with root := s.root })
      ⟨grown.objects, grown.allocated⟩ alone rfl
    have isForest : t.forest = { s.forest.stray node.vfs.isDirectory with
        root := some s.forest.next } := by
      rw [← isStray]
      simp only [FileTree.forest, root]
    rw [isForest]
    exact .plant _

theorem FileTree.Grown.forest_procfs {pnode : ProcfsNode} (grown : s.Grown t (.procfs pnode))
    (sound : s.Sound) (root : t.root = s.root) :
    t.forest = { s.forest with next := s.forest.next + 1 } := by
  simp only [FileTree.forest, Forest.mk.injEq]
  refine ⟨?_, root, grown.allocated⟩
  funext other
  rw [grown.objects]
  by_cases own : other = s.allocated
  · rw [own, Function.update_self, sound.fresh _ (Nat.le_refl _)]
    rfl
  · rw [Function.update_of_ne own]

theorem FileTree.Grown.kept_procfs {pnode : ProcfsNode} (grown : s.Grown t (.procfs pnode))
    (root : t.root = s.root) (file : pnode.vfs.isDirectory = false) : s.Kept t := by
  intro sound
  refine grown.kept ?_ ?_ ?_ sound
  · intro node same
    cases same
  · intro other same
    cases same
    exact file
  · rw [grown.forest_procfs sound root]
    exact .skip

/-- A new child at the next address, in the directory. -/
structure FileTree.Born (s t : FileTree) (parent : Nat) (dir child : RamfsObject) : Prop where
  held : s.objects parent = some (.ramfs dir)
  directory : dir.vfs.isDirectory = true
  objects : ∃ capacity, t.objects =
    Function.update (Function.update s.objects s.allocated (some (.ramfs child))) parent
      (some (.ramfs { dir with
        children := some (dir.childList ++ [s.allocated]), childCapacity := capacity }))
  allocated : t.allocated = s.allocated + 1
  root : t.root = s.root
  ordinary : child.Ordinary s.allocated
  children : child.childList = []
  isParent : child.vfs.parent = some parent

theorem FileTree.Born.forest {child : RamfsObject} (born : s.Born t parent dir child) :
    t.forest = s.forest.birth parent ⟨dir.childList, dir.vfs.parent, dir.vfs.isDirectory⟩
      child.vfs.isDirectory := by
  obtain ⟨capacity, objects⟩ := born.objects
  simp only [FileTree.forest, Forest.birth, Forest.mk.injEq]
  refine ⟨?_, born.root, born.allocated⟩
  funext other
  rw [objects]
  by_cases isParent : other = parent
  · rw [isParent, Function.update_self, Function.update_self]
    rfl
  · rw [Function.update_of_ne isParent, Function.update_of_ne isParent]
    by_cases isNew : other = s.allocated
    · rw [isNew, Function.update_self, Function.update_self]
      change some (⟨child.childList, child.vfs.parent, child.vfs.isDirectory⟩ : Entry) = _
      rw [born.children, born.isParent]
    · rw [Function.update_of_ne isNew, Function.update_of_ne isNew]

theorem FileTree.Born.apart {child : RamfsObject} (born : s.Born t parent dir child)
    (sound : s.Sound) : s.allocated ≠ parent :=
  sound.allocated_ne born.held

theorem FileTree.Born.after_parent {child : RamfsObject} (born : s.Born t parent dir child) :
    ∃ capacity, t.objects parent = some (.ramfs { dir with
      children := some (dir.childList ++ [s.allocated]), childCapacity := capacity }) := by
  obtain ⟨capacity, objects⟩ := born.objects
  exact ⟨capacity, by rw [objects, Function.update_self]⟩

theorem FileTree.Born.after_child {child : RamfsObject} (born : s.Born t parent dir child)
    (sound : s.Sound) : t.objects s.allocated = some (.ramfs child) := by
  obtain ⟨capacity, objects⟩ := born.objects
  rw [objects, Function.update_of_ne (born.apart sound), Function.update_self]

theorem FileTree.Born.old {child : RamfsObject} (born : s.Born t parent dir child)
    (isNode : t.objects address = some (.ramfs node)) :
    address = s.allocated ∨
      ∃ before, s.objects address = some (.ramfs before) ∧ before.vfs = node.vfs := by
  obtain ⟨capacity, objects⟩ := born.objects
  rw [objects] at isNode
  rcases update_some.mp isNode with ⟨rfl, isDir⟩ | ⟨_, isNode⟩
  · cases isDir
    exact .inr ⟨dir, born.held, rfl⟩
  · rcases update_some.mp isNode with ⟨isNew, _⟩ | ⟨_, old⟩
    · exact .inl isNew
    · exact .inr ⟨node, old, rfl⟩

theorem FileTree.Born.kept {child : RamfsObject} (born : s.Born t parent dir child) :
    s.Kept t := by
  intro sound
  obtain ⟨capacity, objects⟩ := born.objects
  have edit : Edit s.forest t.forest := by
    rw [born.forest]
    exact .birth _ (FileTree.forest_some.mpr ⟨dir, born.held, rfl⟩) born.directory
  have steps : s.Steps t := by
    refine ⟨.single edit, ?_, ?_, ?_⟩
    · intro address node held
      rw [objects] at held
      rcases update_some.mp held with ⟨rfl, isDir⟩ | ⟨_, held⟩
      · cases isDir
        exact .inr ⟨dir, born.held, rfl, rfl⟩
      · rcases update_some.mp held with ⟨rfl, isChild⟩ | ⟨_, old⟩
        · cases isChild
          exact .inl born.ordinary
        · exact .inr ⟨node, old, rfl, rfl⟩
    · intro address pnode held
      have notParent : address ≠ parent := by
        rintro rfl
        rw [born.held] at held
        cases held
      rw [objects, Function.update_of_ne notParent]
      exact ⟨pnode, update_empty (sound.fresh _ (Nat.le_refl _)) held _⟩
    · intro address pnode held
      rw [objects] at held
      rcases update_some.mp held with ⟨_, isDir⟩ | ⟨_, held⟩
      · cases isDir
      · rcases update_some.mp held with ⟨_, isChild⟩ | ⟨_, old⟩
        · cases isChild
        · exact .inr ⟨pnode, old, rfl⟩
  refine ⟨sound.next steps fun address large => ?_, steps⟩
  rw [born.allocated] at large
  have notNew : address ≠ s.allocated := by omega
  have old := sound.fresh address (by omega)
  have notParent : address ≠ parent := by
    rintro rfl
    rw [born.held] at old
    cases old
  rw [objects, Function.update_of_ne notParent, Function.update_of_ne notNew, old]

theorem FileTree.kept_prune {entry after : RamfsObject}
    (isDir : s.objects parent = some (.ramfs dir)) (isChild : s.objects child = some (.ramfs entry))
    (member : child ∈ dir.childList) (empty : entry.vfs.isDirectory = true → entry.childList = [])
    (isAfter : after = { dir with
      children := dir.children.map fun children => children.erase child }) :
    s.Kept { s with
      objects := Function.update (Function.update s.objects parent (some (.ramfs after))) child none } := by
  intro sound
  have childless : entry.childList = [] := by
    cases isDirectory : entry.vfs.isDirectory with
    | true => exact empty isDirectory
    | false =>
        exact sound.forest.leaf child _ (FileTree.forest_some.mpr ⟨entry, isChild, rfl⟩) isDirectory
  have erased : after.childList = dir.childList.erase child := by
    rw [isAfter]
    change (dir.children.map _).getD [] = (dir.children.getD []).erase child
    cases dir.children with
    | none => rfl
    | some children => rfl
  have vfs : after.vfs = dir.vfs := by rw [isAfter]
  set t : FileTree := { s with
    objects := Function.update (Function.update s.objects parent (some (.ramfs after))) child none }
    with isT
  have isForest : t.forest = s.forest.prune parent
      ⟨dir.childList, dir.vfs.parent, dir.vfs.isDirectory⟩ child := by
    simp only [FileTree.forest, Forest.prune, isT, Forest.mk.injEq, and_true]
    funext other
    by_cases gone : other = child
    · rw [gone, Function.update_self, Function.update_self]
      rfl
    · rw [Function.update_of_ne gone, Function.update_of_ne gone]
      by_cases isParent : other = parent
      · rw [isParent, Function.update_self, Function.update_self]
        change some (⟨after.childList, after.vfs.parent, after.vfs.isDirectory⟩ : Entry) = _
        rw [erased, vfs]
      · rw [Function.update_of_ne isParent, Function.update_of_ne isParent]
  have edit : Edit s.forest t.forest := by
    rw [isForest]
    exact .prune (FileTree.forest_some.mpr ⟨dir, isDir, rfl⟩) member
      (FileTree.forest_some.mpr ⟨entry, isChild, rfl⟩) childless
  have steps : s.Steps t := by
    refine ⟨.single edit, ?_, ?_, ?_⟩
    · intro address node held
      obtain ⟨_, held⟩ := update_none_some.mp held
      rcases update_some.mp held with ⟨rfl, same⟩ | ⟨_, old⟩
      · cases same
        exact .inr ⟨dir, isDir, by rw [vfs], by rw [vfs]⟩
      · exact .inr ⟨node, old, rfl, rfl⟩
    · intro address pnode held
      refine ⟨pnode, update_none_some.mpr ⟨?_, update_some.mpr (.inr ⟨?_, held⟩)⟩⟩
      · rintro rfl
        rw [isChild] at held
        cases held
      · rintro rfl
        rw [isDir] at held
        cases held
    · intro address pnode held
      obtain ⟨_, held⟩ := update_none_some.mp held
      rcases update_some.mp held with ⟨_, same⟩ | ⟨_, old⟩
      · cases same
      · exact .inr ⟨pnode, old, rfl⟩
  refine ⟨sound.next steps fun address large => ?_, steps⟩
  have old := sound.fresh address large
  have notParent : address ≠ parent := by
    rintro rfl
    rw [isDir] at old
    cases old
  change Function.update (Function.update s.objects parent _) child none address = none
  by_cases gone : address = child
  · rw [gone, Function.update_self]
  · rw [Function.update_of_ne gone, Function.update_of_ne notParent, old]

end Steps

section Memory

namespace FileTree

theorem objectAt_ok {object : FsObject} :
    objectAt address s = .ok (object, t) ↔ s.objects address = some object ∧ s = t := by
  rw [objectAt, bind_ok]
  constructor
  · rintro ⟨held, u, looked, ran⟩
    obtain ⟨rfl, rfl⟩ := modifyGet_ok.mp looked
    cases held : s.objects address with
    | none =>
        rw [held] at ran
        exact (throw_ok.mp ran).elim
    | some found =>
        rw [held] at ran
        obtain ⟨rfl, same⟩ := pure_ok.mp ran
        exact ⟨rfl, same⟩
  · rintro ⟨held, rfl⟩
    refine ⟨_, s, modifyGet_ok.mpr ⟨rfl, rfl⟩, ?_⟩
    rw [held]
    exact pure_ok.mpr ⟨rfl, rfl⟩

theorem nodeAt_ok {vfs : FsNode} : nodeAt address s = .ok (vfs, t) ↔
    ∃ object, s.objects address = some object ∧ object.vfs = vfs ∧ s = t := by
  rw [nodeAt, bind_ok]
  constructor
  · rintro ⟨object, u, looked, ran⟩
    obtain ⟨held, rfl⟩ := objectAt_ok.mp looked
    exact ⟨object, held, pure_ok.mp ran⟩
  · rintro ⟨object, held, same⟩
    exact ⟨object, s, objectAt_ok.mpr ⟨held, rfl⟩, pure_ok.mpr same⟩

theorem ramfsAt_ok :
    ramfsAt address s = .ok (node, t) ↔ s.objects address = some (.ramfs node) ∧ s = t := by
  rw [ramfsAt, bind_ok]
  constructor
  · rintro ⟨object, u, looked, ran⟩
    obtain ⟨held, rfl⟩ := objectAt_ok.mp looked
    cases object with
    | ramfs found =>
        obtain ⟨rfl, same⟩ := pure_ok.mp ran
        exact ⟨held, same⟩
    | procfs found => exact (throw_ok.mp ran).elim
  · rintro ⟨held, rfl⟩
    exact ⟨_, s, objectAt_ok.mpr ⟨held, rfl⟩, pure_ok.mpr ⟨rfl, rfl⟩⟩

theorem setNode_ok {change : FsNode → FsNode} : setNode address change s = .ok ((), t) ↔
    ∃ object, s.objects address = some object ∧ t = { s with
      objects := Function.update s.objects address (some (object.withVfs (change object.vfs))) } := by
  rw [setNode, bind_ok]
  constructor
  · rintro ⟨object, u, looked, ran⟩
    obtain ⟨held, rfl⟩ := objectAt_ok.mp looked
    exact ⟨object, held, (modifyGet_ok.mp ran).2.symm⟩
  · rintro ⟨object, held, rfl⟩
    exact ⟨object, s, objectAt_ok.mpr ⟨held, rfl⟩, modifyGet_ok.mpr ⟨rfl, rfl⟩⟩

/-- A call of `kmalloc` takes one of the answers, unless nothing is asked for. -/
theorem kmalloc_ok {size : Nat} {given : Bool} (ran : kmalloc size s = .ok (given, t)) :
    s.Same t ∧ (size = 0 ∧ given = false ∧ t = s ∨
      size ≠ 0 ∧ given = s.memory 0 ∧ t = { s with memory := fun n => s.memory (n + 1) }) := by
  obtain ⟨answer, after⟩ := modifyGet_ok.mp ran
  by_cases nothing : size = 0
  · rw [if_pos nothing] at answer after
    obtain rfl : s = t := after
    exact ⟨⟨rfl, rfl, rfl⟩, .inl ⟨nothing, answer.symm, rfl⟩⟩
  · rw [if_neg nothing] at answer after
    obtain rfl : _ = t := after
    exact ⟨⟨rfl, rfl, rfl⟩, .inr ⟨nothing, answer.symm, rfl⟩⟩

theorem objectAt_reads : Moves Eq (objectAt address) := by
  intro s object t ran
  exact (objectAt_ok.mp ran).2

theorem nodeAt_reads : Moves Eq (nodeAt address) := by
  intro s vfs t ran
  obtain ⟨_, _, _, same⟩ := nodeAt_ok.mp ran
  exact same

theorem ramfsAt_reads : Moves Eq (ramfsAt address) := by
  intro s node t ran
  exact (ramfsAt_ok.mp ran).2

theorem findChild_reads (name : List UInt8) (children : List Nat) :
    Moves Eq (findChild name children) := by
  induction children with
  | nil => exact .pure _
  | cons child rest ih => exact ramfsAt_reads.bind fun node => .ite (.pure _) ih

theorem findChild_ok {name : List UInt8} {children : List Nat} {found : Option Nat}
    (ran : findChild name children s = .ok (found, t)) :
    (∀ child, found = some child → child ∈ children ∧
      ∃ node, s.objects child = some (.ramfs node) ∧ node.vfs.name = name) ∧
    (found = none → ∀ child ∈ children, ∀ node, s.objects child = some (.ramfs node) →
      node.vfs.name ≠ name) := by
  induction children with
  | nil =>
      obtain ⟨rfl, _⟩ := pure_ok.mp ran
      refine ⟨fun child isFound => ?_, fun _ child member => ?_⟩
      · cases isFound
      · cases member
  | cons first rest ih =>
      obtain ⟨node, u, looked, ran⟩ := bind_ok.mp ran
      obtain ⟨held, rfl⟩ := ramfsAt_ok.mp looked
      by_cases named : node.vfs.name = name
      · rw [if_pos named] at ran
        obtain ⟨rfl, _⟩ := pure_ok.mp ran
        refine ⟨fun child isFound => ?_, fun none => ?_⟩
        · obtain rfl := Option.some.inj isFound
          exact ⟨List.mem_cons_self .., node, held, named⟩
        · cases none
      · rw [if_neg named] at ran
        obtain ⟨hit, miss⟩ := ih ran
        refine ⟨fun child isFound => ?_, fun none child member other isOther => ?_⟩
        · obtain ⟨member, here⟩ := hit child isFound
          exact ⟨List.mem_cons_of_mem _ member, here⟩
        · rcases List.mem_cons.mp member with rfl | later
          · cases held.symm.trans isOther
            exact named
          · exact miss none child later other isOther

theorem ramfsFinddir_reads (name : List UInt8) : Moves Eq (ramfsFinddir address name) := by
  refine nodeAt_reads.bind fun vfs => ?_
  cases vfs.impl with
  | none => exact .pure _
  | some impl =>
      exact .ite (.pure _) (ramfsAt_reads.bind fun node => findChild_reads _ _)

theorem vfsFinddir_reads (name : List UInt8) : Moves Eq (vfsFinddir address name) := by
  refine nodeAt_reads.bind fun vfs => .ite (.pure _) ?_
  cases vfs.table .finddir with
  | none => exact .pure _
  | some function =>
      cases function
      refine (ramfsFinddir_reads name).bind fun result => ?_
      cases result with
      | none => exact .pure _
      | some result => exact nodeAt_reads.bind fun found => .ite (.pure _) (.pure _)

end FileTree

end Memory

end ZurichOS
