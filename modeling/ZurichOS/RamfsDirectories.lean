import ZurichOS.FileTree

set_option linter.all false

/-!
The directories of ramfs under `ramfs_create` and `ramfs_unlink`: what the arrays of children
hold, and what a call leaves behind.
-/

namespace ZurichOS

open AddressForest Faulting Words ByteBuffer PartialTable

inductive DirectoryCall where
  | create (node : Nat) (name : List UInt8) (type : Nat)
  | unlink (node : Nat) (name : List UInt8)

def DirectoryCall.node : DirectoryCall → Nat
  | .create node _ _ | .unlink node _ => node

def DirectoryCall.run : DirectoryCall → TreeProgram Int
  | .create node name type => FileTree.ramfsCreate node name type
  | .unlink node name => FileTree.ramfsUnlink node name

/-- The array of a directory holds live nodes of different names that have it as their parent. -/
structure RamfsObject.Integral (s : FileTree) (address : Nat) (dir : RamfsObject) : Prop where
  room : dir.childList.length ≤ dir.childCapacity
  nodup : dir.childList.Nodup
  live : ∀ child ∈ dir.childList, ∃ node, s.objects child = some (.ramfs node) ∧
    node.vfs.parent = some address
  names : ∀ child ∈ dir.childList, ∀ other ∈ dir.childList, ∀ node otherNode,
    s.objects child = some (.ramfs node) → s.objects other = some (.ramfs otherNode) →
    node.vfs.name = otherNode.vfs.name → child = other

def FileTree.Integral (s : FileTree) : Prop :=
  ∀ address dir, s.objects address = some (.ramfs dir) → dir.Integral s address

/-- Only answers of `kmalloc` are used up. -/
def FileTree.Untouched (s t : FileTree) : Prop := t = { s with memory := t.memory }

/-- What is asked of a call: it does not fault, the directories stay in order, and it makes the
node that a search finds, or changes nothing. -/
def DirectoryCall.Meets (s : FileTree) (call : DirectoryCall) : Prop :=
  ∃ result t, call.run s = .ok (result, t) ∧ t.Integral ∧ (result ≠ 0 → s.Untouched t) ∧
    ∀ node name type, call = .create node name type → result = 0 →
      s.objects s.allocated = none ∧ FileTree.ramfsFinddir node name t = .ok (some s.allocated, t)

/-- A place in the array, or the memory for a larger one behind that for the node. -/
def FileTree.RoomFor (s : FileTree) (dir : RamfsObject) (type : Nat) : Prop :=
  dir.childList.length < dir.childCapacity ∨
    u32 (4 * u32 (dir.childCapacity * 2)) ≠ 0 ∧
      s.memory (if type = vfsDirectory then 2 else 1) = true

/-- A call for a node that is refused at once, or has the array, the place in it and a name that
is stored whole. -/
def DirectoryCall.Safe (s : FileTree) (dir : RamfsObject) : DirectoryCall → Prop
  | .create _ name type => dir.vfs.isDirectory = false ∨
      (∃ child ∈ dir.childList, ∃ node, s.objects child = some (.ramfs node) ∧
        node.vfs.name = cString name) ∨
      s.memory 0 = false ∨
      (cString name).length < vfsMaxName ∧ dir.children ≠ none ∧ s.RoomFor dir type
  | .unlink _ _ => True

/-- The trees that such calls on live nodes make of a new root. -/
inductive DirectoriesReached : FileTree → Prop where
  | root {s t : FileTree} {root : Nat} (empty : s.Empty)
      (ran : FileTree.ramfsInit s = .ok (some root, t)) : DirectoriesReached t
  | call {s t : FileTree} {result : Int} (reached : DirectoriesReached s) (call : DirectoryCall)
      {dir : RamfsObject} (live : s.objects call.node = some (.ramfs dir)) (safe : call.Safe s dir)
      (ran : call.run s = .ok (result, t)) : DirectoriesReached t

/-- The capacity of an array is a power of two, and its size in bytes a word. -/
def IsCapacity (capacity : Nat) : Prop := capacity = 0 ∨ ∃ k < 30, capacity = 2 ^ k

structure FileTree.Directories (s : FileTree) : Prop where
  sound : s.Sound
  ordinary : ∀ address object, s.objects address = some object →
    ∃ node, object = .ramfs node ∧ node.Ordinary address
  capacity : ∀ address dir, s.objects address = some (.ramfs dir) →
    dir.childList.length ≤ dir.childCapacity ∧ IsCapacity dir.childCapacity
  names : ∀ address dir, s.objects address = some (.ramfs dir) →
    ∀ child ∈ dir.childList, ∀ other ∈ dir.childList, ∀ node otherNode,
      s.objects child = some (.ramfs node) → s.objects other = some (.ramfs otherNode) →
      node.vfs.name = otherNode.vfs.name → child = other

variable {s t u : FileTree} {address parent child type capacity : Nat} {node dir : RamfsObject}
  {name : List UInt8} {children : List Nat} {result : Int}

namespace FileTree

theorem Untouched.allocated (untouched : s.Untouched t) : t.allocated = s.allocated := by
  have same : t = { s with memory := t.memory } := untouched
  rw [same]

theorem Directories.integral (directories : s.Directories) : s.Integral := by
  intro address dir held
  have entry := forest_some.mpr ⟨dir, held, rfl⟩
  refine ⟨(directories.capacity address dir held).1,
    directories.sound.forest.nodup address _ entry, fun child member => ?_,
    directories.names address dir held⟩
  obtain ⟨below, isBelow, isParent⟩ := directories.sound.forest.child address _ entry child member
  obtain ⟨node, isNode, rfl⟩ := forest_some.mp isBelow
  exact ⟨node, isNode, isParent⟩

section Runs

theorem nodeAt_run {object : FsObject} (held : s.objects address = some object) :
    nodeAt address s = .ok (object.vfs, s) := nodeAt_ok.mpr ⟨object, held, rfl, rfl⟩

theorem ramfsAt_run (held : s.objects address = some (.ramfs node)) :
    ramfsAt address s = .ok (node, s) := ramfsAt_ok.mpr ⟨held, rfl⟩

theorem findChild_run (name : List UInt8)
    (all : ∀ child ∈ children, ∃ node, s.objects child = some (.ramfs node)) :
    ∃ found, findChild name children s = .ok (found, s) := by
  induction children with
  | nil => exact ⟨none, rfl⟩
  | cons first rest ih =>
      obtain ⟨node, held⟩ := all first (List.mem_cons_self ..)
      rw [findChild, bind_run (ramfsAt_run held)]
      split
      · exact ⟨some first, rfl⟩
      · exact ih fun child member => all child (List.mem_cons_of_mem _ member)

theorem ramfsAllocNode_denied (denied : s.memory 0 = false) :
    ramfsAllocNode name type s = .ok (none, { s with memory := fun n => s.memory (n + 1) }) := by
  have asked : kmalloc ramfsNodeSize s =
      .ok (s.memory 0, { s with memory := fun n => s.memory (n + 1) }) := rfl
  rw [ramfsAllocNode, bind_run asked, denied]
  rfl

theorem ramfsAllocNode_given (name : List UInt8) (type : Nat) (given : s.memory 0 = true) :
    ∃ (array : Bool) (u : FileTree), ramfsAllocNode name type s = .ok (some s.allocated, u) ∧
      u.objects = Function.update s.objects s.allocated (some (.ramfs
        (newRamfsNode name type s.nextInode (if array then some [] else none) s.allocated))) ∧
      u.allocated = s.allocated + 1 ∧
      u.memory = fun n => s.memory (n + if type = vfsDirectory then 2 else 1) := by
  have asked : kmalloc ramfsNodeSize s =
      .ok (s.memory 0, { s with memory := fun n => s.memory (n + 1) }) := rfl
  rw [ramfsAllocNode, bind_run asked, given]
  by_cases directory : type = vfsDirectory
  · simp only [directory, allocChildren]
    exact ⟨s.memory 1, _, rfl, rfl, rfl, rfl⟩
  · simp only [directory, allocChildren, if_false]
    exact ⟨false, _, rfl, rfl, rfl, rfl⟩

theorem linkChild_run (apart : child ≠ parent) (isNode : s.objects child = some (.ramfs node)) :
    linkChild parent child dir children capacity s = .ok (0, { s with
      objects := Function.update (Function.update s.objects child
        (some (.ramfs { node with vfs := { node.vfs with parent := some parent } }))) parent
        (some (.ramfs { dir with
          children := some (children ++ [child]), childCapacity := capacity })) }) := by
  set placed : FileTree := { s with
    objects := Function.update s.objects parent (some (.ramfs { dir with
      children := some (children ++ [child]), childCapacity := capacity })) } with isPlaced
  have stored : store parent (some (.ramfs { dir with
      children := some (children ++ [child]), childCapacity := capacity })) s = .ok ((), placed) :=
    rfl
  have held : placed.objects child = some (.ramfs node) := by
    rw [isPlaced]
    exact (Function.update_of_ne apart _ _).trans isNode
  have linked : setNode child (fun node => { node with parent := some parent }) placed =
      .ok ((), { placed with
        objects := Function.update placed.objects child
          (some (.ramfs { node with vfs := { node.vfs with parent := some parent } })) }) :=
    setNode_ok.mpr ⟨_, held, rfl⟩
  rw [linkChild, bind_run stored, bind_run linked]
  change Except.ok _ = Except.ok _
  congr 2
  rw [isPlaced]
  congr 1
  exact Function.update_comm apart.symm _ _ _

/-- The array is doubled as long as its size in bytes is a word. -/
theorem capacity_grows (is : IsCapacity capacity) (some : u32 (4 * u32 (capacity * 2)) ≠ 0) :
    capacity + 1 ≤ u32 (capacity * 2) ∧ IsCapacity (u32 (capacity * 2)) := by
  rcases is with rfl | ⟨k, bound, rfl⟩
  · exact absurd rfl some
  · have positive : 0 < 2 ^ k := Nat.two_pow_pos k
    have least : k ≠ 29 := by
      rintro rfl
      exact some rfl
    have below : 2 ^ k ≤ 2 ^ 28 := Nat.pow_le_pow_right (by decide) (by omega)
    have double : u32 (2 ^ k * 2) = 2 ^ (k + 1) := by
      rw [u32_eq_of_lt (by omega), Nat.pow_succ]
    rw [double]
    refine ⟨?_, .inr ⟨k + 1, by omega, rfl⟩⟩
    rw [Nat.pow_succ]
    omega

section AddChild

variable (apart : child ≠ parent) (isDir : s.objects parent = some (.ramfs dir))
  (directory : dir.vfs.isDirectory = true)

include isDir directory

theorem ramfsAddChild_full (full : ¬ s.HasRoom dir) :
    ∃ memory, ramfsAddChild parent child s = .ok (-1, { s with memory }) := by
  have noPlace : dir.childCapacity ≤ dir.childList.length :=
    Nat.le_of_not_lt fun place => full (.inl place)
  rw [ramfsAddChild, bind_run (ramfsAt_run isDir), if_neg (by rw [directory]; decide),
    if_pos noPlace]
  by_cases nothing : u32 (4 * u32 (dir.childCapacity * 2)) = 0
  · have asked : kmalloc (u32 (4 * u32 (dir.childCapacity * 2))) s = .ok (false, s) := by
      rw [nothing]
      rfl
    rw [bind_run asked]
    exact ⟨s.memory, rfl⟩
  · have denied : s.memory 0 = false := by
      simpa [nothing] using fun given => full (.inr ⟨nothing, given⟩)
    have asked : kmalloc (u32 (4 * u32 (dir.childCapacity * 2))) s =
        .ok (false, { s with memory := fun n => s.memory (n + 1) }) := by
      rw [← denied, kmalloc]
      simp only [nothing, if_false]
      rfl
    rw [bind_run asked]
    exact ⟨_, rfl⟩

theorem ramfsAddChild_null (room : s.HasRoom dir) (null : dir.children = none) :
    ramfsAddChild parent child s = .error .nullChildren := by
  have empty : dir.childList = [] := by rw [RamfsObject.childList, null]; rfl
  have place : dir.childList.length < dir.childCapacity := by
    rcases room with place | ⟨some, -⟩
    · exact place
    · rw [empty]
      refine Nat.pos_of_ne_zero fun zero => some ?_
      rw [zero]
      rfl
  rw [ramfsAddChild, bind_run (ramfsAt_run isDir), if_neg (by rw [directory]; decide),
    if_neg (Nat.not_le.mpr place), null]
  rfl

include apart

theorem ramfsAddChild_room (room : s.HasRoom dir) (array : dir.children ≠ none)
    (is : IsCapacity dir.childCapacity) (inside : dir.childList.length ≤ dir.childCapacity)
    (isNode : s.objects child = some (.ramfs node)) :
    ∃ capacity memory, dir.childList.length + 1 ≤ capacity ∧ IsCapacity capacity ∧
      ramfsAddChild parent child s = .ok (0, { s with
        objects := Function.update (Function.update s.objects child
          (some (.ramfs { node with vfs := { node.vfs with parent := some parent } }))) parent
          (some (.ramfs { dir with
            children := some (dir.childList ++ [child]), childCapacity := capacity }))
        memory }) := by
  rw [ramfsAddChild, bind_run (ramfsAt_run isDir), if_neg (by rw [directory]; decide)]
  by_cases full : dir.childCapacity ≤ dir.childList.length
  · rcases room with place | ⟨some, given⟩
    · exact absurd place (Nat.not_lt.mpr full)
    · obtain ⟨more, isAfter⟩ := capacity_grows is some
      have asked : kmalloc (u32 (4 * u32 (dir.childCapacity * 2))) s =
          .ok (true, { s with memory := fun n => s.memory (n + 1) }) := by
        rw [← given, kmalloc]
        simp only [some, if_false]
        rfl
      rw [if_pos full]
      dsimp only
      rw [bind_run asked, if_pos rfl]
      exact ⟨_, _, by omega, isAfter, linkChild_run
        (s := { s with memory := fun n => s.memory (n + 1) }) apart isNode⟩
  · obtain ⟨children, isArray⟩ := Option.ne_none_iff_exists'.mp array
    have isList : dir.childList = children := by rw [RamfsObject.childList, isArray]; rfl
    have place := Nat.lt_of_not_le full
    rw [isList] at place
    rw [if_neg full, isArray, isList]
    exact ⟨_, s.memory, by omega, is, linkChild_run apart isNode⟩

end AddChild

end Runs

section Searches

theorem Directories.live (directories : s.Directories) (held : s.objects address = some (.ramfs dir)) :
    ∀ child ∈ dir.childList, ∃ node, s.objects child = some (.ramfs node) := by
  intro child member
  obtain ⟨node, isNode, -⟩ := (directories.integral address dir held).live child member
  exact ⟨node, isNode⟩

theorem Directories.impl (directories : s.Directories)
    (held : s.objects address = some (.ramfs dir)) : dir.vfs.impl = some address := by
  obtain ⟨node, isNode, ordinary⟩ := directories.ordinary address _ held
  cases isNode
  exact ordinary.2

theorem Directories.finddir (directories : s.Directories)
    (held : s.objects parent = some (.ramfs dir)) (directory : dir.vfs.isDirectory = true)
    (name : List UInt8) : ∃ found, ramfsFinddir parent name s = .ok (found, s) ∧
      (∀ child, found = some child → child ∈ dir.childList ∧
        ∃ node, s.objects child = some (.ramfs node) ∧ node.vfs.name = cString name) ∧
      (found = none → ∀ child ∈ dir.childList, ∀ node, s.objects child = some (.ramfs node) →
        node.vfs.name ≠ cString name) := by
  have isImpl : (FsObject.ramfs dir).vfs.impl = some parent := directories.impl held
  obtain ⟨found, searched⟩ :=
    findChild_run (cString name) (directories.live held)
  have ran : ramfsFinddir parent name s = .ok (found, s) := by
    rw [ramfsFinddir, bind_run (nodeAt_run held), isImpl]
    dsimp only
    rw [show (FsObject.ramfs dir).vfs = dir.vfs from rfl, if_neg (by rw [directory]; decide),
      bind_run (ramfsAt_run held)]
    exact searched
  obtain ⟨-, other, isOther, -, hit, miss⟩ :=
    ramfsFinddir_ok directories.sound held rfl directory (by
      rw [isImpl]
      exact Option.some_ne_none _) ran
  cases isOther
  exact ⟨found, ran, hit, miss⟩

theorem Directories.create_run (directories : s.Directories)
    (held : s.objects parent = some (.ramfs dir)) : ramfsCreate parent name type s =
    (if dir.vfs.isDirectory = false then pure (-1)
    else do
      match ← ramfsFinddir parent name with
      | some _ => pure (-1)
      | none =>
          match ← ramfsAllocNode name type with
          | none => pure (-1)
          | some child => ramfsAddChild parent child : TreeProgram Int) s := by
  have isImpl : (FsObject.ramfs dir).vfs.impl = some parent := directories.impl held
  rw [ramfsCreate, bind_run (nodeAt_run held), isImpl]
  rfl

/-- A call makes a node for an unused name in a directory, if there is the memory for it. -/
theorem Directories.create (directories : s.Directories)
    (held : s.objects parent = some (.ramfs dir)) (name : List UInt8) (type : Nat) :
    (dir.vfs.isDirectory = false ∧ ramfsCreate parent name type s = .ok (-1, s)) ∨
    dir.vfs.isDirectory = true ∧
      (((∃ child ∈ dir.childList, ∃ node, s.objects child = some (.ramfs node) ∧
          node.vfs.name = cString name) ∧ ramfsCreate parent name type s = .ok (-1, s)) ∨
      (∀ child ∈ dir.childList, ∀ node, s.objects child = some (.ramfs node) →
          node.vfs.name ≠ cString name) ∧
        ((s.memory 0 = false ∧ ramfsCreate parent name type s =
            .ok (-1, { s with memory := fun n => s.memory (n + 1) })) ∨
        s.memory 0 = true ∧ ∃ (array : Bool) (u : FileTree),
          u.objects = Function.update s.objects s.allocated (some (.ramfs
            (newRamfsNode name type s.nextInode (if array then some [] else none) s.allocated))) ∧
          u.allocated = s.allocated + 1 ∧
          u.memory = (fun n => s.memory (n + if type = vfsDirectory then 2 else 1)) ∧
          ramfsCreate parent name type s = ramfsAddChild parent s.allocated u)) := by
  rw [directories.create_run held]
  cases directory : dir.vfs.isDirectory with
  | false => exact .inl ⟨rfl, rfl⟩
  | true =>
      right
      obtain ⟨found, searched, hit, miss⟩ := directories.finddir held directory name
      rw [if_neg (by decide), bind_run searched]
      refine ⟨rfl, ?_⟩
      cases found with
      | some child =>
          obtain ⟨member, named⟩ := hit child rfl
          exact .inl ⟨⟨child, member, named⟩, rfl⟩
      | none =>
          refine .inr ⟨miss rfl, ?_⟩
          dsimp only
          cases answer : s.memory 0 with
          | false =>
              rw [bind_run (ramfsAllocNode_denied answer)]
              exact .inl ⟨rfl, rfl⟩
          | true =>
              obtain ⟨array, u, made, objects, allocated, memory⟩ :=
                ramfsAllocNode_given name type answer
              rw [bind_run made]
              exact .inr ⟨rfl, array, u, objects, allocated, memory, rfl⟩

end Searches

section Births

theorem Directories.born (directories : s.Directories)
    (held : s.objects parent = some (.ramfs dir))
    (unused : ∀ child ∈ dir.childList, ∀ other, s.objects child = some (.ramfs other) →
      other.vfs.name ≠ node.vfs.name)
    (ordinary : node.Ordinary s.allocated) (empty : node.childList = [])
    (isNew : IsCapacity node.childCapacity) (more : dir.childList.length + 1 ≤ capacity)
    (is : IsCapacity capacity) (sound : t.Sound)
    (objects : t.objects = Function.update (Function.update s.objects s.allocated
      (some (.ramfs node))) parent (some (.ramfs { dir with
        children := some (dir.childList ++ [s.allocated]), childCapacity := capacity }))) :
    t.Directories := by
  have fresh : s.objects s.allocated = none := directories.sound.fresh _ (Nat.le_refl _)
  have notNew : s.allocated ≠ parent := by
    rintro rfl
    rw [fresh] at held
    cases held
  have atNew : t.objects s.allocated = some (.ramfs node) := by
    rw [objects, Function.update_of_ne notNew, Function.update_self]
  -- Every other node has its old name.
  have old : ∀ place found, t.objects place = some (.ramfs found) → place ≠ s.allocated →
      ∃ before, s.objects place = some (.ramfs before) ∧ before.vfs = found.vfs := by
    intro place found isFound away
    rw [objects] at isFound
    rcases update_some.mp isFound with ⟨rfl, isDir⟩ | ⟨_, isFound⟩
    · cases isDir
      exact ⟨dir, held, rfl⟩
    · rcases update_some.mp isFound with ⟨rfl, _⟩ | ⟨_, isOld⟩
      · exact absurd rfl away
      · exact ⟨found, isOld, rfl⟩
  have place_cases : ∀ place object, t.objects place = some object →
      (place = parent ∧ object = .ramfs { dir with
        children := some (dir.childList ++ [s.allocated]), childCapacity := capacity }) ∨
      (place = s.allocated ∧ object = .ramfs node) ∨ s.objects place = some object := by
    intro place object isObject
    rw [objects] at isObject
    rcases update_some.mp isObject with ⟨rfl, isDir⟩ | ⟨_, isObject⟩
    · exact .inl ⟨rfl, (Option.some.inj isDir).symm⟩
    · rcases update_some.mp isObject with ⟨rfl, isNode⟩ | ⟨_, isOld⟩
      · exact .inr (.inl ⟨rfl, (Option.some.inj isNode).symm⟩)
      · exact .inr (.inr isOld)
  have notChild : ∀ place other, s.objects place = some (.ramfs other) →
      s.allocated ∉ other.childList := by
    intro place other isOther member
    obtain ⟨below, isBelow⟩ := directories.live isOther _ member
    rw [fresh] at isBelow
    cases isBelow
  refine ⟨sound, fun place object isObject => ?_, fun place other isOther => ?_,
    fun place other isOther => ?_⟩
  · rcases place_cases place object isObject with ⟨rfl, rfl⟩ | ⟨rfl, rfl⟩ | isOld
    · obtain ⟨_, same, isOrdinary⟩ := directories.ordinary _ _ held
      cases same
      exact ⟨_, rfl, isOrdinary⟩
    · exact ⟨node, rfl, ordinary⟩
    · exact directories.ordinary place object isOld
  · rcases place_cases place _ isOther with ⟨rfl, same⟩ | ⟨rfl, same⟩ | isOld
    · cases same
      refine ⟨?_, is⟩
      change (dir.childList ++ [s.allocated]).length ≤ capacity
      rw [List.length_append]
      exact more
    · cases same
      rw [empty]
      exact ⟨Nat.zero_le _, isNew⟩
    · exact directories.capacity place other isOld
  · rcases place_cases place _ isOther with ⟨rfl, same⟩ | ⟨rfl, same⟩ | isOld
    · cases same
      have names : ∀ child ∈ dir.childList, ∀ found, t.objects child = some (.ramfs found) →
          found.vfs.name ≠ node.vfs.name := by
        intro child member found isFound
        have away : child ≠ s.allocated := by
          rintro rfl
          exact notChild _ dir held member
        obtain ⟨before, isBefore, same⟩ := old child found isFound away
        rw [← same]
        exact unused child member before isBefore
      intro child member other otherMember found otherFound isFound isOtherFound same
      rcases List.mem_append.mp member with inOld | last <;>
        rcases List.mem_append.mp otherMember with otherOld | otherLast
      · have away : child ≠ s.allocated := by
          rintro rfl
          exact notChild _ dir held inOld
        have otherAway : other ≠ s.allocated := by
          rintro rfl
          exact notChild _ dir held otherOld
        obtain ⟨before, isBefore, sameVfs⟩ := old child found isFound away
        obtain ⟨otherBefore, isOtherBefore, sameOther⟩ := old other otherFound isOtherFound otherAway
        exact directories.names _ dir held child inOld other otherOld before otherBefore isBefore
          isOtherBefore (by rw [sameVfs, sameOther, same])
      · obtain rfl := List.mem_singleton.mp otherLast
        cases atNew.symm.trans isOtherFound
        exact absurd same (names child inOld found isFound)
      · obtain rfl := List.mem_singleton.mp last
        cases atNew.symm.trans isFound
        exact absurd same.symm (names other otherOld otherFound isOtherFound)
      · rw [List.mem_singleton.mp last, List.mem_singleton.mp otherLast]
    · cases same
      intro child member
      rw [empty] at member
      cases member
    · intro child member other' otherMember found otherFound isFound isOtherFound same
      have away : child ≠ s.allocated := by
        rintro rfl
        exact notChild _ other isOld member
      have otherAway : other' ≠ s.allocated := by
        rintro rfl
        exact notChild _ other isOld otherMember
      obtain ⟨before, isBefore, sameVfs⟩ := old child found isFound away
      obtain ⟨otherBefore, isOtherBefore, sameOther⟩ := old other' otherFound isOtherFound otherAway
      exact directories.names place other isOld child member other' otherMember before otherBefore
        isBefore isOtherBefore (by rw [sameVfs, sameOther, same])

theorem Directories.memory (directories : s.Directories) (memory : Nat → Bool) :
    ({ s with memory } : FileTree).Directories :=
  ⟨((⟨rfl, rfl, rfl⟩ : s.Same { s with memory }).kept directories.sound).1, directories.ordinary,
    directories.capacity, directories.names⟩

theorem newRamfsNode_childList (array : Bool) (inode address : Nat) :
    (newRamfsNode name type inode (if array then some [] else none) address).childList = [] := by
  cases array <;> rfl

theorem newRamfsNode_capacity (children : Option (List Nat)) (inode address : Nat) :
    IsCapacity (newRamfsNode name type inode children address).childCapacity := by
  change IsCapacity (if type = vfsDirectory then 8 else 0)
  split
  · exact .inr ⟨3, by decide, rfl⟩
  · exact .inl rfl

/-- The directory that a new node is linked into, after the memory for the node is given. -/
theorem Directories.link (directories : s.Directories)
    (held : s.objects parent = some (.ramfs dir)) (directory : dir.vfs.isDirectory = true)
    {array : Bool}
    (objects : u.objects = Function.update s.objects s.allocated (some (.ramfs
      (newRamfsNode name type s.nextInode (if array then some [] else none) s.allocated))))
    (memory : u.memory = fun n => s.memory (n + if type = vfsDirectory then 2 else 1)) :
    (¬ s.RoomFor dir type → ∃ memory,
      ramfsAddChild parent s.allocated u = .ok (-1, { u with memory })) ∧
    (s.RoomFor dir type → dir.children = none →
      ramfsAddChild parent s.allocated u = .error .nullChildren) ∧
    (s.RoomFor dir type → dir.children ≠ none → ∃ capacity t node,
      dir.childList.length + 1 ≤ capacity ∧ IsCapacity capacity ∧
      ramfsAddChild parent s.allocated u = .ok (0, t) ∧ node.Ordinary s.allocated ∧
      node.childList = [] ∧ IsCapacity node.childCapacity ∧
      node.vfs.name = (cString name).take (vfsMaxName - 1) ∧
      t.objects = Function.update (Function.update s.objects s.allocated
        (some (.ramfs node))) parent (some (.ramfs { dir with
          children := some (dir.childList ++ [s.allocated]), childCapacity := capacity }))) := by
  have apart := directories.sound.allocated_ne held
  have isDir : u.objects parent = some (.ramfs dir) := by
    rw [objects, Function.update_of_ne apart.symm, held]
  have isNode : u.objects s.allocated = some (.ramfs
      (newRamfsNode name type s.nextInode (if array then some [] else none) s.allocated)) := by
    rw [objects, Function.update_self]
  have room : u.HasRoom dir ↔ s.RoomFor dir type := hasRoom_iff memory
  refine ⟨fun full => ?_, fun place null => ?_, fun place isArray => ?_⟩
  · exact ramfsAddChild_full isDir directory (room.not.mpr full)
  · exact ramfsAddChild_null isDir directory (room.mpr place) null
  · obtain ⟨inside, is⟩ := directories.capacity parent dir held
    obtain ⟨capacity, after, more, isAfter, ran⟩ :=
      ramfsAddChild_room apart isDir directory (room.mpr place) isArray is inside isNode
    set made := newRamfsNode name type s.nextInode (if array then some [] else none) s.allocated
      with isMade
    have empty : made.childList = [] := newRamfsNode_childList array _ _
    have isNew : IsCapacity made.childCapacity := newRamfsNode_capacity _ _ _
    refine ⟨capacity, _, { made with vfs := { made.vfs with parent := some parent } }, more, isAfter,
      ran, ⟨rfl, rfl⟩, empty, isNew, rfl, ?_⟩
    dsimp only
    rw [objects, Function.update_idem]

theorem Directories.create_safe (directories : s.Directories)
    (held : s.objects parent = some (.ramfs dir))
    (safe : (DirectoryCall.create parent name type).Safe s dir) :
    ∃ result t, ramfsCreate parent name type s = .ok (result, t) ∧ t.Directories ∧
      (result ≠ 0 → s.Untouched t) ∧ (result = 0 → s.objects s.allocated = none ∧
        ramfsFinddir parent name t = .ok (some s.allocated, t)) := by
  rcases directories.create held name type with ⟨-, ran⟩ | ⟨directory, ⟨-, ran⟩ |
    ⟨unused, ⟨-, ran⟩ | ⟨given, array, u, objects, allocated, memory, ran⟩⟩⟩
  · exact ⟨-1, s, ran, directories, fun _ => rfl, fun zero => by cases zero⟩
  · exact ⟨-1, s, ran, directories, fun _ => rfl, fun zero => by cases zero⟩
  · exact ⟨-1, _, ran, directories.memory _, fun _ => rfl, fun zero => by cases zero⟩
  · obtain ⟨short, isArray, room⟩ : (cString name).length < vfsMaxName ∧ dir.children ≠ none ∧
        s.RoomFor dir type := by
      rcases safe with file | ⟨child, member, node, isNode, named⟩ | denied | stored
      · cases directory.symm.trans file
      · exact absurd named (unused child member node isNode)
      · cases given.symm.trans denied
      · exact stored
    obtain ⟨capacity, t, node, more, is, linked, ordinary, empty, isNew, cut, after⟩ :=
      (directories.link held directory objects memory).2.2 room isArray
    have ran := ran.trans linked
    have named : node.vfs.name = cString name := (named_iff cut).mpr short
    have born := directories.born held (fun child member other isOther => named ▸
      unused child member other isOther) ordinary empty isNew more is
      (ramfsCreate_kept type s 0 t ran directories.sound).1 after
    refine ⟨0, t, ran, born, fun failed => absurd rfl failed,
      fun _ => ⟨directories.sound.fresh _ (Nat.le_refl _), ?_⟩⟩
    have atParent : t.objects parent = some (.ramfs { dir with
        children := some (dir.childList ++ [s.allocated]), childCapacity := capacity }) := by
      rw [after, Function.update_self]
    have apart := directories.sound.allocated_ne held
    have atNew : t.objects s.allocated = some (.ramfs node) := by
      rw [after, Function.update_of_ne apart, Function.update_self]
    have last : s.allocated ∈ dir.childList ++ [s.allocated] :=
      List.mem_append_right _ (List.mem_singleton_self _)
    obtain ⟨found, searched, hit, miss⟩ := born.finddir atParent directory name
    cases found with
    | none => exact absurd named (miss rfl _ last node atNew)
    | some child =>
        obtain ⟨member, other, isOther, sameName⟩ := hit child rfl
        obtain rfl := born.names parent _ atParent child member _ last other node isOther atNew
          (sameName.trans named.symm)
        exact searched

/-- A call that is not safe leaks the node, faults, or makes one that a search does not find. -/
theorem Directories.create_unsafe (directories : s.Directories)
    (held : s.objects parent = some (.ramfs dir))
    (meets : (DirectoryCall.create parent name type).Meets s) :
    (DirectoryCall.create parent name type).Safe s dir := by
  obtain ⟨result, t, ran, -, untouched, finds⟩ := meets
  have ran : ramfsCreate parent name type s = .ok (result, t) := ran
  rcases directories.create held name type with ⟨file, -⟩ | ⟨directory, ⟨named, -⟩ |
    ⟨unused, ⟨denied, -⟩ | ⟨given, array, u, objects, allocated, memory, start⟩⟩⟩
  · exact .inl file
  · exact .inr (.inl named)
  · exact .inr (.inr (.inl denied))
  · obtain ⟨full, null, linked⟩ := directories.link held directory objects memory
    by_cases room : s.RoomFor dir type
    · by_cases isArray : dir.children = none
      · cases ran.symm.trans (start.trans (null room isArray))
      · obtain ⟨capacity, after, node, -, -, stored, -, -, -, cut, isAfter⟩ := linked room isArray
        cases ran.symm.trans (start.trans stored)
        refine .inr (.inr (.inr ⟨?_, isArray, room⟩))
        have kept := (ramfsCreate_kept type s 0 t ran directories.sound).1
        have apart := directories.sound.allocated_ne held
        have atParent : t.objects parent = some (.ramfs { dir with
            children := some (dir.childList ++ [s.allocated]), childCapacity := capacity }) := by
          rw [isAfter, Function.update_self]
        have atNew : t.objects s.allocated = some (.ramfs node) := by
          rw [isAfter, Function.update_of_ne apart, Function.update_self]
        have present : dir.vfs.impl ≠ none := by
          rw [directories.impl held]
          exact Option.some_ne_none _
        obtain ⟨-, _, -, -, hit, -⟩ := ramfsFinddir_ok kept atParent rfl directory present
          (finds parent name type rfl rfl).2
        obtain ⟨-, found, isFound, named⟩ := hit _ rfl
        cases atNew.symm.trans isFound
        exact (named_iff cut).mp named
    · obtain ⟨later, failed⟩ := full room
      cases ran.symm.trans (start.trans failed)
      have same : u.allocated = s.allocated := (untouched (by decide)).allocated
      rw [allocated] at same
      omega

end Births

section Removals

theorem Directories.prune (directories : s.Directories)
    (held : s.objects parent = some (.ramfs dir)) (sound : t.Sound)
    (objects : t.objects = Function.update (Function.update s.objects parent (some (.ramfs { dir with
      children := dir.children.map fun children => children.erase child }))) child none) :
    t.Directories := by
  have erased : ({ dir with
      children := dir.children.map fun children => children.erase child } : RamfsObject).childList =
        dir.childList.erase child := by
    change (dir.children.map _).getD [] = (dir.children.getD []).erase child
    cases dir.children <;> rfl
  have place_cases : ∀ place object, t.objects place = some object →
      (place = parent ∧ object = .ramfs { dir with
        children := dir.children.map fun children => children.erase child }) ∨
      s.objects place = some object := by
    intro place object isObject
    rw [objects] at isObject
    obtain ⟨-, isObject⟩ := update_none_some.mp isObject
    rcases update_some.mp isObject with ⟨rfl, isDir⟩ | ⟨_, isOld⟩
    · exact .inl ⟨rfl, (Option.some.inj isDir).symm⟩
    · exact .inr isOld
  have old : ∀ place found, t.objects place = some (.ramfs found) →
      ∃ before, s.objects place = some (.ramfs before) ∧ before.vfs = found.vfs ∧
        (∀ inside ∈ found.childList, inside ∈ before.childList) ∧
        found.childList.length ≤ before.childList.length ∧
        found.childCapacity = before.childCapacity := by
    intro place found isFound
    rcases place_cases place _ isFound with ⟨rfl, same⟩ | isOld
    · cases same
      refine ⟨dir, held, rfl, fun inside member => ?_, ?_, rfl⟩
      · rw [erased] at member
        exact List.mem_of_mem_erase member
      · rw [erased]
        exact List.length_erase_le
    · exact ⟨found, isOld, rfl, fun _ member => member, Nat.le_refl _, rfl⟩
  refine ⟨sound, fun place object isObject => ?_, fun place other isOther => ?_,
    fun place other isOther first member second secondMember found secondFound isFound isSecond
      same => ?_⟩
  · rcases place_cases place object isObject with ⟨rfl, rfl⟩ | isOld
    · obtain ⟨_, isDir, ordinary⟩ := directories.ordinary _ _ held
      cases isDir
      exact ⟨_, rfl, ordinary⟩
    · exact directories.ordinary place object isOld
  · obtain ⟨before, isBefore, -, -, shorter, sameCapacity⟩ := old place other isOther
    obtain ⟨room, is⟩ := directories.capacity place before isBefore
    rw [sameCapacity]
    exact ⟨shorter.trans room, is⟩
  · obtain ⟨before, isBefore, -, within, -⟩ := old place other isOther
    obtain ⟨beforeFirst, isFirst, firstVfs, -⟩ := old first found isFound
    obtain ⟨beforeSecond, isSecondBefore, secondVfs, -⟩ := old second secondFound isSecond
    exact directories.names place before isBefore first (within first member) second
      (within second secondMember) beforeFirst beforeSecond isFirst isSecondBefore
      (by rw [firstVfs, secondVfs, same])

theorem Directories.unlink_run (directories : s.Directories)
    (held : s.objects parent = some (.ramfs dir)) (name : List UInt8) : ramfsUnlink parent name s =
    (if dir.vfs.isDirectory = false then pure (-1)
    else do
      let dir ← ramfsAt parent
      match ← findChild (cString name) dir.childList with
      | none => pure (-1)
      | some child =>
          let entry ← ramfsAt child
          if entry.vfs.isDirectory ∧ 0 < entry.childList.length then pure (-1)
          else
            let children := dir.children.map fun children => children.erase child
            store parent (some (.ramfs { dir with children }))
            store child none
            pure 0 : TreeProgram Int) s := by
  have isImpl : (FsObject.ramfs dir).vfs.impl = some parent := directories.impl held
  rw [ramfsUnlink, bind_run (nodeAt_run held), isImpl]
  rfl

theorem Directories.unlink (directories : s.Directories)
    (held : s.objects parent = some (.ramfs dir)) (name : List UInt8) :
    ∃ result t, ramfsUnlink parent name s = .ok (result, t) ∧ t.Directories ∧
      (result ≠ 0 → s.Untouched t) := by
  obtain ⟨found, searched⟩ := findChild_run (cString name) (directories.live held)
  have start := directories.unlink_run held name
  cases directory : dir.vfs.isDirectory with
  | false =>
      rw [start, directory]
      exact ⟨-1, s, rfl, directories, fun _ => rfl⟩
  | true =>
      rw [directory, if_neg (by decide), bind_run (ramfsAt_run held), bind_run searched] at start
      cases found with
      | none => exact ⟨-1, s, start, directories, fun _ => rfl⟩
      | some child =>
          obtain ⟨member, -⟩ := (findChild_ok searched).1 child rfl
          obtain ⟨entry, isEntry⟩ := directories.live held child member
          dsimp only at start
          rw [bind_run (ramfsAt_run isEntry)] at start
          by_cases full : entry.vfs.isDirectory ∧ 0 < entry.childList.length
          · rw [if_pos full] at start
            exact ⟨-1, s, start, directories, fun _ => rfl⟩
          · rw [if_neg full] at start
            have sound := (ramfsUnlink_kept s 0 _ start directories.sound).1
            exact ⟨0, _, start, directories.prune held sound rfl, fun failed => absurd rfl failed⟩

end Removals

theorem ramfsInit_directories {root : Nat} (empty : s.Empty)
    (ran : ramfsInit s = .ok (some root, t)) : t.Directories := by
  have sound : t.Sound := by
    rcases ramfsAllocNode_ok ran with ⟨none, -, -⟩ | ⟨node, -, -, new, grown, sameRoot, -⟩
    · cases none
    · exact (grown.kept_ramfs new.alone sameRoot empty.ordinary.sound).1
  cases answer : s.memory 0 with
  | false => cases ran.symm.trans (ramfsAllocNode_denied answer)
  | true =>
      obtain ⟨array, u, made, objects, -, -⟩ :=
        ramfsAllocNode_given [0x2F] vfsDirectory answer
      cases ran.symm.trans made
      set new := newRamfsNode [0x2F] vfsDirectory s.nextInode (if array then some [] else none)
        s.allocated with isNew
      have only : ∀ address object, t.objects address = some object →
          address = s.allocated ∧ object = .ramfs new := by
        intro address object held
        rw [objects] at held
        rcases update_some.mp held with ⟨rfl, same⟩ | ⟨_, old⟩
        · exact ⟨rfl, (Option.some.inj same).symm⟩
        · cases (empty.1 address).symm.trans old
      have childless : new.childList = [] := newRamfsNode_childList array _ _
      refine ⟨sound, fun address object held => ?_, fun address dir held => ?_,
        fun address dir held child member => ?_⟩
      · obtain ⟨rfl, rfl⟩ := only address object held
        exact ⟨new, rfl, rfl, rfl⟩
      · obtain ⟨rfl, same⟩ := only address _ held
        cases same
        rw [childless]
        exact ⟨Nat.zero_le _, newRamfsNode_capacity _ _ _⟩
      · obtain ⟨rfl, same⟩ := only address _ held
        cases same
        rw [childless] at member
        cases member

theorem Directories.call_safe (directories : s.Directories) {call : DirectoryCall}
    (live : s.objects call.node = some (.ramfs dir)) (safe : call.Safe s dir) :
    ∃ result t, call.run s = .ok (result, t) ∧ t.Directories ∧ (result ≠ 0 → s.Untouched t) ∧
      ∀ node name type, call = .create node name type → result = 0 →
        s.objects s.allocated = none ∧ ramfsFinddir node name t = .ok (some s.allocated, t) := by
  cases call with
  | create node name type =>
      obtain ⟨result, t, ran, after, untouched, finds⟩ := directories.create_safe live safe
      refine ⟨result, t, ran, after, untouched, fun _ _ _ same zero => ?_⟩
      cases same
      exact finds zero
  | unlink node name =>
      obtain ⟨result, t, ran, after, untouched⟩ := directories.unlink live name
      refine ⟨result, t, ran, after, untouched, fun _ _ _ same => ?_⟩
      cases same

theorem reached_directories (reached : DirectoriesReached s) : s.Directories := by
  induction reached with
  | root empty ran => exact ramfsInit_directories empty ran
  | call _ call live safe ran directories =>
      obtain ⟨result, t, known, after, -⟩ := directories.call_safe live safe
      cases ran.symm.trans known
      exact after

end FileTree

/-- A tree without nodes; the first calls of `kmalloc` get these answers, and later ones memory. -/
def emptyTree (answers : List Bool) : FileTree :=
  { objects := fun _ => none, allocated := 1, nextInode := 1, deviceCount := 0, root := none
    memory := fun n => answers.getD n true }

/-- The name of 64 letters `a`. -/
def sixtyFour : List UInt8 := List.replicate 64 0x61

end ZurichOS
