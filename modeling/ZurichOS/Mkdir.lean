import ZurichOS.MkdirPaths
import ZurichOS.MountRuns
import ZurichOS.RamfsDirectories

set_option linter.all false

/-!
`vfs_mkdir` on a tree of ramfs: what a lookup of the path finds before and after it.
-/

namespace ZurichOS

open AddressForest Faulting Words ByteBuffer PathWalk

namespace FileTree

def vfsMkdir (path : List UInt8) : TreeProgram Int := do
  match ← vfsGetRoot with
  | none => pure (-1)
  | some root =>
      let (dir, name) := mkdirSplit path
      match ← (match dir with
        | none => pure (some root)
        | some dir => vfsLookup dir) with
      | none => pure (-1)
      | some parent =>
          let vfs ← nodeAt parent
          if vfs.isDirectory = false then pure (-1) else vfsCreate parent name vfsDirectory

/-- All nodes are of ramfs, and nothing is mounted on them. -/
structure RamfsTree (s : FileTree) : Prop where
  sound : s.Sound
  ordinary : ∀ address object, s.objects address = some object →
    ∃ node, object = .ramfs node ∧ node.Ordinary address
  unmounted : ∀ address object, s.objects address = some object →
    object.vfs.flags &&& vfsMountpoint = 0

def Named (s : FileTree) (address : Nat) (name : List UInt8) : Bool :=
  match s.objects address with
  | some (.ramfs node) => node.vfs.name = name
  | _ => false

/-- The tree of names that the objects are. -/
def names (s : FileTree) : Tree Nat (List UInt8) where
  parent address := (s.objects address).bind fun object => object.vfs.parent
  child address name :=
    match s.objects address with
    | some (.ramfs dir) =>
        if dir.vfs.isDirectory then dir.childList.find? fun child => s.Named child name else none
    | _ => none

/-- Where a path leads. -/
def resolve (s : FileTree) (path : List UInt8) : Option Nat :=
  s.root.bind fun root => s.names.walk root (vfsSteps path)

/-- The nodes that a lookup comes to. -/
def way (s : FileTree) (path : List UInt8) : List Nat :=
  match s.root with
  | none => []
  | some root => s.names.way root (vfsSteps path)

/-- The path had nothing and has a new empty directory; what other paths had they have still,
and what they have now they had, but for those that come to the directory. -/
def MkdirMeets (s t : FileTree) (path : List UInt8) : Prop :=
  ∃ made node, s.objects made = none ∧ t.objects made = some (.ramfs node) ∧
    node.vfs.isDirectory = true ∧ node.childList = [] ∧
    vfsLookup path s = .ok (none, s) ∧ vfsLookup path t = .ok (some made, t) ∧
    ∀ query found, (vfsLookup query s = .ok (some found, s) →
        vfsLookup query t = .ok (some found, t)) ∧
      (made ∉ t.way query → vfsLookup query t = .ok (some found, t) →
        vfsLookup query s = .ok (some found, s))

variable {s t : FileTree} {address current parent root : Nat} {node dir child : RamfsObject}
  {name path : List UInt8} {children : List Nat}

section Lookups

theorem named_iff_some : s.Named address name = true ↔
    ∃ node, s.objects address = some (.ramfs node) ∧ node.vfs.name = name := by
  rw [Named]
  cases s.objects address with
  | none => simp
  | some object =>
      cases object with
      | ramfs node => simp
      | procfs node => simp

theorem findChild_find (live : ∀ child ∈ children, ∃ node, s.objects child = some (.ramfs node)) :
    findChild name children s = .ok (children.find? fun child => s.Named child name, s) := by
  induction children with
  | nil => rfl
  | cons first rest ih =>
      obtain ⟨node, held⟩ := live first (List.mem_cons_self ..)
      have isNamed : s.Named first name = decide (node.vfs.name = name) := by
        rw [Named, held]
      rw [findChild, bind_run (ramfsAt_run held), List.find?_cons, isNamed]
      by_cases same : node.vfs.name = name
      · rw [if_pos same, decide_eq_true same]
        rfl
      · rw [if_neg same, decide_eq_false same]
        exact ih fun child member => live child (List.mem_cons_of_mem _ member)

theorem RamfsTree.live (tree : s.RamfsTree) (held : s.objects address = some (.ramfs dir)) :
    ∀ child ∈ dir.childList, ∃ node, s.objects child = some (.ramfs node) := by
  intro child member
  obtain ⟨below, isBelow, -⟩ :=
    tree.sound.forest.child address _ (forest_some.mpr ⟨dir, held, rfl⟩) child member
  obtain ⟨node, isNode, -⟩ := forest_some.mp isBelow
  exact ⟨node, isNode⟩

theorem RamfsTree.own (tree : s.RamfsTree) (held : s.objects address = some (.ramfs node)) :
    node.Ordinary address := by
  obtain ⟨_, same, ordinary⟩ := tree.ordinary address _ held
  cases same
  exact ordinary

theorem names_child (held : s.objects address = some (.ramfs dir)) :
    s.names.child address name =
      if dir.vfs.isDirectory then dir.childList.find? fun child => s.Named child name
      else none := by
  simp only [names, held]

theorem names_parent (held : s.objects address = some (.ramfs dir)) :
    s.names.parent address = dir.vfs.parent := by
  change (s.objects address).bind (fun object => object.vfs.parent) = _
  rw [held]
  rfl

theorem RamfsTree.child_live (tree : s.RamfsTree) {found : Nat}
    (isChild : s.names.child address name = some found) :
    ∃ node dir, s.objects found = some (.ramfs node) ∧ s.objects address = some (.ramfs dir) ∧
      found ∈ dir.childList ∧ dir.vfs.isDirectory = true := by
  cases held : s.objects address with
  | none =>
      simp only [names, held] at isChild
      cases isChild
  | some object =>
      obtain ⟨dir, rfl, -⟩ := tree.ordinary address object held
      rw [names_child held] at isChild
      cases directory : dir.vfs.isDirectory with
      | false =>
          rw [directory] at isChild
          cases isChild
      | true =>
          rw [directory, if_pos rfl] at isChild
          have member := List.mem_of_find?_eq_some isChild
          obtain ⟨node, isNode⟩ := tree.live held found member
          exact ⟨node, dir, isNode, rfl, member, directory⟩

theorem RamfsTree.step_live (tree : s.RamfsTree)
    (held : s.objects address = some (.ramfs dir)) {step : Step (List UInt8)} {next : Nat}
    (stepped : s.names.step address step = some next) :
    ∃ node, s.objects next = some (.ramfs node) := by
  cases step with
  | up =>
      have isNext : (s.names.parent address).getD address = next := Option.some.inj stepped
      rw [names_parent held] at isNext
      cases above : dir.vfs.parent with
      | none =>
          rw [above] at isNext
          exact ⟨dir, isNext ▸ held⟩
      | some up =>
          rw [above] at isNext
          obtain rfl : up = next := isNext
          obtain ⟨entry, isEntry, -⟩ := tree.sound.forest.parent address _ up
            (forest_some.mpr ⟨dir, held, rfl⟩) above
          obtain ⟨node, isNode, -⟩ := forest_some.mp isEntry
          exact ⟨node, isNode⟩
  | child name =>
      obtain ⟨node, -, isNode, -⟩ := tree.child_live stepped
      exact ⟨node, isNode⟩

theorem RamfsTree.finddir (tree : s.RamfsTree) (held : s.objects address = some (.ramfs dir))
    (string : 0 ∉ name) : vfsFinddir address name s = .ok (s.names.child address name, s) := by
  obtain ⟨table, impl⟩ := tree.own held
  rw [vfsFinddir, bind_run (nodeAt_run held), names_child held]
  change (if dir.vfs.isDirectory = false then _ else _ : TreeProgram (Option Nat)) s = _
  cases directory : dir.vfs.isDirectory with
  | false => rfl
  | true =>
      have isTable : (FsObject.ramfs dir).vfs.table .finddir = some .ramfsFinddir := by
        change dir.vfs.table .finddir = _
        rw [table]
        rfl
      rw [if_neg (by decide), if_pos rfl, isTable]
      have searched : ramfsFinddir address name s =
          .ok (dir.childList.find? fun child => s.Named child name, s) := by
        have isImpl : (FsObject.ramfs dir).vfs.impl = some address := impl
        rw [ramfsFinddir, bind_run (nodeAt_run held), isImpl]
        dsimp only
        rw [show (FsObject.ramfs dir).vfs = dir.vfs from rfl, if_neg (by rw [directory]; decide),
          bind_run (ramfsAt_run held), cString_string string]
        exact findChild_find (tree.live held)
      change (ramfsFinddir address name >>= _) s = _
      rw [bind_run searched]
      cases found : dir.childList.find? fun child => s.Named child name with
      | none => rfl
      | some next =>
          obtain ⟨node, isNode⟩ := tree.live held next (List.mem_of_find?_eq_some found)
          dsimp only
          rw [bind_run (nodeAt_run isNode), if_neg (fun marked => marked (tree.unmounted _ _ isNode))]
          rfl

/-- The loop of a lookup walks; a round takes at least one character. -/
theorem RamfsTree.lookupFrom (tree : s.RamfsTree) {rounds : Nat}
    (held : s.objects current = some (.ramfs dir)) (enough : path.length ≤ rounds)
    (string : 0 ∉ path) :
    FileTree.lookupFrom rounds current path s = .ok (s.names.walk current (pathSteps path), s) := by
  induction rounds generalizing current dir path with
  | zero =>
      obtain rfl : path = [] := List.length_eq_zero_iff.mp (Nat.le_zero.mp enough)
      rw [pathSteps, dif_pos rfl]
      rfl
  | succ rounds ih =>
      rw [FileTree.lookupFrom]
      by_cases empty : path = []
      · rw [if_pos empty, pathSteps, dif_pos empty]
        rfl
      have shorter := nextComponent_shorter empty
      have restString : 0 ∉ (nextComponent path).2 := fun zero =>
        string (List.mem_of_mem_drop ((List.dropWhile_suffix _).subset zero))
      have nameString : 0 ∉ (nextComponent path).1 := fun zero =>
        string ((List.takeWhile_prefix _).subset (List.mem_of_mem_take zero))
      have restEnough : (nextComponent path).2.length ≤ rounds := by omega
      rw [if_neg empty, pathSteps_cons empty]
      dsimp only
      by_cases isDot : (nextComponent path).1 = dot
      · rw [if_pos isDot, if_pos isDot]
        exact ih held restEnough restString
      rw [if_neg isDot, if_neg isDot, Tree.walk]
      by_cases isUp : (nextComponent path).1 = dotDot
      · rw [if_pos isUp, if_pos isUp, bind_run (nodeAt_run held)]
        have stepped : s.names.step current .up = some (dir.vfs.parent.getD current) := by
          rw [Tree.step, names_parent held]
        obtain ⟨node, isNode⟩ := tree.step_live held stepped
        rw [stepped]
        exact ih isNode restEnough restString
      · rw [if_neg isUp, if_neg isUp, bind_run (tree.finddir held nameString), Tree.step]
        cases found : s.names.child current (nextComponent path).1 with
        | none => rfl
        | some next =>
            obtain ⟨node, -, isNode, -⟩ := tree.child_live found
            dsimp only
            rw [bind_run (nodeAt_run isNode),
              if_neg (fun marked => marked (tree.unmounted _ _ isNode))]
            exact ih isNode restEnough restString

theorem RamfsTree.root_live (tree : s.RamfsTree) (isRoot : s.root = some root) :
    ∃ node, s.objects root = some (.ramfs node) ∧ node.vfs.parent = none := by
  obtain ⟨entry, isEntry, top⟩ := tree.sound.forest.root root isRoot
  obtain ⟨node, isNode, rfl⟩ := forest_some.mp isEntry
  exact ⟨node, isNode, top⟩

theorem RamfsTree.root_old (tree : s.RamfsTree) (isRoot : s.root = some root) :
    root ≠ s.allocated := by
  rintro rfl
  obtain ⟨node, held, -⟩ := tree.root_live isRoot
  cases (tree.sound.fresh _ (Nat.le_refl _)).symm.trans held

theorem RamfsTree.lookup (tree : s.RamfsTree) (path : List UInt8) :
    vfsLookup path s = .ok (s.resolve path, s) := by
  have looked : vfsGetRoot s = .ok (s.root, s) := rfl
  rw [vfsLookup, bind_run looked, resolve]
  cases isRoot : s.root with
  | none => rfl
  | some root =>
      obtain ⟨node, held, -⟩ := tree.root_live isRoot
      have string : 0 ∉ cString path := cString_zero path
      rw [Option.bind_some, vfsSteps]
      dsimp only
      by_cases top : cString path = [slash]
      · rw [if_pos top, top]
        rw [show (if [slash].head? = some slash then [slash].tail else [slash]) = [] from rfl,
          pathSteps, dif_pos rfl]
        rfl
      · rw [if_neg top]
        refine tree.lookupFrom held (Nat.le_refl _) fun zero => string ?_
        split at zero
        · exact List.mem_of_mem_tail zero
        · exact zero

end Lookups

section Creations

theorem Creates.tree (creates : s.Creates t parent name vfsDirectory dir child)
    (tree : s.RamfsTree) : t.RamfsTree := by
  obtain ⟨capacity, objects⟩ := creates.born.objects
  have cases : ∀ address object, t.objects address = some object →
      (address = parent ∧ object = .ramfs { dir with
        children := some (dir.childList ++ [s.allocated]), childCapacity := capacity }) ∨
      (address = s.allocated ∧ object = .ramfs child) ∨ s.objects address = some object := by
    intro address object held
    rw [objects] at held
    rcases PartialTable.update_some.mp held with ⟨rfl, isDir⟩ | ⟨_, held⟩
    · exact .inl ⟨rfl, (Option.some.inj isDir).symm⟩
    · rcases PartialTable.update_some.mp held with ⟨rfl, isNode⟩ | ⟨_, isOld⟩
      · exact .inr (.inl ⟨rfl, (Option.some.inj isNode).symm⟩)
      · exact .inr (.inr isOld)
  refine ⟨(creates.born.kept tree.sound).1, fun address object held => ?_,
    fun address object held => ?_⟩
  · rcases cases address object held with ⟨rfl, rfl⟩ | ⟨rfl, rfl⟩ | isOld
    · have own := tree.own creates.born.held
      exact ⟨_, rfl, own.1, own.2⟩
    · exact ⟨child, rfl, creates.born.ordinary⟩
    · exact tree.ordinary address object isOld
  · rcases cases address object held with ⟨rfl, rfl⟩ | ⟨rfl, rfl⟩ | isOld
    · exact (tree.unmounted _ _ creates.born.held : dir.vfs.flags &&& vfsMountpoint = 0)
    · change child.vfs.flags &&& vfsMountpoint = 0
      rw [creates.flags]
      decide
    · exact tree.unmounted address object isOld

theorem Creates.apart (creates : s.Creates t parent name vfsDirectory dir child)
    (tree : s.RamfsTree) : parent ≠ s.allocated := by
  rintro rfl
  cases (tree.sound.fresh _ (Nat.le_refl _)).symm.trans creates.born.held

theorem Creates.old (creates : s.Creates t parent name vfsDirectory dir child)
    (notParent : address ≠ parent) (notNew : address ≠ s.allocated) :
    t.objects address = s.objects address := by
  obtain ⟨capacity, objects⟩ := creates.born.objects
  rw [objects, Function.update_of_ne notParent, Function.update_of_ne notNew]

theorem Creates.atNew (creates : s.Creates t parent name vfsDirectory dir child)
    (tree : s.RamfsTree) : t.objects s.allocated = some (.ramfs child) := by
  obtain ⟨capacity, objects⟩ := creates.born.objects
  rw [objects, Function.update_of_ne (creates.apart tree).symm, Function.update_self]

theorem Creates.atParent (creates : s.Creates t parent name vfsDirectory dir child) :
    ∃ capacity, t.objects parent = some (.ramfs { dir with
      children := some (dir.childList ++ [s.allocated]), childCapacity := capacity }) := by
  obtain ⟨capacity, objects⟩ := creates.born.objects
  exact ⟨capacity, by rw [objects, Function.update_self]⟩

theorem Creates.named (creates : s.Creates t parent name vfsDirectory dir child)
    (notNew : address ≠ s.allocated) (called : List UInt8) :
    t.Named address called = s.Named address called := by
  by_cases isParent : address = parent
  · obtain ⟨capacity, after⟩ := creates.atParent
    rw [isParent, Named, Named, after, creates.born.held]
  · rw [Named, Named, creates.old isParent notNew]

theorem Creates.find_old (creates : s.Creates t parent name vfsDirectory dir child)
    (old : ∀ address ∈ children, address ≠ s.allocated) (called : List UInt8) :
    children.find? (fun address => t.Named address called) =
      children.find? fun address => s.Named address called := by
  induction children with
  | nil => rfl
  | cons first rest ih =>
      rw [List.find?_cons, List.find?_cons, creates.named (old first (List.mem_cons_self ..)) called,
        ih fun address member => old address (List.mem_cons_of_mem _ member)]

theorem Creates.grafted (creates : s.Creates t parent name vfsDirectory dir child)
    (tree : s.RamfsTree) (string : 0 ∉ name) (fits : name.length ≤ vfsMaxName - 1) :
    Grafted s.names t.names parent s.allocated name := by
  have fresh : s.objects s.allocated = none := tree.sound.fresh _ (Nat.le_refl _)
  have apart := creates.apart tree
  have atNew := creates.atNew tree
  obtain ⟨capacity, atParent⟩ := creates.atParent
  have isName : child.vfs.name = name := by
    rw [creates.name, cString_string string, List.take_of_length_le fits]
  have notChild : ∀ address other, s.objects address = some (.ramfs other) →
      ∀ below ∈ other.childList, below ≠ s.allocated := by
    intro address other held below member same
    obtain ⟨node, isNode⟩ := tree.live held below member
    rw [same, fresh] at isNode
    cases isNode
  have unused : dir.childList.find? (fun address => s.Named address name) = none := by
    refine List.find?_eq_none.mpr fun below member named => ?_
    obtain ⟨node, isNode, same⟩ := named_iff_some.mp named
    exact creates.accepts.unused below member node isNode
      (same.trans (cString_string string).symm)
  have search : ∀ called, t.names.child parent called =
      (dir.childList.find? fun address => s.Named address called).or
        (if called = name then some s.allocated else none) := by
    intro called
    have isNamed : t.Named s.allocated called = decide (called = name) := by
      rw [Named, atNew, ← isName]
      exact decide_eq_decide.mpr eq_comm
    rw [names_child atParent]
    change (if dir.vfs.isDirectory = true then
      (dir.childList ++ [s.allocated]).find? fun address => t.Named address called else none) = _
    rw [if_pos creates.born.directory, List.find?_append,
      creates.find_old (notChild parent dir creates.born.held) called, List.find?_cons, isNamed]
    by_cases same : called = name
    · rw [if_pos same, decide_eq_true same]
    · rw [if_neg same, decide_eq_false same]
      rfl
  refine ⟨?_, fun node called notNew other => ?_, ?_, fun called => ?_, fun node notNew => ?_, ?_,
    fun node called found => ?_, fun node above => ?_, apart⟩
  · rw [names_child creates.born.held, if_pos creates.born.directory]
    exact unused
  · by_cases isParent : node = parent
    · have otherName : called ≠ name := fun same => other ⟨isParent, same⟩
      rw [isParent, search, if_neg otherName, Option.or_none, names_child creates.born.held,
        if_pos creates.born.directory]
    · have same := creates.old isParent notNew
      cases held : s.objects node with
      | none => simp only [names, same, held]
      | some object =>
          obtain ⟨other, rfl, -⟩ := tree.ordinary node object held
          rw [names_child held, names_child (same.trans held),
            creates.find_old (notChild node other held) called]
  · rw [search, if_pos rfl, unused]
    rfl
  · rw [names_child atNew, creates.born.children]
    exact ite_self none
  · by_cases isParent : node = parent
    · rw [isParent, names_parent atParent, names_parent creates.born.held]
    · change (t.objects node).bind _ = (s.objects node).bind _
      rw [creates.old isParent notNew]
  · rw [names_parent atNew]
    exact creates.born.isParent
  · obtain ⟨below, -, isBelow, -⟩ := tree.child_live found
    rw [fresh] at isBelow
    cases isBelow
  · obtain ⟨object, held, isAbove⟩ := Option.bind_eq_some_iff.mp above
    obtain ⟨other, rfl, -⟩ := tree.ordinary node object held
    obtain ⟨entry, isEntry, -⟩ := tree.sound.forest.parent node _ s.allocated
      (forest_some.mpr ⟨other, held, rfl⟩) isAbove
    obtain ⟨node, isNode, -⟩ := forest_some.mp isEntry
    rw [fresh] at isNode
    cases isNode

end Creations

section Outcomes

/-- A path cut by `vfs_mkdir` that leads to the new directory nevertheless, in the tree with it. -/
def LeadsBack (s : FileTree) (path : List UInt8) : Prop :=
  vfsMaxPath ≤ (cString path).length ∧ ∃ root parent, s.root = some root ∧
    s.names.walk root (mkdirSteps path) = some parent ∧
    (s.names.graft parent s.allocated (mkdirSplit path).2).walk root (vfsSteps path) =
      some s.allocated

theorem RamfsTree.mkdir_parent (tree : s.RamfsTree) (isRoot : s.root = some root) :
    (match (mkdirSplit path).1 with
      | none => pure (some root)
      | some dir => vfsLookup dir : TreeProgram (Option Nat)) s =
      .ok (s.names.walk root (mkdirSteps path), s) := by
  rw [mkdirSteps]
  cases (mkdirSplit path).1 with
  | none => rfl
  | some dir =>
      dsimp only
      rw [tree.lookup, resolve, isRoot]
      rfl

/-- A directory that is made is a new leaf, with the name that the path ends in. -/
theorem vfsMkdir_ok (tree : s.RamfsTree) (ran : vfsMkdir path s = .ok (0, t)) :
    ∃ root parent dir child, s.root = some root ∧
      s.names.walk root (mkdirSteps path) = some parent ∧
      s.Creates t parent (mkdirSplit path).2 vfsDirectory dir child := by
  have looked : vfsGetRoot s = .ok (s.root, s) := rfl
  rw [vfsMkdir, bind_run looked] at ran
  cases isRoot : s.root with
  | none =>
      rw [isRoot] at ran
      cases ran
  | some root =>
      rw [isRoot] at ran
      dsimp only at ran
      rw [bind_run (tree.mkdir_parent isRoot)] at ran
      cases walked : s.names.walk root (mkdirSteps path) with
      | none =>
          rw [walked] at ran
          cases ran
      | some parent =>
          rw [walked] at ran
          dsimp only at ran
          obtain ⟨vfs, u, isNode, ran⟩ := bind_ok.mp ran
          obtain ⟨object, held, rfl, rfl⟩ := nodeAt_ok.mp isNode
          obtain ⟨dir, rfl, table, -⟩ := tree.ordinary parent object held
          split at ran
          · cases ran
          · rename_i directory
            rw [vfsCreate, bind_run (nodeAt_run held), if_neg directory] at ran
            have isTable : (FsObject.ramfs dir).vfs.table .create = some .ramfsCreate := by
              change dir.vfs.table .create = _
              rw [table]
              rfl
            rw [isTable] at ran
            rcases ramfsCreate_ok tree.sound ran with ⟨failed, -⟩ | ⟨-, dir, child, creates⟩
            · exact absurd rfl failed
            · exact ⟨root, parent, dir, child, rfl, walked, creates⟩

theorem Creates.root_same (creates : s.Creates t parent name vfsDirectory dir child) :
    t.root = s.root := creates.born.root

theorem Creates.meets_iff (creates : s.Creates t parent name vfsDirectory dir child)
    (tree : s.RamfsTree) (string : 0 ∉ name) (fits : name.length ≤ vfsMaxName - 1)
    (isRoot : s.root = some root) :
    MkdirMeets s t path ↔ t.names.walk root (vfsSteps path) = some s.allocated := by
  have after := creates.tree tree
  have grafted := creates.grafted tree string fits
  have fresh : s.objects s.allocated = none := tree.sound.fresh _ (Nat.le_refl _)
  have isRootAfter : t.root = some root := creates.root_same.trans isRoot
  have start := tree.root_old isRoot
  have before : ∀ query, s.resolve query = s.names.walk root (vfsSteps query) := fun query => by
    rw [resolve, isRoot]
    rfl
  have later : ∀ query, t.resolve query = t.names.walk root (vfsSteps query) := fun query => by
    rw [resolve, isRootAfter]
    rfl
  constructor
  · rintro ⟨made, node, unused, isNode, -, -, -, found, -⟩
    have isNew : made = s.allocated := by
      by_contra other
      by_cases isParent : made = parent
      · rw [isParent, creates.born.held] at unused
        cases unused
      · rw [creates.old isParent other, unused] at isNode
        cases isNode
    rw [after.lookup, isNew] at found
    rw [← later]
    exact (Prod.mk.inj (Except.ok.inj found)).1
  · intro walked
    refine ⟨s.allocated, child, fresh, creates.atNew tree, ?_, creates.born.children, ?_, ?_,
      fun query found => ⟨fun ran => ?_, fun around ran => ?_⟩⟩
    · rw [VfsNode.isDirectory, creates.flags]
      decide
    · rw [tree.lookup, before, grafted.walk_leaf start walked]
    · rw [after.lookup, later, walked]
    · rw [tree.lookup, before] at ran
      have walked := (Prod.mk.inj (Except.ok.inj ran)).1
      rw [after.lookup, later, grafted.walk_some start walked]
    · rw [after.lookup, later] at ran
      have walked := (Prod.mk.inj (Except.ok.inj ran)).1
      rw [way, isRootAfter] at around
      rw [tree.lookup, before, ← grafted.walk_eq start around, walked]

theorem RamfsTree.top (tree : s.RamfsTree) (isRoot : s.root = some root) (called : List UInt8) :
    s.names.child address called ≠ some root := by
  intro found
  obtain ⟨_, dir, -, isDir, member, -⟩ := tree.child_live found
  obtain ⟨node, held, top⟩ := tree.root_live isRoot
  obtain ⟨below, isBelow, isParent⟩ := tree.sound.forest.child address _
    (forest_some.mpr ⟨dir, isDir, rfl⟩) root member
  obtain ⟨_, isNode, rfl⟩ := forest_some.mp isBelow
  cases held.symm.trans isNode
  cases top.symm.trans isParent

/-- A path that fits into the buffer leads to the new directory only by its name. -/
theorem Creates.whole (creates : s.Creates t parent (mkdirSplit path).2 vfsDirectory dir child)
    (tree : s.RamfsTree) (isRoot : s.root = some root)
    (isParent : s.names.walk root (mkdirSteps path) = some parent)
    (fits : (cString path).length < vfsMaxPath)
    (walked : t.names.walk root (vfsSteps path) = some s.allocated) : MkdirWhole path := by
  have grafted := creates.grafted tree mkdirSplit_zero mkdirSplit_fits
  have start := tree.root_old isRoot
  obtain ⟨last, noSlash, isName, split⟩ := vfsSteps_mkdir fits
  rw [MkdirWhole]
  rcases split with split | ⟨atRoot, split⟩
  · rw [split, walk_append, grafted.walk_some start isParent, Option.bind_some] at walked
    rcases pathSteps_last noSlash with stays | up | ⟨rest, first, down⟩
    · rw [stays] at walked
      exact absurd (Option.some.inj walked) grafted.apart
    · rw [up, Tree.walk, Tree.step, grafted.parent parent grafted.apart] at walked
      have stepped : s.names.step parent .up = some s.allocated := walked
      exact absurd rfl (grafted.old grafted.apart stepped)
    · rw [first, ← isName, Tree.walk, Tree.step, grafted.found, Option.bind_some] at walked
      rw [split, first, isName, grafted.walk_from down walked]
  · rw [atRoot] at isParent ⊢
    obtain rfl := Option.some.inj isParent
    rw [split, List.nil_append]
    by_cases unnamed : (mkdirSplit path).2 = []
    · have empty : last = [] := by
        rw [isName] at unnamed
        simpa using unnamed
      rw [unnamed, empty, pathSteps, dif_pos rfl]
    · rw [split, Tree.walk, Tree.step,
        grafted.child root [] start fun same => unnamed same.2.symm] at walked
      obtain ⟨next, found, later⟩ := Option.bind_eq_some_iff.mp walked
      refine absurd later (grafted.walk_below (fun _ called => tree.top isRoot called)
        (pathSteps_down noSlash) ?_ ?_)
      · rintro rfl
        exact grafted.fresh root [] found
      · rintro rfl
        exact tree.top isRoot [] found

/-- `vfs_mkdir` makes what a lookup finds exactly if the lookup takes the path apart as it does,
or comes back to the directory behind the place where the path is cut. -/
theorem vfs_mkdir_iff (tree : s.RamfsTree) (ran : vfsMkdir path s = .ok (0, t)) :
    MkdirMeets s t path ↔ MkdirWhole path ∨ s.LeadsBack path := by
  obtain ⟨root, parent, dir, child, isRoot, isParent, creates⟩ := vfsMkdir_ok tree ran
  have grafted := creates.grafted tree mkdirSplit_zero mkdirSplit_fits
  rw [creates.meets_iff tree mkdirSplit_zero mkdirSplit_fits isRoot]
  constructor
  · intro walked
    by_cases fits : (cString path).length < vfsMaxPath
    · exact .inl (creates.whole tree isRoot isParent fits walked)
    · rw [grafted.eq_graft] at walked
      exact .inr ⟨Nat.le_of_not_lt fits, root, parent, isRoot, isParent, walked⟩
  · rintro (whole | ⟨-, _, _, again, sameParent, walked⟩)
    · rw [show vfsSteps path = _ from whole, walk_append,
        grafted.walk_some (tree.root_old isRoot) isParent,
        Option.bind_some, Tree.walk, Tree.step, grafted.found]
      rfl
    · cases isRoot.symm.trans again
      cases isParent.symm.trans sameParent
      rw [grafted.eq_graft]
      exact walked

end Outcomes

/-- The root that the file system starts with is such a tree, and a new directory leaves one. -/
theorem RamfsTree.planted (empty : s.Empty) (ran : plantRoot s = .ok ((), t)) : t.RamfsTree := by
  have sound : t.Sound := (plantRoot_kept s () t ran empty.ordinary.sound).1
  have none : ∀ address, s.objects address = none := empty.1
  have objects : ∀ address object, t.objects address = some object →
      ∃ array, object = .ramfs (newRamfsNode [0x2F] vfsDirectory s.nextInode array address) := by
    intro address object held
    cases given : s.memory 0 with
    | false =>
        rw [plantRoot, ramfsInit, bind_run (ramfsAllocNode_denied given)] at ran
        cases ran
        cases (none address).symm.trans held
    | true =>
        obtain ⟨array, u, made, isObjects, -⟩ := ramfsAllocNode_given [0x2F] vfsDirectory given
        rw [plantRoot, ramfsInit, bind_run made] at ran
        cases ran
        change u.objects address = some object at held
        rw [isObjects] at held
        rcases PartialTable.update_some.mp held with ⟨rfl, same⟩ | ⟨_, old⟩
        · exact ⟨_, (Option.some.inj same).symm⟩
        · cases (none address).symm.trans old
  refine ⟨sound, fun address object held => ?_, fun address object held => ?_⟩
  · obtain ⟨array, rfl⟩ := objects address object held
    exact ⟨_, rfl, rfl, rfl⟩
  · obtain ⟨array, rfl⟩ := objects address object held
    change vfsDirectory &&& vfsMountpoint = 0
    decide

theorem vfsMkdir_tree (tree : s.RamfsTree) (ran : vfsMkdir path s = .ok (0, t)) : t.RamfsTree := by
  obtain ⟨_, _, _, _, -, -, creates⟩ := vfsMkdir_ok tree ran
  exact creates.tree tree

end FileTree

namespace FileTree

/-- The directory `/a` in a new tree, and then `/a/`. -/
def mkdirTwice : TreeProgram (Int × Option Nat × Int × Option Nat) := do
  plantRoot
  let first ← vfsMkdir [slash, 0x61]
  let before ← vfsLookup [slash, 0x61, slash]
  let second ← vfsMkdir [slash, 0x61, slash]
  let after ← vfsLookup [slash, 0x61, slash]
  pure (first, before, second, after)

theorem mkdirTwice_run : ∃ r s t, plantRoot (emptyTree []) = .ok ((), r) ∧
    vfsMkdir [slash, 0x61] r = .ok (0, s) ∧ vfsLookup [slash, 0x61, slash] s = .ok (some 2, s) ∧
    vfsMkdir [slash, 0x61, slash] s = .ok (0, t) ∧
    vfsLookup [slash, 0x61, slash] t = .ok (some 2, t) := by
  have results : (mkdirTwice (emptyTree [])).toOption.map Prod.fst = some (0, some 2, 0, some 2) := by
    decide +kernel
  cases ran : mkdirTwice (emptyTree []) with
  | error fault =>
      rw [ran] at results
      cases results
  | ok result =>
      rw [ran] at results
      obtain ⟨values, last⟩ := result
      obtain rfl : values = (0, some 2, 0, some 2) := Option.some.inj results
      obtain ⟨_, r, planted, ran⟩ := bind_ok.mp ran
      obtain ⟨first, s, made, ran⟩ := bind_ok.mp ran
      obtain ⟨before, u, found, ran⟩ := bind_ok.mp ran
      obtain ⟨second, t, again, ran⟩ := bind_ok.mp ran
      obtain ⟨after, w, later, ran⟩ := bind_ok.mp ran
      obtain ⟨same, rfl⟩ := pure_ok.mp ran
      simp only [Prod.mk.injEq] at same
      obtain ⟨rfl, rfl, rfl, rfl⟩ := same
      have tree := vfsMkdir_tree (.planted ⟨fun _ => rfl, rfl⟩ planted) made
      obtain rfl : s = u := (Prod.mk.inj (Except.ok.inj ((tree.lookup _).symm.trans found))).2
      have after := vfsMkdir_tree tree again
      obtain rfl : t = w := (Prod.mk.inj (Except.ok.inj ((after.lookup _).symm.trans later))).2
      exact ⟨r, s, t, planted, made, found, again, later⟩

/-- In a new tree `/a` is made, and is what the path leads to. -/
theorem vfs_mkdir_iff_a : ∃ s t : FileTree, plantRoot (emptyTree []) = .ok ((), s) ∧
    vfsMkdir [slash, 0x61] s = .ok (0, t) ∧ MkdirMeets s t [slash, 0x61] := by
  obtain ⟨r, s, _, planted, made, -⟩ := mkdirTwice_run
  have tree := RamfsTree.planted ⟨fun _ => rfl, rfl⟩ planted
  refine ⟨r, s, planted, made, (vfs_mkdir_iff tree made).mpr (.inl ?_)⟩
  rw [MkdirWhole, steps_slash_a]
  rfl

/-- With a slash behind it the path of a directory is made again, as one without a name in the
directory; the path still leads to the directory. -/
theorem vfs_mkdir_trailing : ∃ s t : FileTree, s.RamfsTree ∧
    vfsMkdir [slash, 0x61, slash] s = .ok (0, t) ∧
    vfsLookup [slash, 0x61, slash] s = .ok (some 2, s) ∧
    vfsLookup [slash, 0x61, slash] t = .ok (some 2, t) ∧
    ¬ MkdirMeets s t [slash, 0x61, slash] := by
  obtain ⟨r, s, t, planted, made, before, again, after⟩ := mkdirTwice_run
  refine ⟨s, t, vfsMkdir_tree (.planted ⟨fun _ => rfl, rfl⟩ planted) made, again, before, after, ?_⟩
  rintro ⟨_, _, -, -, -, -, nothing, -⟩
  cases before.symm.trans nothing

end FileTree

end ZurichOS
