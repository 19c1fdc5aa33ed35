import ZurichOS.FileTreeCreate
import ZurichOS.Transitions

set_option linter.all false

/-!
The operations of a node and its private data.  The functions of ramfs find a node of ramfs
behind `impl`, but for the files of `procfs_create_dynamic`: these keep all of their functions
but `read`, and have the node of another type.
-/

namespace ZurichOS

open AddressForest Faulting

inductive FileTreeCall where
  | ramfsInit
  | ramfsCreateNode (type parent : Nat) (name : List UInt8)
  | ramfsWriteFile (node : Nat) (data : List UInt8)
  | devfsRegister (devfsRoot : Option Nat) (name : List UInt8)
  | procfsCreateDynamic (parent : Nat) (name : List UInt8) (fileType : Nat)
  | read (node offset size : Nat) (buffer : Bool) (answer : Nat → Nat → Nat → Int × List UInt8)
  | write (node offset : Nat) (buffer : Option (List UInt8))
  | append (node : Nat) (buffer : Option (List UInt8))
  | truncate (node : Nat)
  | openFile (node : Nat)
  | closeFile (node : Nat)
  | readdir (node index : Nat)
  | finddir (node : Nat) (name : List UInt8)
  | create (node : Nat) (name : List UInt8) (type : Nat)
  | unlink (node : Nat) (name : List UInt8)

namespace FileTree

def run : FileTreeCall → TreeProgram Unit
  | .ramfsInit => plantRoot
  | .ramfsCreateNode type parent name => forget (ramfsCreateNode type parent name)
  | .ramfsWriteFile node data => forget (ramfsWriteFile node data)
  | .devfsRegister devfsRoot name => forget (devfsRegister devfsRoot name)
  | .procfsCreateDynamic parent name fileType => forget (procfsCreateDynamic parent name fileType)
  | .read node offset size buffer answer => forget (vfsRead answer node offset size buffer)
  | .write node offset buffer => forget (vfsWrite node offset buffer)
  | .append node buffer => forget (vfsAppend node buffer)
  | .truncate node => forget (vfsTruncate node)
  | .openFile node => forget (vfsOpen node)
  | .closeFile node => forget (vfsClose node)
  | .readdir node index => forget (vfsReaddir node index)
  | .finddir node name => forget (vfsFinddir node name)
  | .create node name type => forget (vfsCreate node name type)
  | .unlink node name => forget (vfsUnlink node name)

end FileTree

def fileTreeStep (s : FileTree) (call : FileTreeCall) (t : FileTree) : Prop :=
  FileTree.run call s = .ok ((), t)

/-- Every function of the operation table finds at `impl` what it casts it to. -/
def FileTree.ImplMatches (s : FileTree) (node : FsNode) : Prop :=
  ∀ (slot : Slot) (function : NodeFunction slot), node.table slot = some function →
    ∃ address object, node.impl = some address ∧ s.objects address = some object ∧
      object.type = function.casts

def FileTree.Matching (s : FileTree) : Prop :=
  ∀ address object, s.forest.Found address → s.objects address = some object →
    s.ImplMatches object.vfs

/-- Nothing is there before the file system starts. -/
def FileTree.Empty (s : FileTree) : Prop :=
  (∀ address, s.objects address = none) ∧ s.root = none

/-- The call puts a file of procfs into a directory of the tree. -/
def FileTree.MakesProcfsFile (s : FileTree) : FileTreeCall → Prop
  | .procfsCreateDynamic parent name _ =>
      s.forest.Found parent ∧ s.MakesDynamic parent name
  | _ => False

variable {s t u : FileTree} {address parent child : Nat} {node dir : RamfsObject}

section Runs

/-- All nodes that paths lead to are as `ramfs_alloc_node` made them. -/
structure FileTree.AllOrdinary (s : FileTree) : Prop where
  sound : s.Sound
  ordinary : ∀ address node, s.forest.Found address → s.objects address = some (.ramfs node) →
    node.Ordinary address

theorem FileTree.Empty.ordinary (empty : s.Empty) : s.AllOrdinary := by
  have entries : ∀ address, s.forest.entries address = none := by
    intro address
    change (s.objects address).bind FsObject.entry = none
    rw [empty.1 address]
    rfl
  have none : ∀ {p : Prop} {address : Nat} {object : FsObject},
      s.objects address = some object → p := by
    intro p address object held
    cases (empty.1 address).symm.trans held
  refine ⟨⟨fun address _ => empty.1 address, ⟨fun node _ => entries node, ?_, ?_, ?_, ?_, ?_⟩,
    fun _ _ held => none held, fun _ _ held => none held⟩, fun _ _ _ held => none held⟩
  · intro node entry held
    cases (entries node).symm.trans held
  · intro node entry up held
    cases (entries node).symm.trans held
  · intro node entry held
    cases (entries node).symm.trans held
  · intro node entry held
    cases (entries node).symm.trans held
  · intro node isRoot
    cases empty.2.symm.trans isRoot

theorem FileTree.AllOrdinary.kept (all : s.AllOrdinary) (kept : s.Kept t) : t.AllOrdinary := by
  obtain ⟨sound, steps⟩ := kept all.sound
  refine ⟨sound, fun address node found held => ?_⟩
  rcases steps.nodes address node held with ordinary | ⟨before, isBefore, table, impl⟩
  · exact ordinary
  · rcases steps.edits.found all.sound.forest found with old | new
    · have ordinary := all.ordinary address before old isBefore
      exact ⟨table.trans ordinary.1, impl.trans ordinary.2⟩
    · cases (all.sound.fresh address new).symm.trans isBefore

theorem RamfsObject.Ordinary.matches (held : s.objects address = some (.ramfs node))
    (ordinary : node.Ordinary address) : s.ImplMatches node.vfs := by
  intro slot function isFunction
  refine ⟨address, _, ordinary.2, held, ?_⟩
  rw [ordinary.1] at isFunction
  cases slot with
  | openFile => cases isFunction
  | closeFile => cases isFunction
  | _ =>
      cases isFunction
      rfl

/-- The `write` of such a file is still `ramfs_write`, which takes its `impl` for a node of
ramfs. -/
theorem FileTree.Dynamic.mismatch (dynamic : s.Dynamic node) : ¬ s.ImplMatches node.vfs := by
  obtain ⟨table, place, pnode, impl, isProcfs⟩ := dynamic
  intro fits
  have isWrite : node.vfs.table .write = some .ramfsWrite := by
    rw [table]
    rfl
  obtain ⟨address, object, isAddress, held, type⟩ := fits .write .ramfsWrite isWrite
  obtain rfl := Option.some.inj (impl.symm.trans isAddress)
  cases isProcfs.symm.trans held
  cases type

theorem FileTree.found_node (sound : s.Sound) {object : FsObject}
    (found : s.forest.Found address) (held : s.objects address = some object) :
    ∃ node, object = .ramfs node := by
  obtain ⟨entry, isEntry⟩ := found.held sound.forest
  obtain ⟨node, isNode, _⟩ := FileTree.forest_some.mp isEntry
  exact ⟨node, Option.some.inj (held.symm.trans isNode)⟩

theorem FileTree.AllOrdinary.matching (all : s.AllOrdinary) : s.Matching := by
  intro address object found held
  obtain ⟨node, rfl⟩ := FileTree.found_node all.sound found held
  exact (all.ordinary address node found held).matches held

theorem FileTree.run_kept (call : FileTreeCall)
    (other : ∀ parent name fileType, call ≠ .procfsCreateDynamic parent name fileType) :
    Moves FileTree.Kept (FileTree.run call) := by
  cases call with
  | ramfsInit => exact plantRoot_kept
  | ramfsCreateNode type parent name => exact .forget (ramfsCreateNode_kept type)
  | ramfsWriteFile node data => exact .forget (ramfsWrite_kept 0 (some data))
  | devfsRegister devfsRoot name => exact .forget (devfsRegister_kept devfsRoot)
  | procfsCreateDynamic parent name fileType => exact absurd rfl (other parent name fileType)
  | read node offset size buffer answer =>
      exact .forget (kept_of_reads (vfsRead_reads answer offset size buffer))
  | write node offset buffer => exact .forget (vfsWrite_kept offset buffer)
  | append node buffer => exact .forget (vfsAppend_kept buffer)
  | truncate node => exact .forget vfsTruncate_kept
  | openFile node => exact .forget (kept_of_reads vfsOpen_reads)
  | closeFile node => exact .forget (kept_of_reads vfsClose_reads)
  | readdir node index => exact .forget (kept_of_reads (vfsReaddir_reads index))
  | finddir node name => exact .forget (kept_of_reads (vfsFinddir_reads name))
  | create node name type => exact .forget (vfsCreate_kept type)
  | unlink node name => exact .forget vfsUnlink_kept

/-- A call without a new file of procfs in the tree keeps all nodes ordinary, and one with
such a file leaves a node that does not match. -/
theorem FileTree.AllOrdinary.step {call : FileTreeCall} (all : s.AllOrdinary)
    (stepped : fileTreeStep s call t) :
    (¬ s.MakesProcfsFile call → t.AllOrdinary) ∧ (s.MakesProcfsFile call → ¬ t.Matching) := by
  by_cases special : ∀ parent name fileType, call ≠ .procfsCreateDynamic parent name fileType
  · refine ⟨fun _ => all.kept (FileTree.run_kept call special s () t stepped), fun makes => ?_⟩
    cases call with
    | procfsCreateDynamic parent name fileType => exact absurd rfl (special parent name fileType)
    | _ => exact makes.elim
  · push Not at special
    obtain ⟨parent, name, fileType, rfl⟩ := special
    obtain ⟨found, u, ran, forgotten⟩ := bind_ok.mp stepped
    obtain ⟨_, rfl⟩ := pure_ok.mp forgotten
    rcases FileTree.procfsCreateDynamic_ok all.sound ran with ⟨kept, refused⟩ | ⟨makes,
      before, middle, dir, file, place, keptBefore, newer, isForest, creates, converted⟩
    · exact ⟨fun _ => all.kept kept, fun makes => absurd makes.2 refused⟩
    · have allBefore := all.kept keptBefore
      have allMiddle := allBefore.kept creates.born.kept
      have isDir := FileTree.forest_some.mpr ⟨dir, creates.born.held, rfl⟩
      have isChild := creates.born.after_child allBefore.sound
      constructor
      · intro without
        refine ⟨converted.sound allMiddle.sound, fun address node found held => ?_⟩
        rw [converted.forest] at found
        rcases converted.old held with rfl | old
        · -- The file is found only if its directory was.
          have up := found.parent (FileTree.forest_some.mpr ⟨file, isChild, rfl⟩)
            creates.born.isParent
          rcases (creates.born.kept allBefore.sound).2.edits.found allBefore.sound.forest up with
            old | new
          · rw [isForest] at old
            exact absurd ⟨found_next.mp old, makes⟩ without
          · cases (allBefore.sound.fresh parent new).symm.trans creates.born.held
        · exact allMiddle.ordinary address node found old
      · intro inside matching
        have foundParent : before.forest.Found parent := by
          rw [isForest]
          exact found_next.mpr inside.1
        have foundFile := foundParent.born file.vfs.isDirectory allBefore.sound.forest isDir
        rw [← creates.born.forest, ← converted.forest] at foundFile
        obtain ⟨later, isLater, dynamic⟩ := converted.dynamic
        exact dynamic.mismatch (matching _ _ foundFile isLater)

/-- As long as `procfs_create_dynamic` puts no file into the tree, every function finds at
`impl` what it takes it for; the first such file ends that. -/
theorem impl_matches_iff {call : FileTreeCall}
    (reached : Transitions.Reachable FileTree.Empty
      (Transitions.Restricted (fun s call => ¬ s.MakesProcfsFile call) fileTreeStep) s)
    (stepped : fileTreeStep s call t) :
    s.Matching ∧ (t.Matching ↔ ¬ s.MakesProcfsFile call) := by
  have all : s.AllOrdinary := reached.invariant FileTree.AllOrdinary
    (fun s empty => empty.ordinary) fun s call t ordinary met => (ordinary.step met.2).1 met.1
  obtain ⟨kept, ends⟩ := all.step stepped
  exact ⟨all.matching, fun matching makes => ends makes matching, fun without =>
    (kept without).matching⟩

theorem FileTree.Sound.step {call : FileTreeCall} (sound : s.Sound) (stepped : fileTreeStep s call t) :
    t.Sound := by
  by_cases special : ∀ parent name fileType, call ≠ .procfsCreateDynamic parent name fileType
  · exact (FileTree.run_kept call special s () t stepped sound).1
  · push Not at special
    obtain ⟨parent, name, fileType, rfl⟩ := special
    obtain ⟨found, u, ran, forgotten⟩ := bind_ok.mp stepped
    obtain ⟨_, rfl⟩ := pure_ok.mp forgotten
    rcases FileTree.procfsCreateDynamic_ok sound ran with ⟨kept, _⟩ | ⟨_,
      before, middle, dir, file, place, keptBefore, _, _, creates, converted⟩
    · exact (kept sound).1
    · exact converted.sound (creates.born.kept (keptBefore sound).1).1

/-- After any calls, the nodes with the `read` of procfs are those that do not match. -/
theorem matches_iff_read (reached : Transitions.Reachable FileTree.Empty fileTreeStep s)
    {object : FsObject} (found : s.forest.Found address) (held : s.objects address = some object) :
    s.ImplMatches object.vfs ↔ object.vfs.table .read ≠ some .procfsDynamicRead := by
  have sound : s.Sound := reached.invariant FileTree.Sound (fun s empty => empty.ordinary.sound)
    fun s call t sound stepped => sound.step stepped
  obtain ⟨node, rfl⟩ := FileTree.found_node sound found held
  change _ ↔ node.vfs.table .read ≠ _
  rcases sound.kinds address node held with ordinary | dynamic
  · rw [ordinary.1]
    refine ⟨fun _ same => ?_, fun _ => ordinary.matches held⟩
    cases same
  · rw [dynamic.1, Function.update_self]
    exact ⟨fun fits => absurd fits dynamic.mismatch, fun other => absurd rfl other⟩

/-- A write to such a file takes its node of procfs for one of ramfs. -/
theorem procfs_write_casts (dynamic : s.Dynamic node)
    (held : s.objects address = some (.ramfs node)) (file : node.vfs.isDirectory = false)
    {offset : Nat} {bytes : List UInt8}
    (fits : Words.u32 (offset + bytes.length) ≤ ramfsMaxFileSize) :
    FileTree.vfsWrite address offset (some bytes) s = .error .cast := by
  obtain ⟨table, place, pnode, impl, isProcfs⟩ := dynamic
  have isWrite : node.vfs.table .write = some .ramfsWrite := by
    rw [table]
    rfl
  have looked : FileTree.nodeAt address s = .ok (node.vfs, s) :=
    FileTree.nodeAt_ok.mpr ⟨_, held, rfl, rfl⟩
  have cast : FileTree.ramfsAt place s = .error .cast := by
    rw [FileTree.ramfsAt, bind_run (FileTree.objectAt_ok.mpr ⟨isProcfs, rfl⟩)]
    rfl
  rw [FileTree.vfsWrite, bind_run looked]
  simp only [isWrite]
  rw [FileTree.ramfsWrite, bind_run looked]
  simp only [impl]
  rw [if_neg (by rw [file]; decide), if_neg (Nat.not_lt.mpr fits)]
  exact bind_fault cast

/-- The state after the calls, unless one of them faults. -/
def fileTreeRun (s : FileTree) : List FileTreeCall → Option FileTree
  | [] => some s
  | call :: rest =>
      match FileTree.run call s with
      | .ok ((), t) => fileTreeRun t rest
      | .error _ => none

theorem fileTreeRun_cons {call : FileTreeCall} {rest : List FileTreeCall} :
    fileTreeRun s (call :: rest) = some u ↔ ∃ t, fileTreeStep s call t ∧ fileTreeRun t rest = some u := by
  rw [fileTreeRun]
  cases ran : FileTree.run call s with
  | error fault =>
      constructor
      · intro absurd
        cases absurd
      · rintro ⟨t, stepped, _⟩
        cases ran.symm.trans stepped
  | ok result =>
      constructor
      · intro rest
        exact ⟨result.2, ran, rest⟩
      · rintro ⟨t, stepped, rest⟩
        cases ran.symm.trans stepped
        exact rest

def startedTree : FileTree :=
  { objects := fun _ => none, allocated := 0, nextInode := 1, deviceCount := 0, root := none
    memory := fun _ => true }

theorem startedTree_empty : startedTree.Empty := ⟨fun _ => rfl, rfl⟩

/-- The file `meminfo` of `/proc`. -/
def createMeminfo : FileTreeCall :=
  .procfsCreateDynamic 1 [0x6D, 0x65, 0x6D, 0x69, 0x6E, 0x66, 0x6F] 1

def procCalls : List FileTreeCall :=
  [.ramfsInit, .ramfsCreateNode vfsDirectory 0 [0x70, 0x72, 0x6F, 0x63], createMeminfo]

theorem procCalls_run : ∃ t, fileTreeRun startedTree procCalls = some t :=
  Option.isSome_iff_exists.mp (by decide +kernel)

/-- After it the root leads to a node whose `write` takes a node of procfs for one of ramfs. -/
theorem procfs_file_mismatches :
    ∃ t, fileTreeRun startedTree procCalls = some t ∧ ∃ object, t.forest.Found 3 ∧
      t.objects 3 = some object ∧ ¬ t.ImplMatches object.vfs := by
  obtain ⟨t, ran⟩ := procCalls_run
  have root : (fileTreeRun startedTree procCalls).map FileTree.root = some (some 0) := by
    decide +kernel
  have top : (fileTreeRun startedTree procCalls).bind (fun t => t.forest.entries 0) =
      some ⟨[1], none, true⟩ := by decide +kernel
  have proc : (fileTreeRun startedTree procCalls).bind (fun t => t.forest.entries 1) =
      some ⟨[3], some 0, true⟩ := by decide +kernel
  have file : ((fileTreeRun startedTree procCalls).bind fun t => t.objects 3).map
      (fun object => (object.vfs.impl, (object.vfs.table .write).isSome)) = some (some 2, true) := by
    decide +kernel
  have place : ((fileTreeRun startedTree procCalls).bind fun t => t.objects 2).map FsObject.type =
      some .procfsNode := by decide +kernel
  rw [ran] at root top proc file place
  obtain ⟨object, held, isFile⟩ := Option.map_eq_some_iff.mp file
  obtain ⟨isImpl, isWrite⟩ := Prod.mk.injEq .. ▸ isFile
  refine ⟨t, ran, object, ?_, held, fun fits => ?_⟩
  · have isRoot : t.forest.root = some 0 := Option.some.inj root
    exact .child (.child (.root isRoot) top (List.mem_singleton_self _)) proc
      (List.mem_singleton_self _)
  · obtain ⟨function, isFunction⟩ := Option.isSome_iff_exists.mp isWrite
    obtain ⟨address, found, isAddress, isFound, type⟩ := fits .write function isFunction
    cases isImpl.symm.trans isAddress
    obtain ⟨procfs, isProcfs, isType⟩ := Option.map_eq_some_iff.mp place
    cases isFound.symm.trans isProcfs
    cases function
    cases isType.symm.trans type

theorem impl_matches_iff_meminfo : ∃ s t, fileTreeStep s createMeminfo t ∧
    s.Matching ∧ (t.Matching ↔ ¬ s.MakesProcfsFile createMeminfo) := by
  obtain ⟨t, ran⟩ := procCalls_run
  obtain ⟨planted, plant, ran⟩ := fileTreeRun_cons.mp ran
  obtain ⟨s, create, ran⟩ := fileTreeRun_cons.mp ran
  obtain ⟨u, stepped, _⟩ := fileTreeRun_cons.mp ran
  exact ⟨s, u, stepped, impl_matches_iff
    (.next (.next (.start startedTree_empty) ⟨id, plant⟩) ⟨id, create⟩) stepped⟩

end Runs

section Boot

/-- The states that a run of calls leads to. -/
def TreeLeads : FileTree → FileTree → Prop :=
  Relation.ReflTransGen fun s t => ∃ call, fileTreeStep s call t

instance : Std.Refl TreeLeads := ⟨fun _ => .refl⟩

instance : IsTrans FileTree TreeLeads := ⟨fun _ _ _ => Relation.ReflTransGen.trans⟩

namespace FileTree

theorem call_leads {α : Type} {x : TreeProgram α} (call : FileTreeCall)
    (isRun : FileTree.run call = forget x) : Moves TreeLeads x := by
  intro s a t ran
  refine .single ⟨call, ?_⟩
  rw [fileTreeStep, isRun]
  exact bind_ok.mpr ⟨a, t, ran, pure_ok.mpr ⟨rfl, rfl⟩⟩

theorem ramfsCreateNode_leads {type : Nat} {name : List UInt8} :
    Moves TreeLeads (ramfsCreateNode type parent name) :=
  call_leads (.ramfsCreateNode type parent name) rfl

theorem createDir_leads {name : String} {fill : Nat → TreeProgram Unit}
    (filled : ∀ dir, Moves TreeLeads (fill dir)) : Moves TreeLeads (createDir parent name fill) := by
  refine ramfsCreateNode_leads.bind fun made => ?_
  cases made with
  | none => exact .pure _
  | some dir => exact filled dir

theorem emptyDir_leads {name : String} :
    Moves TreeLeads (createDir parent name fun _ => pure ()) :=
  createDir_leads fun _ => .pure _

theorem createText_leads {name text : String} {size : Nat} :
    Moves TreeLeads (createText parent name text size) := by
  refine ramfsCreateNode_leads.bind fun made => ?_
  cases made with
  | none => exact .pure _
  | some file =>
      exact (call_leads (.ramfsWriteFile file ((ascii text ++ [0]).take size)) rfl).bind
        fun _ => .pure _

theorem procfsCreateAll_leads (files : List (String × Nat)) :
    Moves TreeLeads (procfsCreateAll parent files) := by
  induction files with
  | nil => exact .pure _
  | cons first rest ih =>
      exact (call_leads (.procfsCreateDynamic parent (ascii first.1) first.2) rfl).bind
        fun _ => ih

theorem procfsInit_leads : Moves TreeLeads (procfsInit parent) := by
  refine ramfsCreateNode_leads.bind fun made => ?_
  cases made with
  | none => exact .pure _
  | some root =>
      refine (procfsCreateAll_leads _).bind fun _ => Moves.bind ?_ fun _ => Moves.bind ?_ fun _ =>
        Moves.bind ?_ fun _ => .pure _
      · refine createDir_leads fun sys => Moves.bind ?_ fun _ => Moves.bind ?_ fun _ => ?_
        · exact createDir_leads fun kernel => procfsCreateAll_leads _
        · exact createDir_leads fun net => createDir_leads fun ipv4 =>
            createText_leads.bind fun _ => createText_leads
        · exact createDir_leads fun vm => createText_leads
      · exact createDir_leads fun net =>
          (procfsCreateAll_leads _).bind fun _ => createText_leads
      · exact createDir_leads fun fs => createText_leads.bind fun _ => createText_leads

theorem devfsRegisterAll_leads (devfsRoot : Option Nat) (names : List String) :
    Moves TreeLeads (devfsRegisterAll devfsRoot names) := by
  induction names with
  | nil => exact .pure _
  | cons name rest ih =>
      exact (call_leads (.devfsRegister devfsRoot (ascii name)) rfl).bind fun _ => ih

theorem devfsInit_leads : Moves TreeLeads (devfsInit parent) := by
  refine ramfsCreateNode_leads.bind fun made => ?_
  cases made with
  | none => exact .pure _
  | some root =>
      exact (devfsRegisterAll_leads _ _).bind fun _ => ramfsCreateNode_leads.bind fun _ => .pure _

theorem bootDirectories_leads (root : Nat) : Moves TreeLeads (bootDirectories root) := by
  refine emptyDir_leads.bind fun _ => Moves.bind (createDir_leads fun run => ?_) fun _ =>
    Moves.bind (createDir_leads fun mnt => ?_) fun _ => emptyDir_leads.bind fun _ =>
    Moves.bind (createDir_leads fun disks => ?_) fun _ => devfsInit_leads.bind fun _ =>
    procfsInit_leads.bind fun _ => createDir_leads fun sys => ?_
  · exact emptyDir_leads.bind fun _ => emptyDir_leads
  · exact emptyDir_leads.bind fun _ => emptyDir_leads.bind fun _ => emptyDir_leads
  · exact emptyDir_leads.bind fun _ => emptyDir_leads
  · refine Moves.bind (createDir_leads fun devices => ?_) fun _ =>
      emptyDir_leads.bind fun _ => emptyDir_leads
    exact emptyDir_leads.bind fun _ => emptyDir_leads

/-- The tree that the kernel starts with is one that calls lead to. -/
theorem bootFilesystem_leads : Moves TreeLeads bootFilesystem := by
  intro s _ t ran
  obtain ⟨made, u, planted, ran⟩ := bind_ok.mp ran
  cases made with
  | none =>
      obtain ⟨_, rfl⟩ := pure_ok.mp ran
      exact .single ⟨.ramfsInit, bind_ok.mpr ⟨none, u, planted, pure_ok.mpr ⟨rfl, rfl⟩⟩⟩
  | some root =>
      obtain ⟨_, v, rooted, ran⟩ := bind_ok.mp ran
      have first : TreeLeads s v := .single ⟨.ramfsInit, bind_ok.mpr ⟨some root, u, planted, rooted⟩⟩
      exact Trans.trans first (bootDirectories_leads root v () t ran)

end FileTree

end Boot

end ZurichOS
