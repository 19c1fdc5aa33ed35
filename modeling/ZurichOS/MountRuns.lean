import ZurichOS.Mount

set_option linter.all false

/-!
Runs of `vfs_mount` and `vfs_unmount`.  As long as no mount covers a directory on the way of
another, every path means what the mount table says.
-/

namespace ZurichOS

open ByteBuffer PathWalk

inductive MountCall where
  | mount (path : List UInt8) (fsRoot : Nat)
  | unmount (path : List UInt8)

def mountStep (v : Vfs) : MountCall → Int × Vfs
  | .mount path fsRoot => vfsMount v path fsRoot
  | .unmount path => vfsUnmount v path

def mountRun (v : Vfs) (calls : List MountCall) : Vfs :=
  calls.foldl (fun v call => (mountStep v call).2) v

structure Vfs.Accepts (v : Vfs) (path : List UInt8) (mountPoint : Nat) : Prop where
  room : v.mounts.length < maxMounts
  found : vfsLookup v path = some mountPoint
  directory : (v.nodes mountPoint).isDirectory = true
  unused : ∀ entry ∈ v.mounts, entry.path ≠ cString path

/-- The path comes to the mount point by name and only at its end, no active mount lies
behind the mount point, and `fsRoot` is the root of a volume of its own that is not mounted. -/
structure CarefulMount (home : Nat → Nat) (v : Vfs) (path : List UInt8) (mountPoint fsRoot : Nat) :
    Prop where
  short : (cString path).length < vfsMaxPath
  ramfs : ∃ children, (v.nodes mountPoint).finddir = .ramfs children
  volume : home fsRoot = fsRoot ∧ v.root ≠ some fsRoot
  unmounted : ∀ entry ∈ v.mounts, entry.fsRoot ≠ fsRoot
  last : ∃ front name, vfsSteps path = front ++ [.child name] ∧
    ∀ root, v.root = some root → mountPoint ∉ v.tree.way root front
  apart : ∀ entry ∈ v.mounts, mountPoint ∉ v.way entry.path

/-- The condition on a call: mounts nest. -/
def MountCareful (home : Nat → Nat) (v : Vfs) : MountCall → Prop
  | .mount path fsRoot => ∀ mountPoint, v.Accepts path mountPoint →
      CarefulMount home v path mountPoint fsRoot
  | .unmount path => ∀ entry ∈ v.mounts, entry.path = cString path →
      ∀ other ∈ v.mounts, other.path ≠ cString path → entry.fsRoot ∉ v.way other.path

def CarefulRun (home : Nat → Nat) (v : Vfs) : List MountCall → Prop
  | [] => True
  | call :: rest => MountCareful home v call ∧ CarefulRun home (mountStep v call).2 rest

def Vfs.withMount (v : Vfs) (path : List UInt8) (mountPoint fsRoot : Nat) : Vfs :=
  let point : TreeNode := { v.nodes mountPoint with
    flags := (v.nodes mountPoint).flags ||| vfsMountpoint, ptr := some fsRoot }
  let nodes := Function.update v.nodes mountPoint point
  { v with
    nodes := Function.update nodes fsRoot
      { nodes fsRoot with parent := point.parent, name := point.name.take (vfsMaxName - 1) }
    mounts := v.mounts ++ [⟨(cString path).take (vfsMaxPath - 1), mountPoint, fsRoot⟩] }

def Vfs.withoutMount (v : Vfs) (entry : MountEntry) (mounts : List MountEntry) : Vfs :=
  { v with
    nodes := Function.update v.nodes entry.mountPoint { v.nodes entry.mountPoint with
      flags := (v.nodes entry.mountPoint).flags &&& 0xFFFFFFF7, ptr := none }
    mounts }

variable {base v : Vfs} {home : Nat → Nat} {root mountPoint fsRoot : Nat} {path : List UInt8}

section Calls

theorem vfsMount_cases (v : Vfs) (path : List UInt8) (fsRoot : Nat) :
    (∃ mountPoint, v.Accepts path mountPoint ∧
        vfsMount v path fsRoot = (0, v.withMount path mountPoint fsRoot)) ∨
      (∀ mountPoint, ¬ v.Accepts path mountPoint) ∧
        ∃ code < 0, vfsMount v path fsRoot = (code, v) := by
  unfold vfsMount
  by_cases full : maxMounts ≤ v.mounts.length
  · rw [if_pos full]
    exact .inr ⟨fun _ accepts => Nat.not_le.mpr accepts.room full, -1, by decide, rfl⟩
  · rw [if_neg full]
    cases found : vfsLookup v path with
    | none =>
        right
        refine ⟨fun point accepts => ?_, -2, by decide, rfl⟩
        have isPoint := accepts.found
        rw [found] at isPoint
        cases isPoint
    | some mountPoint =>
        dsimp only
        have same : ∀ point, v.Accepts path point → point = mountPoint := by
          intro point accepts
          exact Option.some.inj (accepts.found.symm.trans found)
        by_cases directory : (v.nodes mountPoint).isDirectory = true
        · rw [if_neg (by rw [directory]; decide)]
          by_cases used : (v.mounts.any fun entry => entry.path = cString path) = true
          · rw [if_pos used]
            right
            refine ⟨fun point accepts => ?_, -4, by decide, rfl⟩
            obtain ⟨entry, member, isPath⟩ := List.any_eq_true.mp used
            exact accepts.unused entry member (of_decide_eq_true isPath)
          · rw [if_neg used]
            left
            refine ⟨mountPoint, ⟨Nat.lt_of_not_le full, found, directory, ?_⟩, ?_⟩
            · intro entry member isPath
              exact used (List.any_eq_true.mpr ⟨entry, member, decide_eq_true isPath⟩)
            · rw [Vfs.withMount, Function.update_self]
        · rw [if_pos (Bool.eq_false_iff.mpr directory)]
          right
          refine ⟨fun point accepts => ?_, -3, by decide, rfl⟩
          exact directory (same point accepts ▸ accepts.directory)

theorem vfsUnmount_cases (v : Vfs) (path : List UInt8) :
    (∃ entry front back, v.mounts = front ++ entry :: back ∧ entry.path = cString path ∧
        (∀ other ∈ front, other.path ≠ cString path) ∧
        vfsUnmount v path = (0, v.withoutMount entry (front ++ back))) ∨
      (∀ entry ∈ v.mounts, entry.path ≠ cString path) ∧ vfsUnmount v path = (-1, v) := by
  unfold vfsUnmount
  cases found : v.mounts.find? fun entry => entry.path = cString path with
  | none =>
      right
      refine ⟨fun entry member isPath => ?_, rfl⟩
      exact List.find?_eq_none.mp found entry member (decide_eq_true isPath)
  | some entry =>
      left
      obtain ⟨isPath, front, back, split, before⟩ := List.find?_eq_some_iff_append.mp found
      have notBefore : ∀ other ∈ front, other.path ≠ cString path := by
        intro other member isSame
        have differs := before other member
        rw [decide_eq_true isSame] at differs
        cases differs
      refine ⟨entry, front, back, split, of_decide_eq_true isPath, notBefore, ?_⟩
      have erased : (v.mounts.eraseP fun entry => entry.path = cString path) = front ++ back := by
        rw [split, List.eraseP_append_right]
        · exact congrArg (front ++ ·) (List.eraseP_cons_of_pos isPath)
        · intro other member isSame
          exact notBefore other member (of_decide_eq_true isSame)
      simp only [erased]
      rfl

end Calls

section Flags

theorem setMountpoint (flags : Nat) : (flags ||| vfsMountpoint) &&& vfsMountpoint ≠ 0 ∧
    (flags ||| vfsMountpoint) &&& vfsDirectory = flags &&& vfsDirectory := by
  rw [Nat.and_or_distrib_right, Nat.and_or_distrib_right]
  constructor
  · intro zero
    exact absurd (Nat.or_eq_zero_iff.mp zero).2 (by decide)
  · exact Nat.or_zero _

theorem clearMountpoint (flags : Nat) : flags &&& 0xFFFFFFF7 &&& vfsMountpoint = 0 ∧
    flags &&& 0xFFFFFFF7 &&& vfsDirectory = flags &&& vfsDirectory := by
  rw [Nat.and_assoc, Nat.and_assoc]
  exact ⟨Nat.and_zero flags, rfl⟩

end Flags

section Mount

/-- A path that comes to a node by name comes to no root of a volume, and to no node that
is covered. -/
theorem mountPoint_free (forest : Forest base home root) (mounted : Mounted base home root v)
    (accepts : v.Accepts path mountPoint) (careful : CarefulMount home v path mountPoint fsRoot) :
    mountedOn v.mounts mountPoint = none ∧ (∀ x, mountedOn v.mounts x ≠ some mountPoint) ∧
      home mountPoint ≠ mountPoint := by
  have noRoot : ∀ x, mountedOn v.mounts x ≠ some mountPoint := by
    intro x covers
    obtain ⟨entry, member, _, isRoot⟩ := mountedOn_eq_some covers
    have ends := end_mem_way (mounted.active entry member)
    rw [← (mounted_walk forest mounted _).2] at ends
    have apart := careful.apart entry member
    rw [Vfs.way, mounted.isRoot] at apart
    exact apart (isRoot ▸ ends)
  obtain ⟨front, name, split, _⟩ := careful.last
  have found := accepts.found
  rw [vfsLookup_resolve forest mounted, resolve, forest.isRoot, Option.bind_some, split,
    walk_append] at found
  obtain ⟨dir, _, last⟩ := Option.bind_eq_some_iff.mp found
  obtain ⟨next, stepped, isNext⟩ := Option.bind_eq_some_iff.mp last
  obtain rfl := Option.some.inj isNext
  obtain ⟨raw, isRaw, isPoint⟩ := Option.map_eq_some_iff.mp stepped
  cases covers : mountedOn v.mounts raw with
  | some covering =>
      rw [covers, Option.getD_some] at isPoint
      exact absurd (isPoint ▸ covers) (noRoot raw)
  | none =>
      rw [covers, Option.getD_none] at isPoint
      rw [isPoint] at covers isRaw
      exact ⟨covers, noRoot, (forest_reaches forest isRaw).2⟩

theorem unmounted_dead (careful : CarefulMount home v path mountPoint fsRoot)
    (isRoot : v.root = some root) : ¬ Live home root v.mounts fsRoot := by
  intro live
  have own := careful.volume.1
  cases live with
  | top isTop =>
      apply careful.volume.2
      rw [isRoot, ← isTop, own]
  | mounted member isFsRoot _ =>
      exact careful.unmounted _ member (isFsRoot.symm.trans own)

theorem withMount_point (differ : mountPoint ≠ fsRoot) :
    (v.withMount path mountPoint fsRoot).nodes mountPoint = { v.nodes mountPoint with
      flags := (v.nodes mountPoint).flags ||| vfsMountpoint, ptr := some fsRoot } := by
  simp only [Vfs.withMount, Function.update_of_ne differ, Function.update_self]

theorem withMount_root (differ : mountPoint ≠ fsRoot) :
    (v.withMount path mountPoint fsRoot).nodes fsRoot = { v.nodes fsRoot with
      parent := (v.nodes mountPoint).parent
      name := (v.nodes mountPoint).name.take (vfsMaxName - 1) } := by
  simp only [Vfs.withMount, Function.update_self, Function.update_of_ne differ.symm]

theorem withMount_other {node : Nat} (notPoint : node ≠ mountPoint) (notRoot : node ≠ fsRoot) :
    (v.withMount path mountPoint fsRoot).nodes node = v.nodes node := by
  simp only [Vfs.withMount, Function.update_of_ne notRoot, Function.update_of_ne notPoint]

/-- A mount leaves the type and the operations of all nodes, and the names and parents of
all but the mounted root. -/
theorem withMount_same (path : List UInt8) (differ : mountPoint ≠ fsRoot) (node : Nat) :
    let after := (v.withMount path mountPoint fsRoot).nodes node
    after.isDirectory = (v.nodes node).isDirectory ∧ after.finddir = (v.nodes node).finddir ∧
      (node ≠ fsRoot → after.name = (v.nodes node).name ∧ after.parent = (v.nodes node).parent) := by
  by_cases isPoint : node = mountPoint
  · subst isPoint
    rw [withMount_point differ]
    refine ⟨?_, rfl, fun _ => ⟨rfl, rfl⟩⟩
    simp only [VfsNode.isDirectory, (setMountpoint _).2]
  · by_cases isRoot : node = fsRoot
    · subst isRoot
      rw [withMount_root differ]
      exact ⟨rfl, rfl, fun notRoot => absurd rfl notRoot⟩
    · rw [withMount_other isPoint isRoot]
      exact ⟨rfl, rfl, fun _ => ⟨rfl, rfl⟩⟩

theorem withMount_mounts (careful : CarefulMount home v path mountPoint fsRoot) :
    (v.withMount path mountPoint fsRoot).mounts =
      v.mounts ++ [⟨cString path, mountPoint, fsRoot⟩] := by
  have whole : (cString path).take (vfsMaxPath - 1) = cString path :=
    List.take_of_length_le (Nat.le_pred_of_lt careful.short)
  change v.mounts ++ [⟨(cString path).take (vfsMaxPath - 1), mountPoint, fsRoot⟩] = _
  rw [whole]

theorem mount_active (forest : Forest base home root) (mounted : Mounted base home root v)
    (accepts : v.Accepts path mountPoint) (careful : CarefulMount home v path mountPoint fsRoot)
    (fresh : ∀ entry ∈ v.mounts, entry.mountPoint ≠ mountPoint) :
    ∀ entry ∈ v.mounts ++ [⟨cString path, mountPoint, fsRoot⟩],
      (mountTree base (v.mounts ++ [⟨cString path, mountPoint, fsRoot⟩])).walk root
        (vfsSteps entry.path) = some entry.fsRoot := by
  obtain ⟨free, noRoot, inside⟩ := mountPoint_free forest mounted accepts careful
  have points : ∀ x, x ≠ mountPoint → mountedOn (v.mounts ++ [⟨cString path, mountPoint, fsRoot⟩]) x =
      mountedOn v.mounts x := fun x different => mountedOn_append different
  have roots : ∀ x, x ≠ fsRoot → mountPointOf (v.mounts ++ [⟨cString path, mountPoint, fsRoot⟩]) x =
      mountPointOf v.mounts x := fun x different => mountPointOf_append different
  have rootApart : ∀ steps, fsRoot ∉ (mountTree base v.mounts).way root steps := by
    intro steps member
    exact unmounted_dead careful mounted.isRoot
      (way_within (fun _ live _ _ stepped => mounted_closed forest mounted live stepped)
        (.top forest.top.1) fsRoot member)
  intro entry member
  rcases List.mem_append.mp member with old | new
  · have apart := careful.apart entry old
    rw [Vfs.way, mounted.isRoot] at apart
    dsimp only at apart
    rw [(mounted_walk forest mounted _).2] at apart
    rw [← mounted.active entry old]
    apply (walk_frame points roots _ (rootApart _)).1
    rwa [free, Option.getD_none]
  · obtain rfl := List.mem_singleton.mp new
    obtain ⟨front, name, split, notBefore⟩ := careful.last
    have apart := notBefore root mounted.isRoot
    have found := accepts.found
    rw [(mounted_walk forest mounted _).2] at apart
    rw [vfsLookup_resolve forest mounted, resolve, forest.isRoot, Option.bind_some, split] at found
    rw [vfsSteps_cString, split]
    exact walk_covered points roots free noRoot (mountedOn_new fresh) apart (rootApart _) found

theorem mount_mounted (forest : Forest base home root) (mounted : Mounted base home root v)
    (accepts : v.Accepts path mountPoint) (careful : CarefulMount home v path mountPoint fsRoot) :
    Mounted base home root (v.withMount path mountPoint fsRoot) := by
  obtain ⟨free, _, inside⟩ := mountPoint_free forest mounted accepts careful
  have own := careful.volume.1
  have differ : mountPoint ≠ fsRoot := by
    intro same
    exact inside (same ▸ own)
  have notTop : root ≠ fsRoot := by
    intro same
    exact careful.volume.2 (same ▸ mounted.isRoot)
  have fresh : ∀ entry ∈ v.mounts, entry.mountPoint ≠ mountPoint := by
    intro entry member same
    have covers := mountedOn_mem mounted.points member
    rw [same, free] at covers
    cases covers
  have isMounts := withMount_mounts careful
  have same := fun node => withMount_same (v := v) path differ node
  have notRoot : ∀ node, home node ≠ node → node ≠ fsRoot := by
    intro node notOwn isRoot
    exact notOwn (isRoot ▸ own)
  refine ⟨mounted.isRoot, ?_, ?_, ?_, ?_, ?_, ?_, ?_, ?_, ?_, ?_, ?_, ?_⟩
  · intro node
    exact (same node).1.trans (mounted.directory node)
  · intro node
    exact (same node).2.1.trans (mounted.finddir node)
  · intro node
    rw [isMounts]
    by_cases isPoint : node = mountPoint
    · subst isPoint
      rw [mountedOn_new fresh, Vfs.mounted, withMount_point differ,
        if_pos (setMountpoint (v.nodes node).flags).1]
    · rw [mountedOn_append isPoint, ← mounted.mounted node]
      by_cases isRoot : node = fsRoot
      · rw [isRoot, Vfs.mounted, Vfs.mounted, withMount_root differ]
      · rw [Vfs.mounted, Vfs.mounted, withMount_other isPoint isRoot]
  · intro node notOwn
    exact ((same node).2.2 (notRoot node notOwn)).1.trans (mounted.name node notOwn)
  · intro node notOwn
    exact ((same node).2.2 (notRoot node notOwn)).2.trans (mounted.parent node notOwn)
  · exact ((same root).2.2 notTop).2.trans mounted.top
  · intro other member
    rw [isMounts] at member
    rcases List.mem_append.mp member with old | new
    · exact ((same other.fsRoot).2.2 (careful.unmounted other old)).2.trans
        (mounted.rootParent other old)
    · obtain rfl := List.mem_singleton.mp new
      rw [withMount_root differ]
      exact mounted.parent mountPoint inside
  · rw [isMounts]
    exact nodup_key_append MountEntry.mountPoint mounted.points fresh
  · rw [isMounts]
    exact nodup_key_append MountEntry.fsRoot mounted.roots careful.unmounted
  · rw [isMounts]
    exact nodup_key_append MountEntry.path mounted.paths accepts.unused
  · intro other member
    rw [isMounts] at member
    rcases List.mem_append.mp member with old | new
    · exact mounted.entries other old
    · obtain rfl := List.mem_singleton.mp new
      exact ⟨own, notTop.symm, inside⟩
  · rw [isMounts]
    exact mount_active forest mounted accepts careful fresh

end Mount

section Unmount

variable {entry : MountEntry} {front back : List MountEntry}

theorem withoutMount_same (entry : MountEntry) (mounts : List MountEntry) (node : Nat) :
    let after := (v.withoutMount entry mounts).nodes node
    after.isDirectory = (v.nodes node).isDirectory ∧ after.finddir = (v.nodes node).finddir ∧
      after.name = (v.nodes node).name ∧ after.parent = (v.nodes node).parent := by
  simp only [Vfs.withoutMount]
  by_cases isPoint : node = entry.mountPoint
  · rw [isPoint, Function.update_self]
    refine ⟨?_, rfl, rfl, rfl⟩
    simp only [VfsNode.isDirectory, (clearMountpoint _).2]
  · rw [Function.update_of_ne isPoint]
    exact ⟨rfl, rfl, rfl, rfl⟩

theorem withoutMount_mounted (entry : MountEntry) (mounts : List MountEntry) (node : Nat) :
    (v.withoutMount entry mounts).mounted node =
      if node = entry.mountPoint then none else v.mounted node := by
  by_cases isPoint : node = entry.mountPoint
  · rw [if_pos isPoint, isPoint]
    simp only [Vfs.mounted, Vfs.withoutMount, Function.update_self, (clearMountpoint _).1, ne_eq,
      not_true_eq_false, if_false]
  · simp only [Vfs.mounted, Vfs.withoutMount, Function.update_of_ne isPoint, if_neg isPoint]

theorem unmount_mounted (forest : Forest base home root) (mounted : Mounted base home root v)
    (split : v.mounts = front ++ entry :: back)
    (apart : ∀ other ∈ front ++ back, entry.fsRoot ∉ v.way other.path) :
    Mounted base home root (v.withoutMount entry (front ++ back)) := by
  have member : entry ∈ v.mounts := split ▸ List.mem_append_right front (List.mem_cons_self ..)
  have kept : ∀ other ∈ front ++ back, other ∈ v.mounts := by
    intro other among
    rw [split]
    exact mem_unerased among
  have shorter : (front ++ back).Sublist v.mounts := by
    rw [split]
    exact List.Sublist.append_left (List.sublist_cons_self entry back) front
  have points : ∀ x, x ≠ entry.mountPoint →
      mountedOn (front ++ back) x = mountedOn v.mounts x := by
    intro x different
    rw [split]
    exact mountedOn_erase different
  have same := fun node => withoutMount_same (v := v) entry (front ++ back) node
  refine ⟨mounted.isRoot, ?_, ?_, ?_, ?_, ?_, ?_, ?_, ?_, ?_, ?_, ?_, ?_⟩
  · intro node
    exact (same node).1.trans (mounted.directory node)
  · intro node
    exact (same node).2.1.trans (mounted.finddir node)
  · intro node
    change _ = mountedOn (front ++ back) node
    rw [withoutMount_mounted]
    by_cases isPoint : node = entry.mountPoint
    · have nodup := mounted.points
      rw [split] at nodup
      rw [if_pos isPoint, mountedOn_eq_none]
      rw [isPoint]
      exact nodup_key_erase MountEntry.mountPoint nodup
    · rw [if_neg isPoint, points node isPoint, mounted.mounted node]
  · intro node notOwn
    exact (same node).2.2.1.trans (mounted.name node notOwn)
  · intro node notOwn
    exact (same node).2.2.2.trans (mounted.parent node notOwn)
  · exact (same root).2.2.2.trans mounted.top
  · intro other among
    exact (same other.fsRoot).2.2.2.trans (mounted.rootParent other (kept other among))
  · exact (shorter.map _).nodup mounted.points
  · exact (shorter.map _).nodup mounted.roots
  · exact (shorter.map _).nodup mounted.paths
  · intro other among
    exact mounted.entries other (kept other among)
  · intro other among
    have outside := apart other among
    rw [Vfs.way, mounted.isRoot] at outside
    dsimp only at outside
    rw [(mounted_walk forest mounted _).2] at outside
    rw [← mounted.active other (kept other among)]
    apply (walk_frame points ?_ ?_ outside).1
    · intro x different
      rw [split]
      exact mountPointOf_erase different
    · rwa [mountedOn_mem mounted.points member, Option.getD_some]

end Unmount

section Runs

variable {calls rest front : List MountCall}

theorem step_mounted (forest : Forest base home root) (mounted : Mounted base home root v)
    {call : MountCall} (careful : MountCareful home v call) :
    Mounted base home root (mountStep v call).2 := by
  cases call with
  | mount path fsRoot =>
      rcases vfsMount_cases v path fsRoot with ⟨mountPoint, accepts, done⟩ | ⟨_, code, _, done⟩
      · rw [mountStep, done]
        exact mount_mounted forest mounted accepts (careful mountPoint accepts)
      · rw [mountStep, done]
        exact mounted
  | unmount path =>
      rcases vfsUnmount_cases v path with ⟨entry, front, back, split, isPath, _, done⟩ | ⟨_, done⟩
      · rw [mountStep, done]
        apply unmount_mounted forest mounted split
        intro other among
        have nodup := mounted.paths
        rw [split] at nodup
        apply careful entry (split ▸ List.mem_append_right front (List.mem_cons_self ..)) isPath
          other (split ▸ mem_unerased among)
        rw [← isPath]
        exact nodup_key_erase MountEntry.path nodup other among
      · rw [mountStep, done]
        exact mounted

theorem forest_mounted (forest : Forest base home root) : Mounted base home root base := by
  have none := forest.unmounted
  refine ⟨forest.isRoot, fun _ => rfl, fun _ => rfl, ?_, fun _ _ => rfl, fun _ _ => rfl,
    forest.top.2, ?_, ?_, ?_, ?_, ?_, ?_⟩
  · intro node
    rw [Vfs.mounted, if_neg (not_not.mpr (forest.plain node)), none]
    rfl
  all_goals rw [none]
  · intro entry member
    cases member
  · exact List.nodup_nil
  · exact List.nodup_nil
  · exact List.nodup_nil
  · intro entry member
    cases member
  · intro entry member
    cases member

theorem run_mounted (forest : Forest base home root) (mounted : Mounted base home root v)
    (careful : CarefulRun home v calls) : Mounted base home root (mountRun v calls) := by
  induction calls generalizing v with
  | nil => exact mounted
  | cons call rest ih => exact ih (step_mounted forest mounted careful.1) careful.2

theorem mountRun_append : mountRun v (front ++ rest) = mountRun (mountRun v front) rest := by
  rw [mountRun, mountRun, mountRun, List.foldl_append]

theorem carefulRun_append (careful : CarefulRun home v (front ++ rest)) :
    CarefulRun home v front ∧ CarefulRun home (mountRun v front) rest := by
  induction front generalizing v with
  | nil => exact ⟨trivial, careful⟩
  | cons call later ih =>
      obtain ⟨first, last⟩ := ih careful.2
      exact ⟨⟨careful.1, first⟩, last⟩

def MountCall.Unmounts (path : List UInt8) : MountCall → Prop
  | .mount _ _ => False
  | .unmount other => cString other = cString path

theorem step_keeps {entry : MountEntry} (member : entry ∈ v.mounts)
    (isPath : entry.path = cString path) {call : MountCall} (spares : ¬ call.Unmounts path) :
    entry ∈ (mountStep v call).2.mounts := by
  cases call with
  | mount other fsRoot =>
      rcases vfsMount_cases v other fsRoot with ⟨mountPoint, _, done⟩ | ⟨_, code, _, done⟩
      · rw [mountStep, done]
        exact List.mem_append_left _ member
      · rw [mountStep, done]
        exact member
  | unmount other =>
      rcases vfsUnmount_cases v other with ⟨removed, front, back, split, isOther, _, done⟩ | ⟨_, done⟩
      · rw [mountStep, done]
        change entry ∈ front ++ back
        rw [split] at member
        rcases List.mem_append.mp member with before | after
        · exact List.mem_append_left _ before
        · rcases List.mem_cons.mp after with rfl | later
          · exact absurd (isOther.symm.trans isPath) spares
          · exact List.mem_append_right front later
      · rw [mountStep, done]
        exact member

theorem run_keeps {entry : MountEntry} (member : entry ∈ v.mounts)
    (isPath : entry.path = cString path) (spares : ∀ call ∈ rest, ¬ call.Unmounts path) :
    entry ∈ (mountRun v rest).mounts := by
  induction rest generalizing v with
  | nil => exact member
  | cons call later ih =>
      apply ih (step_keeps member isPath (spares call (List.mem_cons_self ..)))
      intro other among
      exact spares other (List.mem_cons_of_mem _ among)

/-- A mount that returns 0 is in the table until its path is unmounted. -/
theorem mounted_entry {front rest : List MountCall}
    (careful : CarefulRun home base (front ++ .mount path fsRoot :: rest))
    (succeeds : (vfsMount (mountRun base front) path fsRoot).1 = 0)
    (spares : ∀ call ∈ rest, ¬ call.Unmounts path) :
    ∃ entry ∈ (mountRun base (front ++ .mount path fsRoot :: rest)).mounts,
      entry.path = cString path ∧ entry.fsRoot = fsRoot := by
  obtain ⟨_, last⟩ := carefulRun_append careful
  rcases vfsMount_cases (mountRun base front) path fsRoot with
    ⟨mountPoint, accepts, done⟩ | ⟨_, code, negative, done⟩
  · refine ⟨⟨cString path, mountPoint, fsRoot⟩, ?_, rfl, rfl⟩
    rw [mountRun_append]
    apply run_keeps (v := (mountStep (mountRun base front) (.mount path fsRoot)).2) _ rfl spares
    rw [mountStep, done, withMount_mounts (last.1 mountPoint accepts)]
    exact List.mem_append_right _ (List.mem_singleton_self _)
  · rw [done] at succeeds
    exact absurd succeeds (Int.ne_of_lt negative)

theorem step_failed {call : MountCall} (fails : (mountStep v call).1 ≠ 0) :
    (mountStep v call).2 = v := by
  cases call with
  | mount path fsRoot =>
      rcases vfsMount_cases v path fsRoot with ⟨_, _, done⟩ | ⟨_, _, _, done⟩
      · rw [mountStep, done] at fails
        exact absurd rfl fails
      · rw [mountStep, done]
  | unmount path =>
      rcases vfsUnmount_cases v path with ⟨_, _, _, _, _, _, done⟩ | ⟨_, done⟩
      · rw [mountStep, done] at fails
        exact absurd rfl fails
      · rw [mountStep, done]

theorem unmount_filter (mounted : Mounted base home root v) {entry : MountEntry}
    (member : entry ∈ v.mounts) (isPath : entry.path = cString path) :
    (vfsUnmount v path).1 = 0 ∧
      (vfsUnmount v path).2.mounts = v.mounts.filter (·.path ≠ cString path) := by
  rcases vfsUnmount_cases v path with ⟨removed, front, back, split, isRemoved, _, done⟩ | ⟨none, _⟩
  · rw [done]
    refine ⟨rfl, ?_⟩
    change front ++ back = _
    have nodup := mounted.paths
    rw [split] at nodup ⊢
    have others := nodup_key_erase MountEntry.path nodup
    rw [List.filter_append, List.filter_cons_of_neg, ← List.filter_append, List.filter_eq_self.mpr]
    · intro other among
      exact decide_eq_true (isRemoved ▸ others other among)
    · intro differs
      exact of_decide_eq_true differs isRemoved
  · exact absurd isPath (none entry member)

/-- While mounts nest, every path means what the active mounts say: a path that has been
mounted leads to its root until it is unmounted, then every path means what it meant
before, and a call that fails changes nothing. -/
theorem mount_namespace (forest : Forest base home root) {calls : List MountCall}
    (careful : CarefulRun home base calls) :
    let v := mountRun base calls
    (∀ query, vfsLookup v query = resolve base v.mounts query) ∧
    (∀ front path fsRoot rest, calls = front ++ .mount path fsRoot :: rest →
      (vfsMount (mountRun base front) path fsRoot).1 = 0 →
      (∀ call ∈ rest, ¬ call.Unmounts path) → vfsLookup v path = some fsRoot) ∧
    (∀ front path fsRoot rest, calls = (front ++ .mount path fsRoot :: rest) ++ [.unmount path] →
      (vfsMount (mountRun base front) path fsRoot).1 = 0 →
      (∀ call ∈ rest, ¬ call.Unmounts path) →
      let before := mountRun base (front ++ .mount path fsRoot :: rest)
      (vfsUnmount before path).1 = 0 ∧
        v.mounts = before.mounts.filter (·.path ≠ cString path) ∧
        (v.mounts = (mountRun base front).mounts →
          ∀ query, vfsLookup v query = vfsLookup (mountRun base front) query)) ∧
    (∀ front call rest, calls = front ++ call :: rest →
      (mountStep (mountRun base front) call).1 ≠ 0 →
      ∀ query, vfsLookup (mountRun base (front ++ [call])) query =
        vfsLookup (mountRun base front) query) := by
  have start := forest_mounted forest
  have lookups : ∀ prior, CarefulRun home base prior → ∀ query,
      vfsLookup (mountRun base prior) query = resolve base (mountRun base prior).mounts query := by
    intro prior carefulPrior query
    exact vfsLookup_resolve forest (run_mounted forest start carefulPrior) query
  refine ⟨lookups calls careful, ?_, ?_, ?_⟩
  · intro front path fsRoot rest isCalls succeeds spares
    subst isCalls
    obtain ⟨entry, member, isPath, isRoot⟩ := mounted_entry careful succeeds spares
    have active := (run_mounted forest start careful).active entry member
    rw [isPath, vfsSteps_cString, isRoot] at active
    rw [lookups _ careful, resolve, forest.isRoot]
    exact active
  · intro front path fsRoot rest isCalls succeeds spares before
    subst isCalls
    have carefulBefore := (carefulRun_append careful).1
    obtain ⟨entry, member, isPath, _⟩ := mounted_entry carefulBefore succeeds spares
    obtain ⟨done, table⟩ :=
      unmount_filter (run_mounted forest start carefulBefore) member isPath
    refine ⟨done, ?_, fun same query => ?_⟩
    · rw [mountRun_append]
      exact table
    · rw [lookups _ careful, lookups _ (carefulRun_append carefulBefore).1, same]
  · intro front call rest _ fails query
    rw [mountRun_append]
    change vfsLookup (mountStep (mountRun base front) call).2 query = _
    rw [step_failed fails]

/-- A ramfs with the directory `/a`, and two other volumes. -/
def threeVolumes : Vfs where
  nodes node :=
    { name := if node = 1 then [0x61] else [slash], flags := vfsDirectory, length := 0
      inode := node, parent := if node = 1 then some 0 else none, ptr := none
      finddir := .ramfs (if node = 0 then [1] else []) }
  root := some 0
  mounts := []

theorem threeVolumes_forest : Forest threeVolumes (fun node => if node = 1 then 0 else node) 0 := by
  refine ⟨rfl, rfl, ?_, ⟨rfl, rfl⟩, ?_, ?_⟩
  · intro node
    change vfsDirectory &&& vfsMountpoint = 0
    decide
  · intro node next reaches
    by_cases isTop : node = 0
    · subst isTop
      obtain rfl : next = 1 := List.mem_singleton.mp reaches
      decide
    · simp [threeVolumes, Finddir.Reaches, isTop] at reaches
  · intro node up notOwn isParent
    by_cases isChild : node = 1
    · subst isChild
      obtain rfl : 0 = up := Option.some.inj isParent
      rfl
    · simp [isChild] at notOwn

/-- A mount on the root returns 0, and the root still means what it meant. -/
theorem root_mount_hidden :
    (vfsMount threeVolumes [slash] 2).1 = 0 ∧
      vfsLookup (vfsMount threeVolumes [slash] 2).2 [slash] = some 0 := by
  constructor
  · rfl
  · rfl

theorem steps_slash_a : vfsSteps [slash, 0x61] = [.child [0x61]] := by
  have last : (nextComponent [0x61]).2 = [] := rfl
  change pathSteps [0x61] = _
  rw [pathSteps, dif_neg (by decide)]
  dsimp only
  rw [if_neg (by decide), if_neg (by decide), last, pathSteps, dif_pos rfl]
  rfl

theorem mount_namespace_directory :
    vfsLookup (mountRun threeVolumes [.mount [slash, 0x61] 2]) [slash, 0x61] = some 2 := by
  have lookup : vfsLookup threeVolumes [slash, 0x61] = some 1 := by
    rw [vfsLookup_walk, steps_slash_a]
    rfl
  have careful : CarefulRun (fun node => if node = 1 then 0 else node) threeVolumes
      [.mount [slash, 0x61] 2] := by
    refine ⟨fun mountPoint accepts => ?_, trivial⟩
    obtain rfl : 1 = mountPoint := Option.some.inj (lookup.symm.trans accepts.found)
    refine ⟨by decide, ⟨_, rfl⟩, ⟨rfl, by decide⟩, ?_, ⟨[], [0x61], steps_slash_a, ?_⟩, ?_⟩
    · intro entry member
      cases member
    · intro root isRoot
      obtain rfl := Option.some.inj isRoot
      decide
    · intro entry member
      cases member
  apply (mount_namespace threeVolumes_forest careful).2.1 [] [slash, 0x61] 2 [] rfl
  · change (vfsMount threeVolumes [slash, 0x61] 2).1 = 0
    rw [vfsMount, lookup]
    rfl
  · intro call member
    cases member

end Runs

end ZurichOS
