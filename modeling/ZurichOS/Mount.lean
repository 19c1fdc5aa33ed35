import ZurichOS.MountCore
import ZurichOS.PathWalk
import Mathlib.Data.List.Nodup
import Mathlib.Data.List.TakeWhile

set_option linter.all false

/-!
The name space: what a path means is a walk through the trees of the volumes, each covering
the directory that it is mounted on.  The flags and pointers of the nodes agree with that
as long as mounts nest.
-/

namespace ZurichOS

open ByteBuffer PathWalk

section Paths

/-- The components of a path; `.` stays where it is. -/
def pathSteps (path : List UInt8) : List (Step (List UInt8)) :=
  if nonempty : path = [] then []
  else
    let component := (nextComponent path).1
    let rest := (nextComponent path).2
    have := nextComponent_shorter nonempty
    if component = dot then pathSteps rest
    else (if component = dotDot then .up else .child component) :: pathSteps rest
termination_by path.length

def vfsSteps (path : List UInt8) : List (Step (List UInt8)) :=
  let path := cString path
  pathSteps (if path.head? = some slash then path.tail else path)

def Vfs.tree (v : Vfs) : Tree Nat (List UInt8) where
  parent node := (v.nodes node).parent
  child node name := (vfsFinddir v node name).map fun next => (v.mounted next).getD next

def Vfs.way (v : Vfs) (path : List UInt8) : List Nat :=
  match v.root with
  | none => []
  | some root => v.tree.way root (vfsSteps path)

variable {v : Vfs} {path : List UInt8}

theorem lookupFrom_walk (current : Nat) :
    v.lookupFrom current path = v.tree.walk current (pathSteps path) := by
  induction path using pathSteps.induct generalizing current with
  | case1 =>
      rw [Vfs.lookupFrom, pathSteps]
      rfl
  | case2 path nonempty component rest shorter isDot ih =>
      rw [Vfs.lookupFrom, pathSteps, dif_neg nonempty, dif_neg nonempty]
      dsimp only
      rw [if_pos isDot, if_pos isDot]
      exact ih current
  | case3 path nonempty component rest shorter notDot ih =>
      rw [Vfs.lookupFrom, pathSteps, dif_neg nonempty, dif_neg nonempty]
      dsimp only
      rw [if_neg notDot, if_neg notDot, Tree.walk]
      by_cases isUp : (nextComponent path).1 = dotDot
      · rw [if_pos isUp, if_pos isUp]
        exact ih _
      · rw [if_neg isUp, if_neg isUp]
        simp only [Tree.step, Vfs.tree]
        by_cases directory : (v.nodes current).isDirectory
        · rw [if_pos directory]
          cases vfsFinddir v current (nextComponent path).1 with
          | none => rfl
          | some next => exact ih _
        · rw [if_neg directory, vfsFinddir, if_neg directory]
          rfl

theorem vfsLookup_walk :
    vfsLookup v path = v.root.bind fun root => v.tree.walk root (vfsSteps path) := by
  rw [vfsLookup]
  congr 1
  funext root
  dsimp only
  split
  · rename_i isRoot
    rw [vfsSteps, isRoot]
    rw [show pathSteps (if [slash].head? = some slash then [slash].tail else [slash]) = [] by
      rw [List.head?_cons, if_pos rfl, List.tail_cons, pathSteps, dif_pos rfl]]
    rfl
  · exact lookupFrom_walk root

theorem vfsSteps_cString : vfsSteps (cString path) = vfsSteps path := by
  have once : cString (cString path) = cString path := List.takeWhile_idem
  rw [vfsSteps, vfsSteps, once]

end Paths

section Tables

/-- The root that is mounted on a node, and the node that a root is mounted on. -/
def mountedOn (mounts : List MountEntry) (node : Nat) : Option Nat :=
  (mounts.find? fun entry => entry.mountPoint = node).map (·.fsRoot)

def mountPointOf (mounts : List MountEntry) (fsRoot : Nat) : Option Nat :=
  (mounts.find? fun entry => entry.fsRoot = fsRoot).map (·.mountPoint)

variable {mounts front back : List MountEntry} {entry : MountEntry} {node : Nat}

section Keys

variable {Key : Type} [DecidableEq Key] (key : MountEntry → Key) {k : Key}

theorem find_key (apart : (mounts.map key).Nodup) (member : entry ∈ mounts) :
    mounts.find? (fun other => key other = key entry) = some entry := by
  induction mounts with
  | nil => cases member
  | cons first rest ih =>
      rw [List.map_cons, List.nodup_cons] at apart
      rcases List.mem_cons.mp member with rfl | later
      · exact List.find?_cons_of_pos (decide_eq_true rfl)
      · rw [List.find?_cons_of_neg, ih apart.2 later]
        intro same
        rw [of_decide_eq_true same] at apart
        exact apart.1 (List.mem_map_of_mem later)

theorem find_key_append (different : k ≠ key entry) :
    (mounts ++ [entry]).find? (fun other => key other = k) =
      mounts.find? fun other => key other = k := by
  rw [List.find?_append, List.find?_cons_of_neg, List.find?_nil, Option.or_none]
  intro same
  exact different (of_decide_eq_true same).symm

theorem find_key_new (fresh : ∀ other ∈ mounts, key other ≠ key entry) :
    (mounts ++ [entry]).find? (fun other => key other = key entry) = some entry := by
  rw [List.find?_append, List.find?_eq_none.mpr, Option.none_or]
  · exact List.find?_cons_of_pos (decide_eq_true rfl)
  · intro other member same
    exact fresh other member (of_decide_eq_true same)

theorem find_key_erase (different : k ≠ key entry) :
    (front ++ back).find? (fun other => key other = k) =
      (front ++ entry :: back).find? fun other => key other = k := by
  rw [List.find?_append, List.find?_append, List.find?_cons_of_neg]
  intro same
  exact different (of_decide_eq_true same).symm

omit [DecidableEq Key] in
theorem nodup_key_append (apart : (mounts.map key).Nodup)
    (fresh : ∀ other ∈ mounts, key other ≠ key entry) : ((mounts ++ [entry]).map key).Nodup := by
  rw [List.map_append, List.nodup_append]
  refine ⟨apart, List.nodup_singleton _, ?_⟩
  intro used member new isNew same
  obtain ⟨other, found, rfl⟩ := List.mem_map.mp member
  obtain rfl := List.mem_singleton.mp isNew
  exact fresh other found same

omit [DecidableEq Key] in
theorem nodup_key_erase (apart : ((front ++ entry :: back).map key).Nodup) :
    ∀ other ∈ front ++ back, key other ≠ key entry := by
  rw [List.map_append, List.map_cons, List.nodup_middle, List.nodup_cons,
    ← List.map_append] at apart
  intro other among same
  exact apart.1 (same ▸ List.mem_map_of_mem among)

end Keys

theorem mem_unerased {other : MountEntry} (among : other ∈ front ++ back) :
    other ∈ front ++ entry :: back := by
  rcases List.mem_append.mp among with before | after
  · exact List.mem_append_left _ before
  · exact List.mem_append_right front (List.mem_cons_of_mem _ after)

theorem mountedOn_append (different : node ≠ entry.mountPoint) :
    mountedOn (mounts ++ [entry]) node = mountedOn mounts node :=
  congrArg _ (find_key_append MountEntry.mountPoint different)

theorem mountPointOf_append (different : node ≠ entry.fsRoot) :
    mountPointOf (mounts ++ [entry]) node = mountPointOf mounts node :=
  congrArg _ (find_key_append MountEntry.fsRoot different)

theorem mountedOn_erase (different : node ≠ entry.mountPoint) :
    mountedOn (front ++ back) node = mountedOn (front ++ entry :: back) node :=
  congrArg _ (find_key_erase MountEntry.mountPoint different)

theorem mountPointOf_erase (different : node ≠ entry.fsRoot) :
    mountPointOf (front ++ back) node = mountPointOf (front ++ entry :: back) node :=
  congrArg _ (find_key_erase MountEntry.fsRoot different)

theorem mountedOn_mem (apart : (mounts.map (·.mountPoint)).Nodup) (member : entry ∈ mounts) :
    mountedOn mounts entry.mountPoint = some entry.fsRoot := by
  rw [mountedOn, find_key MountEntry.mountPoint apart member]
  rfl

theorem mountedOn_new (fresh : ∀ other ∈ mounts, other.mountPoint ≠ entry.mountPoint) :
    mountedOn (mounts ++ [entry]) entry.mountPoint = some entry.fsRoot := by
  rw [mountedOn, find_key_new MountEntry.mountPoint fresh]
  rfl

theorem mountedOn_eq_none (absent : ∀ other ∈ mounts, other.mountPoint ≠ node) :
    mountedOn mounts node = none := by
  rw [mountedOn, List.find?_eq_none.mpr, Option.map_none]
  intro other member same
  exact absent other member (of_decide_eq_true same)

end Tables

def Finddir.Reaches (finddir : Finddir) (next : Nat) : Prop :=
  match finddir with
  | .ramfs children => next ∈ children
  | .other find => ∃ name, find name = some next

/-- The volumes before any mount: `home` gives the root of the tree of each node, and no
root is the entry of a directory. -/
structure Forest (base : Vfs) (home : Nat → Nat) (root : Nat) : Prop where
  isRoot : base.root = some root
  unmounted : base.mounts = []
  plain : ∀ node, (base.nodes node).flags &&& vfsMountpoint = 0
  top : home root = root ∧ (base.nodes root).parent = none
  child : ∀ node next, (base.nodes node).finddir.Reaches next →
    home next = home node ∧ home next ≠ next
  parent : ∀ node up, home node ≠ node → (base.nodes node).parent = some up → home up = home node

/-- The trees, each at its mount point. -/
def mountTree (base : Vfs) (mounts : List MountEntry) : Tree Nat (List UInt8) :=
  base.tree.covered (mountedOn mounts) (mountPointOf mounts)

/-- What a path means while these mounts are active. -/
def resolve (base : Vfs) (mounts : List MountEntry) (path : List UInt8) : Option Nat :=
  base.root.bind fun root => (mountTree base mounts).walk root (vfsSteps path)

/-- The nodes of the trees that are mounted, one in the other, on the tree of the root. -/
inductive Live (home : Nat → Nat) (root : Nat) (mounts : List MountEntry) : Nat → Prop where
  | top {node : Nat} : home node = root → Live home root mounts node
  | mounted {node : Nat} {entry : MountEntry} : entry ∈ mounts → home node = entry.fsRoot →
      Live home root mounts entry.mountPoint → Live home root mounts node

/-- The nodes after some calls: the mount table says how they differ from the nodes before. -/
structure Mounted (base : Vfs) (home : Nat → Nat) (root : Nat) (v : Vfs) : Prop where
  isRoot : v.root = some root
  directory : ∀ node, (v.nodes node).isDirectory = (base.nodes node).isDirectory
  finddir : ∀ node, (v.nodes node).finddir = (base.nodes node).finddir
  mounted : ∀ node, v.mounted node = mountedOn v.mounts node
  name : ∀ node, home node ≠ node → (v.nodes node).name = (base.nodes node).name
  parent : ∀ node, home node ≠ node → (v.nodes node).parent = (base.nodes node).parent
  top : (v.nodes root).parent = none
  rootParent : ∀ entry ∈ v.mounts,
    (v.nodes entry.fsRoot).parent = (base.nodes entry.mountPoint).parent
  points : (v.mounts.map (·.mountPoint)).Nodup
  roots : (v.mounts.map (·.fsRoot)).Nodup
  paths : (v.mounts.map (·.path)).Nodup
  entries : ∀ entry ∈ v.mounts, home entry.fsRoot = entry.fsRoot ∧ entry.fsRoot ≠ root ∧
    home entry.mountPoint ≠ entry.mountPoint
  active : ∀ entry ∈ v.mounts,
    (mountTree base v.mounts).walk root (vfsSteps entry.path) = some entry.fsRoot

variable {base v : Vfs} {home : Nat → Nat} {root node : Nat} {mounts : List MountEntry}
  {entry : MountEntry}

section Lookups

theorem mountedOn_eq_some {fsRoot : Nat} (found : mountedOn mounts node = some fsRoot) :
    ∃ entry ∈ mounts, entry.mountPoint = node ∧ entry.fsRoot = fsRoot := by
  obtain ⟨entry, search, isRoot⟩ := Option.map_eq_some_iff.mp found
  have isPoint := List.find?_some search
  exact ⟨entry, List.mem_of_find?_eq_some search, of_decide_eq_true isPoint, isRoot⟩

theorem mountPointOf_eq_some {point : Nat} (found : mountPointOf mounts node = some point) :
    ∃ entry ∈ mounts, entry.fsRoot = node ∧ entry.mountPoint = point := by
  obtain ⟨entry, search, isPoint⟩ := Option.map_eq_some_iff.mp found
  have isRoot := List.find?_some search
  exact ⟨entry, List.mem_of_find?_eq_some search, of_decide_eq_true isRoot, isPoint⟩

theorem mountPointOf_eq_none (none : mountPointOf mounts node = none) :
    ∀ entry ∈ mounts, entry.fsRoot ≠ node := by
  intro entry member same
  have search := List.find?_eq_none.mp (Option.map_eq_none_iff.mp none) entry member
  exact search (decide_eq_true same)

theorem Live.congr {other : Nat} (live : Live home root mounts node)
    (same : home other = home node) : Live home root mounts other := by
  cases live with
  | top isTop => exact .top (same.trans isTop)
  | mounted member isRoot below => exact .mounted member (same.trans isRoot) below

theorem forest_child (forest : Forest base home root) (node : Nat) (name : List UInt8) :
    base.tree.child node name =
      if (base.nodes node).isDirectory then base.finddir node name else none := by
  have plain : ∀ next, base.mounted next = none := by
    intro next
    rw [Vfs.mounted, if_neg (not_not.mpr (forest.plain next))]
  simp only [Vfs.tree, vfsFinddir, plain, Option.getD_none, Option.map_id']

theorem finddir_reaches {v : Vfs} {next : Nat} {name : List UInt8}
    (found : v.finddir node name = some next) : (v.nodes node).finddir.Reaches next := by
  rw [Vfs.finddir] at found
  cases isFinddir : (v.nodes node).finddir with
  | ramfs children =>
      rw [isFinddir] at found
      exact List.mem_of_find?_eq_some found
  | other find =>
      rw [isFinddir] at found
      exact ⟨name, found⟩

theorem forest_reaches (forest : Forest base home root) {next : Nat} {name : List UInt8}
    (found : base.tree.child node name = some next) :
    home next = home node ∧ home next ≠ next := by
  rw [forest_child forest] at found
  split at found
  · exact forest.child node next (finddir_reaches found)
  · cases found

/-- A root that is mounted is live if its mount point is. -/
theorem live_mountPoint (mounted : Mounted base home root v) (live : Live home root v.mounts node)
    (member : entry ∈ v.mounts) (isRoot : entry.fsRoot = node) :
    Live home root v.mounts entry.mountPoint := by
  have own : home node = node := isRoot ▸ (mounted.entries entry member).1
  cases live with
  | top isTop =>
      have notTop := (mounted.entries entry member).2.1
      exact absurd (isRoot.trans (own.symm.trans isTop)) notTop
  | mounted other otherRoot below =>
      rename_i found
      have same : found = entry := by
        apply List.inj_on_of_nodup_map mounted.roots other member
        rw [isRoot, ← otherRoot, own]
      rwa [same] at below

theorem mounted_finddir (forest : Forest base home root) (mounted : Mounted base home root v)
    (node : Nat) (name : List UInt8) : v.finddir node name = base.finddir node name := by
  rw [Vfs.finddir, Vfs.finddir, mounted.finddir]
  cases isFinddir : (base.nodes node).finddir with
  | other find => rfl
  | ramfs children =>
      have reaches := forest.child node
      rw [isFinddir] at reaches
      dsimp only
      rw [ramfsFinddir, ramfsFinddir, ← List.head?_filter, ← List.head?_filter]
      congr 1
      apply List.filter_congr
      intro child member
      rw [mounted.name child (reaches child member).2]

/-- On live nodes, the code takes the steps of the trees at their mount points. -/
theorem mounted_step (forest : Forest base home root) (mounted : Mounted base home root v)
    (live : Live home root v.mounts node) (step : Step (List UInt8)) :
    v.tree.step node step = (mountTree base v.mounts).step node step := by
  cases step with
  | up =>
      simp only [Tree.step, mountTree, Tree.covered]
      congr 2
      change (v.nodes node).parent = _
      cases isRoot : mountPointOf v.mounts node with
      | some point =>
          obtain ⟨entry, member, rfl, rfl⟩ := mountPointOf_eq_some isRoot
          exact mounted.rootParent entry member
      | none =>
          rw [Option.map_none, Option.getD_none]
          by_cases own : home node = node
          · cases live with
            | top isTop =>
                obtain rfl : node = root := own.symm.trans isTop
                exact mounted.top.trans forest.top.2.symm
            | mounted member isRootOf _ =>
                exact absurd (isRootOf.symm.trans own) (mountPointOf_eq_none isRoot _ member)
          · exact mounted.parent node own
  | child name =>
      change v.tree.child node name = (base.tree.child node name).map _
      have raw : (if (v.nodes node).isDirectory then v.finddir node name else none) =
          base.tree.child node name := by
        rw [forest_child forest, mounted.directory, mounted_finddir forest mounted]
      have once : v.tree.child node name = (base.tree.child node name).map fun next =>
          (v.mounted ((v.mounted next).getD next)).getD ((v.mounted next).getD next) := by
        rw [← raw]
        simp only [Vfs.tree, vfsFinddir]
        split
        · rw [Option.map_map]
          rfl
        · rfl
      rw [once]
      cases found : base.tree.child node name with
      | none => rfl
      | some next =>
          rw [Option.map_some, Option.map_some, mounted.mounted, mounted.mounted]
          congr 1
          cases covers : mountedOn v.mounts next with
          | none => rw [Option.getD_none, covers, Option.getD_none]
          | some fsRoot =>
              rw [Option.getD_some]
              cases above : mountedOn v.mounts fsRoot with
              | none => rfl
              | some other =>
                  -- The root of a volume is not a mount point itself.
                  obtain ⟨lower, lowerIn, _, isRoot⟩ := mountedOn_eq_some covers
                  obtain ⟨upper, upperIn, isPoint, _⟩ := mountedOn_eq_some above
                  have own := (mounted.entries lower lowerIn).1
                  have notOwn := (mounted.entries upper upperIn).2.2
                  rw [isPoint, ← isRoot] at notOwn
                  exact absurd own notOwn

theorem mounted_closed (forest : Forest base home root) (mounted : Mounted base home root v)
    (live : Live home root v.mounts node) {step : Step (List UInt8)} {next : Nat}
    (stepped : (mountTree base v.mounts).step node step = some next) :
    Live home root v.mounts next := by
  cases step with
  | up =>
      obtain rfl := Option.some.inj stepped
      simp only [mountTree, Tree.covered]
      cases isRoot : mountPointOf v.mounts node with
      | some point =>
          obtain ⟨entry, member, isFsRoot, rfl⟩ := mountPointOf_eq_some isRoot
          rw [Option.map_some, Option.getD_some]
          have below := live_mountPoint mounted live member isFsRoot
          cases up : base.tree.parent entry.mountPoint with
          | none => exact live
          | some parent =>
              exact below.congr (forest.parent _ _ (mounted.entries entry member).2.2 up)
      | none =>
          rw [Option.map_none, Option.getD_none]
          cases up : base.tree.parent node with
          | none => exact live
          | some parent =>
              by_cases own : home node = node
              · cases live with
                | top isTop =>
                    obtain rfl : node = root := own.symm.trans isTop
                    have noParent : base.tree.parent node = none := forest.top.2
                    rw [noParent] at up
                    cases up
                | mounted member isRootOf _ =>
                    exact absurd (isRootOf.symm.trans own) (mountPointOf_eq_none isRoot _ member)
              · exact live.congr (forest.parent node parent own up)
  | child name =>
      obtain ⟨raw, found, isNext⟩ := Option.map_eq_some_iff.mp stepped
      have rawLive : Live home root v.mounts raw := live.congr (forest_reaches forest found).1
      cases covers : mountedOn v.mounts raw with
      | none =>
          rw [covers, Option.getD_none] at isNext
          rwa [← isNext]
      | some fsRoot =>
          rw [covers, Option.getD_some] at isNext
          obtain ⟨entry, member, isPoint, isRoot⟩ := mountedOn_eq_some covers
          rw [← isNext, ← isRoot]
          apply Live.mounted member (mounted.entries entry member).1
          rwa [isPoint]

theorem mounted_walk (forest : Forest base home root) (mounted : Mounted base home root v)
    (steps : List (Step (List UInt8))) :
    v.tree.walk root steps = (mountTree base v.mounts).walk root steps ∧
      v.tree.way root steps = (mountTree base v.mounts).way root steps :=
  walk_congr (fun _ live step => mounted_step forest mounted live step)
    (fun _ live _ _ stepped => mounted_closed forest mounted live stepped) (.top forest.top.1)

theorem vfsLookup_resolve (forest : Forest base home root) (mounted : Mounted base home root v)
    (path : List UInt8) : vfsLookup v path = resolve base v.mounts path := by
  rw [vfsLookup_walk, resolve, mounted.isRoot, forest.isRoot, Option.bind_some, Option.bind_some]
  exact (mounted_walk forest mounted _).1

end Lookups

end ZurichOS
