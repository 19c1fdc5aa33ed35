import ZurichOS.Mount

set_option linter.all false

/-!
`vfs_lookup` as a fold over the components of a path.  The two part where a path begins with
two slashes, where a component does not fit into the buffer for one, and where a root that is
mounted is itself mounted on.
-/

namespace ZurichOS

open ByteBuffer PathWalk

/-- The parts of a path between slashes that are not empty. -/
def components (path : List UInt8) : List (List UInt8) :=
  ((cString path).splitOn slash).filter (· ≠ [])

/-- One component on: `.` stays, `..` goes to the parent, if there is one. -/
def foldStep (v : Vfs) (node : Nat) (component : List UInt8) : Option Nat :=
  if component = dot then some node
  else if component = dotDot then some ((v.nodes node).parent.getD node)
  else vfsFinddir v node component

/-- The fold that a lookup is meant to be. -/
def foldLookup (v : Vfs) (path : List UInt8) : Option Nat :=
  v.root.bind fun root => (components path).foldlM (foldStep v) root

/-- The path has not two slashes first, and its components fit into the buffer. -/
structure PlainPath (path : List UInt8) : Prop where
  single : ¬ [slash, slash] <+: cString path
  fits : ∀ component ∈ components path, component.length ≤ vfsMaxName - 1

/-- What can stand between slashes. -/
structure Component (component : List UInt8) : Prop where
  nonempty : component ≠ []
  slash : slash ∉ component
  string : 0 ∉ component
  fits : component.length ≤ vfsMaxName - 1

/-- What `vfs_finddir` gives is not covered in its turn, for whatever node a path leads to. -/
def Vfs.Flat (v : Vfs) : Prop :=
  ∀ (root : Nat) (names : List (List UInt8)) (node : Nat) (name : List UInt8) (next : Nat),
    v.root = some root → (∀ component ∈ names, Component component) →
    names.foldlM (foldStep v) root = some node → Component name → name ≠ dot → name ≠ dotDot →
    vfsFinddir v node name = some next → v.mounted next = none ∨ v.mounted next = some next

/-- The steps that components are; `.` is none. -/
def componentSteps (names : List (List UInt8)) : List (Step (List UInt8)) :=
  (names.filter (· ≠ dot)).map fun component =>
    if component = dotDot then .up else .child component

variable {v : Vfs} {path : List UInt8} {names : List (List UInt8)} {node : Nat}

section Components

/-- The components, as they come off the front of a path that begins with one. -/
def splitComponents (path : List UInt8) : List (List UInt8) :=
  (path.splitOn slash).filter (· ≠ [])

theorem splitComponents_slash (path : List UInt8) :
    splitComponents (slash :: path) = splitComponents path := by
  simp [splitComponents, List.splitOn_cons_eq_if_modifyHead]

theorem splitComponents_slashes (path : List UInt8) :
    splitComponents (path.dropWhile (· = slash)) = splitComponents path := by
  induction path with
  | nil => rfl
  | cons first later ih =>
      by_cases isSlash : first = slash
      · rw [List.dropWhile_cons_of_pos (by simpa using isSlash), ih, isSlash,
          splitComponents_slash]
      · rw [List.dropWhile_cons_of_neg (by simpa using isSlash)]

theorem splitComponents_next (word : List UInt8) (rest : List UInt8) (nonempty : word ≠ [])
    (noSlash : slash ∉ word) (stops : rest = [] ∨ ∃ later, rest = slash :: later) :
    splitComponents (word ++ rest) = word :: splitComponents rest := by
  rcases stops with rfl | ⟨later, rfl⟩
  · rw [List.append_nil, splitComponents, List.splitOn_eq_singleton noSlash]
    simp [nonempty, splitComponents]
  · rw [splitComponents_slash, splitComponents, List.splitOn_append_cons_self_of_not_mem noSlash,
      List.filter_cons_of_pos (by simpa using nonempty)]
    rfl

theorem splitComponents_first (nonempty : path ≠ []) (begins : path.head? ≠ some slash) :
    splitComponents path =
      path.takeWhile (· ≠ slash) ::
        splitComponents ((path.dropWhile (· ≠ slash)).dropWhile (· = slash)) := by
  have word : path.takeWhile (· ≠ slash) ≠ [] := by
    cases path with
    | nil => exact absurd rfl nonempty
    | cons first later =>
        have other : first ≠ slash := by simpa using begins
        simp [other]
  have noSlash : slash ∉ path.takeWhile (· ≠ slash) := fun member => by
    have other := List.mem_takeWhile_imp member
    simp at other
  have stops : path.dropWhile (· ≠ slash) = [] ∨
      ∃ later, path.dropWhile (· ≠ slash) = slash :: later := by
    cases rest : path.dropWhile (· ≠ slash) with
    | nil => exact .inl rfl
    | cons first later =>
        have head := List.head?_dropWhile_not (· ≠ slash) path
        rw [rest] at head
        exact .inr ⟨later, by simpa using head⟩
  rw [splitComponents_slashes, ← splitComponents_next _ _ word noSlash stops,
    List.takeWhile_append_dropWhile]

theorem dropWhile_slash_head : (path.dropWhile (· = slash)).head? ≠ some slash := by
  intro isSlash
  have head := List.head?_dropWhile_not (· = slash) path
  rw [isSlash] at head
  simp at head

theorem nextComponent_whole (fits : (path.takeWhile (· ≠ slash)).length ≤ vfsMaxName - 1) :
    (nextComponent path).1 = path.takeWhile (· ≠ slash) ∧
      (nextComponent path).2 = (path.dropWhile (· ≠ slash)).dropWhile (· = slash) := by
  have whole : (nextComponent path).1 = path.takeWhile (· ≠ slash) := List.take_of_length_le fits
  have behind : path.drop (path.takeWhile (· ≠ slash)).length = path.dropWhile (· ≠ slash) := by
    calc path.drop (path.takeWhile (· ≠ slash)).length
        = (path.takeWhile (· ≠ slash) ++ path.dropWhile (· ≠ slash)).drop
            (path.takeWhile (· ≠ slash)).length := by rw [List.takeWhile_append_dropWhile]
      _ = path.dropWhile (· ≠ slash) := List.drop_left
  refine ⟨whole, ?_⟩
  change (path.drop (nextComponent path).1.length).dropWhile (· = slash) = _
  rw [whole, behind]

/-- The induction follows the loop of `vfs_lookup`: each round takes one component. -/
theorem pathSteps_plain (begins : path.head? ≠ some slash)
    (fits : ∀ component ∈ splitComponents path, component.length ≤ vfsMaxName - 1) :
    pathSteps path = componentSteps (splitComponents path) := by
  induction path using pathSteps.induct with
  | case1 =>
      rw [pathSteps]
      rfl
  | case2 path nonempty component rest shorter isDot ih =>
      have split := splitComponents_first nonempty begins
      rw [split] at fits ⊢
      obtain ⟨whole, behind⟩ := nextComponent_whole (fits _ (List.mem_cons_self ..))
      rw [pathSteps, dif_neg nonempty]
      dsimp only
      rw [if_pos isDot]
      have later := ih (by rw [show rest = _ from behind]; exact dropWhile_slash_head)
        fun name member => fits name (List.mem_cons_of_mem _ (by rwa [← behind]))
      change pathSteps rest = _
      rw [later, componentSteps, componentSteps, ← whole,
        List.filter_cons_of_neg (by simpa using isDot), ← behind]
  | case3 path nonempty component rest shorter notDot ih =>
      have split := splitComponents_first nonempty begins
      rw [split] at fits ⊢
      obtain ⟨whole, behind⟩ := nextComponent_whole (fits _ (List.mem_cons_self ..))
      rw [pathSteps, dif_neg nonempty]
      dsimp only
      rw [if_neg notDot]
      have later := ih (by rw [show rest = _ from behind]; exact dropWhile_slash_head)
        fun name member => fits name (List.mem_cons_of_mem _ (by rwa [← behind]))
      change (if component = dotDot then Step.up else .child component) :: pathSteps rest = _
      rw [later, componentSteps, componentSteps, ← whole,
        List.filter_cons_of_pos (by simpa using notDot), ← behind]
      rfl

theorem components_eq : components path = splitComponents (cString path) := rfl

theorem vfsSteps_plain (plain : PlainPath path) :
    vfsSteps path = componentSteps (components path) := by
  have fits := plain.fits
  rw [components_eq] at fits ⊢
  unfold vfsSteps
  dsimp only
  by_cases rooted : (cString path).head? = some slash
  · obtain ⟨later, isLater⟩ : ∃ later, cString path = slash :: later :=
      List.head?_eq_some_iff.mp rooted
    rw [if_pos rooted]
    rw [isLater, splitComponents_slash] at fits ⊢
    refine pathSteps_plain (fun again => plain.single ?_) fits
    obtain ⟨rest, isRest⟩ := List.head?_eq_some_iff.mp again
    rw [isLater, show later = slash :: rest from isRest]
    exact ⟨rest, rfl⟩
  · rw [if_neg rooted]
    exact pathSteps_plain rooted fits

end Components

section Walks

/-- The tree that `vfs_finddir` goes down. -/
def Vfs.finding (v : Vfs) : Tree Nat (List UInt8) where
  parent node := (v.nodes node).parent
  child := vfsFinddir v

theorem foldlM_walk (names : List (List UInt8)) (node : Nat) :
    names.foldlM (foldStep v) node = v.finding.walk node (componentSteps names) := by
  induction names generalizing node with
  | nil => rfl
  | cons name rest ih =>
      rw [List.foldlM_cons, foldStep]
      by_cases isDot : name = dot
      · rw [if_pos isDot, componentSteps, List.filter_cons_of_neg (by simpa using isDot)]
        exact ih node
      · have steps : componentSteps (name :: rest) =
            (if name = dotDot then .up else .child name) :: componentSteps rest := by
          rw [componentSteps, List.filter_cons_of_pos (by simpa using isDot)]
          rfl
        rw [if_neg isDot, steps, Tree.walk]
        by_cases isUp : name = dotDot
        · rw [if_pos isUp, if_pos isUp]
          exact ih _
        · rw [if_neg isUp, if_neg isUp]
          change (vfsFinddir v node name >>= _) = (vfsFinddir v node name).bind _
          congr 1
          funext next
          exact ih next

theorem componentSteps_append (names rest : List (List UInt8)) :
    componentSteps (names ++ rest) = componentSteps names ++ componentSteps rest := by
  rw [componentSteps, List.filter_append, List.map_append]
  rfl

theorem componentSteps_child {name : List UInt8} (notDot : name ≠ dot) (notUp : name ≠ dotDot) :
    componentSteps [name] = [.child name] := by
  rw [componentSteps, List.filter_cons_of_pos (by simpa using notDot), List.filter_nil,
    List.map_singleton, if_neg notUp]

/-- Where nothing that is found is covered again, both walks are one.  The induction is on the
components, from the last. -/
theorem Vfs.Flat.walk (flat : v.Flat) {root : Nat} (isRoot : v.root = some root)
    (names : List (List UInt8)) (all : ∀ component ∈ names, Component component) :
    v.tree.walk root (componentSteps names) = names.foldlM (foldStep v) root := by
  induction names using List.reverseRecOn with
  | nil => rfl
  | append_singleton front name ih =>
      have frontAll : ∀ component ∈ front, Component component := fun component member =>
        all component (List.mem_append_left _ member)
      have isName : Component name := all name (by simp)
      rw [componentSteps_append, walk_append, ih frontAll, List.foldlM_append]
      cases reached : front.foldlM (foldStep v) root with
      | none => rfl
      | some node =>
          change v.tree.walk node (componentSteps [name]) = [name].foldlM (foldStep v) node
          rw [foldlM_walk]
          by_cases isDot : name = dot
          · rw [isDot]
            rfl
          by_cases isUp : name = dotDot
          · rw [isUp]
            rfl
          rw [componentSteps_child isDot isUp, Tree.walk, Tree.walk]
          change ((vfsFinddir v node name).map _).bind _ = (vfsFinddir v node name).bind _
          cases found : vfsFinddir v node name with
          | none => rfl
          | some next =>
              have uncovered := flat root front node name next isRoot frontAll reached isName isDot
                isUp found
              have same : (v.mounted next).getD next = next := by
                rcases uncovered with none | itself
                · rw [none]
                  rfl
                · rw [itself]
                  rfl
              change some ((v.mounted next).getD next) = some next
              rw [same]

end Walks

section Paths

theorem mem_splitOn {part : List UInt8} (member : part ∈ path.splitOn slash) :
    slash ∉ part ∧ ∀ char ∈ part, char ∈ path := by
  induction path generalizing part with
  | nil =>
      obtain rfl : part = [] := by simpa using member
      exact ⟨List.not_mem_nil, fun char inside => absurd inside List.not_mem_nil⟩
  | cons first later ih =>
      rw [List.splitOn_cons_eq_if_modifyHead] at member
      have old : part ∈ later.splitOn slash → slash ∉ part ∧ ∀ char ∈ part, char ∈ first :: later :=
        fun inside => ⟨(ih inside).1, fun char isChar =>
          List.mem_cons_of_mem _ ((ih inside).2 char isChar)⟩
      split at member
      · rcases List.mem_cons.mp member with rfl | inside
        · exact ⟨List.not_mem_nil, fun char inside => absurd inside List.not_mem_nil⟩
        · exact old inside
      · rename_i other
        cases parts : later.splitOn slash with
        | nil => exact absurd parts (List.splitOn_ne_nil _ _)
        | cons head tail =>
            rw [parts] at member
            rcases List.mem_cons.mp member with rfl | inside
            · obtain ⟨clean, within⟩ := 
                ih (show head ∈ later.splitOn slash from parts ▸ List.mem_cons_self ..)
              refine ⟨fun isSlash => ?_, fun char isChar => ?_⟩
              · rcases List.mem_cons.mp isSlash with same | inHead
                · simp [← same] at other
                · exact clean inHead
              · rcases List.mem_cons.mp isChar with rfl | inHead
                · exact List.mem_cons_self ..
                · exact List.mem_cons_of_mem _ (within char inHead)
            · exact old (parts ▸ List.mem_cons_of_mem _ inside)

theorem cString_nonzero {char : UInt8} (member : char ∈ cString path) : char ≠ 0 := by
  have kept := List.mem_takeWhile_imp member
  simpa using kept

theorem PlainPath.component (plain : PlainPath path) :
    ∀ component ∈ components path, Component component := by
  intro component member
  obtain ⟨part, nonempty⟩ := List.mem_filter.mp member
  obtain ⟨clean, within⟩ := mem_splitOn part
  exact ⟨by simpa using nonempty, clean, fun zero => cString_nonzero (within 0 zero) rfl,
    plain.fits component member⟩

/-- The path with these components. -/
def joinPath (names : List (List UInt8)) : List UInt8 := slash :: [slash].intercalate names

theorem mem_intercalate {char : UInt8} (member : char ∈ [slash].intercalate names) :
    char = slash ∨ ∃ name ∈ names, char ∈ name := by
  induction names with
  | nil => cases member
  | cons first rest ih =>
      cases rest with
      | nil =>
          rw [List.intercalate_singleton] at member
          exact .inr ⟨first, List.mem_cons_self .., member⟩
      | cons second later =>
          rw [List.intercalate_cons_cons, List.mem_append, List.mem_append] at member
          rcases member with (inFirst | isSlash) | behind
          · exact .inr ⟨first, List.mem_cons_self .., inFirst⟩
          · exact .inl (List.mem_singleton.mp isSlash)
          · rcases ih behind with isSlash | ⟨name, isName, isChar⟩
            · exact .inl isSlash
            · exact .inr ⟨name, List.mem_cons_of_mem _ isName, isChar⟩

theorem joinPath_cString (all : ∀ component ∈ names, Component component) :
    cString (joinPath names) = joinPath names := by
  refine List.takeWhile_eq_self_iff.mpr fun char member => ?_
  have nonzero : char ≠ 0 := by
    rintro rfl
    rcases List.mem_cons.mp member with isSlash | inside
    · cases isSlash
    · rcases mem_intercalate inside with isSlash | ⟨name, isName, isChar⟩
      · cases isSlash
      · exact (all name isName).string isChar
  simpa using nonzero

theorem components_joinPath (all : ∀ component ∈ names, Component component) :
    components (joinPath names) = names := by
  rw [components_eq, joinPath_cString all, joinPath, splitComponents_slash, splitComponents]
  cases names with
  | nil => rfl
  | cons first rest =>
      rw [List.splitOn_intercalate slash (fun name member => (all name member).slash)
        (List.cons_ne_nil _ _)]
      exact List.filter_eq_self.mpr fun name member => by simpa using (all name member).nonempty

theorem joinPath_plain (all : ∀ component ∈ names, Component component) :
    PlainPath (joinPath names) := by
  refine ⟨fun twice => ?_, fun component member => ?_⟩
  · rw [joinPath_cString all] at twice
    obtain ⟨rest, isRest⟩ := twice
    have inner := (List.cons.inj isRest).2
    cases names with
    | nil => cases inner
    | cons first later =>
        have isFirst := all first (List.mem_cons_self ..)
        cases chars : first with
        | nil => exact isFirst.nonempty chars
        | cons char more =>
            have clean := isFirst.slash
            rw [chars] at clean inner
            have same : slash = char := by
              cases later <;> simpa [List.intercalate] using (List.cons.inj inner).1
            exact clean (same ▸ List.mem_cons_self ..)
  · rw [components_joinPath all] at member
    exact (all component member).fits

end Paths

section Lookups

theorem Vfs.Flat.lookup (flat : v.Flat) (plain : PlainPath path) :
    vfsLookup v path = foldLookup v path := by
  rw [vfsLookup_walk, foldLookup, vfsSteps_plain plain]
  cases isRoot : v.root with
  | none => rfl
  | some root => exact flat.walk isRoot _ plain.component

/-- A root that is covered in its turn shows in the path of the directory it is mounted on. -/
theorem flat_of_lookups (same : ∀ path, PlainPath path → vfsLookup v path = foldLookup v path) :
    v.Flat := by
  intro root names node name next isRoot all reached isName notDot notUp found
  have more : ∀ component ∈ names ++ [name], Component component := by
    intro component member
    rcases List.mem_append.mp member with inFront | last
    · exact all component inFront
    · exact List.mem_singleton.mp last ▸ isName
  have front := same _ (joinPath_plain all)
  have whole := same _ (joinPath_plain more)
  rw [vfsLookup_walk, foldLookup, vfsSteps_plain (joinPath_plain all), components_joinPath all,
    isRoot, Option.bind_some, Option.bind_some, reached] at front
  rw [vfsLookup_walk, foldLookup, vfsSteps_plain (joinPath_plain more), components_joinPath more,
    isRoot, Option.bind_some, Option.bind_some, componentSteps_append, walk_append, front,
    List.foldlM_append, reached] at whole
  change v.tree.walk node (componentSteps [name]) = [name].foldlM (foldStep v) node at whole
  rw [foldlM_walk, componentSteps_child notDot notUp, Tree.walk, Tree.walk] at whole
  change ((vfsFinddir v node name).map _).bind _ = (vfsFinddir v node name).bind _ at whole
  rw [found] at whole
  have isNext : (v.mounted next).getD next = next := Option.some.inj whole
  cases covered : v.mounted next with
  | none => exact .inl rfl
  | some root =>
      rw [covered] at isNext
      exact .inr (congrArg some isNext)

/-- A directory that is each of its own children with a good name. -/
def loopVfs (good : List UInt8 → Bool) : Vfs :=
  { nodes := fun _ =>
      { name := [], flags := vfsDirectory, length := 0, inode := 0, parent := none, ptr := none
        finddir := .other fun name => if good name then some 0 else none }
    root := some 0, mounts := [] }

variable {good : List UInt8 → Bool}

theorem loopVfs_mounted (node : Nat) : (loopVfs good).mounted node = none := by
  have flags : ((loopVfs good).nodes node).flags = vfsDirectory := rfl
  rw [Vfs.mounted, flags, if_neg (by decide)]

theorem loopVfs_finddir (node : Nat) (name : List UInt8) :
    vfsFinddir (loopVfs good) node name = if good name then some 0 else none := by
  have directory : ((loopVfs good).nodes node).isDirectory = true := by
    rw [VfsNode.isDirectory, show ((loopVfs good).nodes node).flags = vfsDirectory from rfl]
    decide
  rw [vfsFinddir, if_pos directory]
  change (if good name then some 0 else none).map _ = _
  split
  · rw [Option.map_some, loopVfs_mounted]
    rfl
  · rfl

theorem loopVfs_flat : (loopVfs good).Flat :=
  fun _ _ _ _ next _ _ _ _ _ _ _ => .inl (loopVfs_mounted next)

theorem loopVfs_tree : (loopVfs good).tree = (loopVfs good).finding := by
  have children : (fun node name => (vfsFinddir (loopVfs good) node name).map fun next =>
      ((loopVfs good).mounted next).getD next) = vfsFinddir (loopVfs good) := by
    funext node name
    simp only [loopVfs_mounted, Option.getD_none, Option.map_id']
  rw [Vfs.tree, Vfs.finding, children]

theorem loopVfs_step (step : Step (List UInt8)) (isGood : ∀ name, step = .child name → good name) :
    (loopVfs good).finding.step 0 step = some 0 := by
  cases step with
  | up => rfl
  | child name =>
      change vfsFinddir (loopVfs good) 0 name = some 0
      rw [loopVfs_finddir, if_pos (isGood name rfl)]

theorem loopVfs_found {steps : List (Step (List UInt8))}
    (all : ∀ name, .child name ∈ steps → good name = true) :
    (loopVfs good).finding.walk 0 steps = some 0 := by
  induction steps with
  | nil => rfl
  | cons step rest ih =>
      rw [Tree.walk, loopVfs_step step fun name isChild => all name (isChild ▸ List.mem_cons_self ..)]
      exact ih fun name member => all name (List.mem_cons_of_mem _ member)

theorem loopVfs_lost {steps : List (Step (List UInt8))} {name : List UInt8}
    (member : .child name ∈ steps) (bad : good name = false) :
    (loopVfs good).finding.walk 0 steps = none := by
  induction steps with
  | nil => cases member
  | cons step rest ih =>
      rw [Tree.walk]
      rcases List.mem_cons.mp member with rfl | later
      · change (vfsFinddir (loopVfs good) 0 name).bind _ = none
        rw [loopVfs_finddir, if_neg (by simp [bad])]
        rfl
      · cases stepped : (loopVfs good).finding.step 0 step with
        | none => rfl
        | some next =>
            have same : next = 0 := by
              cases step with
              | up => exact (Option.some.inj stepped).symm
              | child other =>
                  change vfsFinddir (loopVfs good) 0 other = some next at stepped
                  rw [loopVfs_finddir] at stepped
                  split at stepped
                  · exact (Option.some.inj stepped).symm
                  · cases stepped
            rw [same]
            exact ih later

theorem loopVfs_lookup (path : List UInt8) :
    vfsLookup (loopVfs good) path = (loopVfs good).finding.walk 0 (vfsSteps path) := by
  rw [vfsLookup_walk, loopVfs_tree]
  rfl

theorem loopVfs_fold (path : List UInt8) : foldLookup (loopVfs good) path =
    (loopVfs good).finding.walk 0 (componentSteps (components path)) := by
  rw [← foldlM_walk]
  rfl

theorem pathSteps_fits {name : List UInt8} (member : .child name ∈ pathSteps path) :
    name.length ≤ vfsMaxName - 1 := by
  induction path using pathSteps.induct with
  | case1 =>
      rw [pathSteps, dif_pos rfl] at member
      cases member
  | case2 path nonempty component rest shorter isDot ih =>
      rw [pathSteps, dif_neg nonempty] at member
      dsimp only at member
      rw [if_pos isDot] at member
      exact ih member
  | case3 path nonempty component rest shorter notDot ih =>
      rw [pathSteps, dif_neg nonempty] at member
      dsimp only at member
      rw [if_neg notDot] at member
      rcases List.mem_cons.mp member with first | later
      · split at first
        · cases first
        · rw [Step.child.inj first]
          exact List.length_take_le ..
      · exact ih later

theorem mem_componentSteps {name : List UInt8} :
    .child name ∈ componentSteps names ↔ name ∈ names ∧ name ≠ dot ∧ name ≠ dotDot := by
  constructor
  · intro member
    obtain ⟨component, inside, isStep⟩ := List.mem_map.mp member
    obtain ⟨isName, notDot⟩ := List.mem_filter.mp inside
    split at isStep
    · cases isStep
    · rename_i notUp
      obtain rfl := Step.child.inj isStep
      exact ⟨isName, by simpa using notDot, notUp⟩
  · rintro ⟨isName, notDot, notUp⟩
    exact List.mem_map.mpr ⟨name, List.mem_filter.mpr ⟨isName, by simpa using notDot⟩,
      if_neg notUp⟩

/-- Behind a second slash the first component is empty. -/
theorem vfsSteps_twice (twice : [slash, slash] <+: cString path) :
    .child [] ∈ vfsSteps path := by
  obtain ⟨rest, isPath⟩ := twice
  have begins : (cString path).head? = some slash := by rw [← isPath]; rfl
  have first : (nextComponent (slash :: rest)).1 = [] := by simp [nextComponent]
  unfold vfsSteps
  dsimp only
  rw [if_pos begins, ← isPath, List.cons_append, List.tail_cons, List.cons_append, List.nil_append,
    pathSteps, dif_neg (List.cons_ne_nil _ _)]
  dsimp only
  rw [first, if_neg (by decide), if_neg (by decide)]
  exact List.mem_cons_self ..

/-- A path that is not plain misleads a lookup in some tree: one where every name but the empty
one leads on, or every name that fits. -/
theorem plain_of_lookups (same : ∀ v : Vfs, v.Flat → vfsLookup v path = foldLookup v path) :
    PlainPath path := by
  constructor
  · intro twice
    have found := same (loopVfs fun name => name ≠ []) loopVfs_flat
    rw [loopVfs_lookup, loopVfs_fold, loopVfs_lost (vfsSteps_twice twice) (by decide),
      loopVfs_found fun name member => ?_] at found
    · cases found
    · obtain ⟨inside, -⟩ := mem_componentSteps.mp member
      simpa using (List.mem_filter.mp inside).2
  · intro component member
    by_contra long
    have found := same (loopVfs fun name => name.length ≤ vfsMaxName - 1) loopVfs_flat
    have isChild : .child component ∈ componentSteps (components path) := by
      refine mem_componentSteps.mpr ⟨member, ?_, ?_⟩ <;> rintro rfl <;> exact long (by decide)
    rw [loopVfs_lookup, loopVfs_fold, loopVfs_lost isChild (by simpa using long),
      loopVfs_found fun name member => by simpa using pathSteps_fits member] at found
    cases found

end Lookups

/-- A root of ramfs with one directory, `a`. -/
def oneDirectory : Vfs :=
  let directory (name : List UInt8) (children : List Nat) : TreeNode :=
    { name, flags := vfsDirectory, length := 0, inode := 0, parent := none, ptr := none
      finddir := .ramfs children }
  { nodes := fun node => if node = 0 then directory [slash] [1] else directory [0x61] []
    root := some 0, mounts := [] }

end ZurichOS
