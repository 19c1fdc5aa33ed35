import Mathlib.Data.Option.Basic

/-!
Walks along a path through trees of directories, where some nodes are covered by the roots
of other trees.
-/

namespace PathWalk

inductive Step (Name : Type) where
  | up
  | child (name : Name)

structure Tree (Node Name : Type) where
  parent : Node → Option Node
  child : Node → Name → Option Node

variable {Node Name : Type}

/-- The way up from a root leads to the root itself. -/
def Tree.step (tree : Tree Node Name) (node : Node) : Step Name → Option Node
  | .up => some ((tree.parent node).getD node)
  | .child name => tree.child node name

def Tree.walk (tree : Tree Node Name) (node : Node) : List (Step Name) → Option Node
  | [] => some node
  | step :: rest => (tree.step node step).bind fun next => tree.walk next rest

def Tree.way (tree : Tree Node Name) (node : Node) : List (Step Name) → List Node
  | [] => [node]
  | step :: rest =>
      node :: match tree.step node step with
        | none => []
        | some next => tree.way next rest

/-- The tree with `cover x` in the place of each node `x` that it covers; `beneath r` is the
node that the root `r` covers. -/
def Tree.covered (tree : Tree Node Name) (cover beneath : Node → Option Node) : Tree Node Name where
  parent node := ((beneath node).map tree.parent).getD (tree.parent node)
  child node name := (tree.child node name).map fun next => (cover next).getD next

/-- Steps to children, and at most one up after them. -/
def DownThenUp : List (Step Name) → Prop
  | [] => True
  | .up :: rest => rest = []
  | .child _ :: rest => DownThenUp rest

variable {tree other : Tree Node Name} {node : Node} {steps rest : List (Step Name)}

theorem start_mem_way : node ∈ tree.way node steps := by
  cases steps with
  | nil => exact List.mem_singleton_self node
  | cons step rest => exact List.mem_cons_self ..

theorem end_mem_way {last : Node} (ends : tree.walk node steps = some last) :
    last ∈ tree.way node steps := by
  induction steps generalizing node with
  | nil =>
      obtain rfl := Option.some.inj ends
      exact List.mem_singleton_self node
  | cons step rest ih =>
      rw [Tree.walk] at ends
      obtain ⟨next, stepped, walked⟩ := Option.bind_eq_some_iff.mp ends
      rw [Tree.way, stepped]
      exact List.mem_cons_of_mem _ (ih walked)

theorem walk_append : tree.walk node (steps ++ rest) =
    (tree.walk node steps).bind fun next => tree.walk next rest := by
  induction steps generalizing node with
  | nil => rfl
  | cons step later ih =>
      rw [List.cons_append, Tree.walk, Tree.walk, Option.bind_assoc]
      congr 1
      funext next
      exact ih

theorem walk_congr {within : Node → Prop}
    (agree : ∀ node, within node → ∀ step, other.step node step = tree.step node step)
    (closed : ∀ node, within node → ∀ step next, tree.step node step = some next → within next)
    (start : within node) :
    other.walk node steps = tree.walk node steps ∧ other.way node steps = tree.way node steps := by
  induction steps generalizing node with
  | nil => exact ⟨rfl, rfl⟩
  | cons step rest ih =>
      simp only [Tree.walk, Tree.way, agree node start]
      cases stepped : tree.step node step with
      | none => exact ⟨rfl, rfl⟩
      | some next =>
          obtain ⟨sameWalk, sameWay⟩ := ih (closed node start step next stepped)
          exact ⟨sameWalk, congrArg (List.cons node) sameWay⟩

theorem way_within {within : Node → Prop}
    (closed : ∀ node, within node → ∀ step next, tree.step node step = some next → within next)
    (start : within node) : ∀ x ∈ tree.way node steps, within x := by
  induction steps generalizing node with
  | nil =>
      intro x member
      obtain rfl := List.mem_singleton.mp member
      exact start
  | cons step rest ih =>
      intro x member
      rcases List.mem_cons.mp member with rfl | later
      · exact start
      · cases stepped : tree.step node step with
        | none =>
            rw [stepped] at later
            cases later
        | some next =>
            rw [stepped] at later
            exact ih (closed node start step next stepped) x later

section Covers

variable {cover beneath cover' beneath' : Node → Option Node} {point root : Node}

/-- To cover one more node, or one node less, changes no walk that does not come to it. -/
theorem walk_frame (points : ∀ x, x ≠ point → cover' x = cover x)
    (roots : ∀ x, x ≠ root → beneath' x = beneath x)
    (apartPoint : (cover point).getD point ∉ (tree.covered cover beneath).way node steps)
    (apartRoot : root ∉ (tree.covered cover beneath).way node steps) :
    (tree.covered cover' beneath').walk node steps = (tree.covered cover beneath).walk node steps ∧
      (tree.covered cover' beneath').way node steps = (tree.covered cover beneath).way node steps := by
  induction steps generalizing node with
  | nil => exact ⟨rfl, rfl⟩
  | cons step rest ih =>
      have notRoot : node ≠ root := by
        intro same
        exact apartRoot (same ▸ start_mem_way)
      have same : (tree.covered cover' beneath').step node step =
          (tree.covered cover beneath).step node step := by
        cases step with
        | up => simp only [Tree.step, Tree.covered, roots node notRoot]
        | child name =>
            simp only [Tree.step, Tree.covered]
            cases raw : tree.child node name with
            | none => rfl
            | some next =>
                have notPoint : next ≠ point := by
                  intro isPoint
                  apply apartPoint
                  have stepped : (tree.covered cover beneath).step node (.child name) =
                      some ((cover point).getD point) := by
                    simp only [Tree.step, Tree.covered, raw, isPoint, Option.map_some]
                  rw [Tree.way, stepped]
                  exact List.mem_cons_of_mem _ start_mem_way
                rw [Option.map_some, Option.map_some, points next notPoint]
      simp only [Tree.walk, Tree.way, same]
      cases stepped : (tree.covered cover beneath).step node step with
      | none => exact ⟨rfl, rfl⟩
      | some next =>
          have inside : ∀ x, x ∉ (tree.covered cover beneath).way node (step :: rest) →
              x ∉ (tree.covered cover beneath).way next rest := by
            intro x outside member
            apply outside
            rw [Tree.way, stepped]
            exact List.mem_cons_of_mem _ member
          obtain ⟨sameWalk, sameWay⟩ := ih (inside _ apartPoint) (inside _ apartRoot)
          exact ⟨sameWalk, congrArg (List.cons node) sameWay⟩

/-- The walk to a node that is covered now ends at what covers it. -/
theorem walk_covered {name : Name} (points : ∀ x, x ≠ point → cover' x = cover x)
    (roots : ∀ x, x ≠ root → beneath' x = beneath x) (free : cover point = none)
    (noRoot : ∀ x, cover x ≠ some point) (isOver : cover' point = some root)
    (apartPoint : point ∉ (tree.covered cover beneath).way node steps)
    (apartRoot : root ∉ (tree.covered cover beneath).way node steps)
    (ends : (tree.covered cover beneath).walk node (steps ++ [.child name]) = some point) :
    (tree.covered cover' beneath').walk node (steps ++ [.child name]) = some root := by
  have apart : (cover point).getD point ∉ (tree.covered cover beneath).way node steps := by
    rwa [free, Option.getD_none]
  rw [walk_append, (walk_frame points roots apart apartRoot).1]
  rw [walk_append] at ends
  obtain ⟨dir, toDir, last⟩ := Option.bind_eq_some_iff.mp ends
  rw [toDir]
  simp only [Option.bind_some, Tree.walk, Tree.step, Tree.covered, Option.bind_fun_some] at last ⊢
  obtain ⟨raw, isRaw, isPoint⟩ := Option.map_eq_some_iff.mp last
  rw [isRaw]
  cases covers : cover raw with
  | none =>
      rw [covers, Option.getD_none] at isPoint
      rw [isPoint, Option.map_some, isOver, Option.getD_some]
  | some covering =>
      rw [covers, Option.getD_some] at isPoint
      exact absurd (isPoint ▸ covers) (noRoot raw)

end Covers

section Grafts

/-- The tree with one more leaf. -/
def Tree.graft [DecidableEq Node] [DecidableEq Name] (tree : Tree Node Name) (point leaf : Node)
    (name : Name) : Tree Node Name where
  parent node := if node = leaf then some point else tree.parent node
  child node called :=
    if node = leaf then none
    else if node = point ∧ called = name then some leaf
    else tree.child node called

/-- The second tree is the first with a leaf that was no node of it. -/
structure Grafted (tree other : Tree Node Name) (point leaf : Node) (name : Name) : Prop where
  free : tree.child point name = none
  child : ∀ node called, node ≠ leaf → ¬ (node = point ∧ called = name) →
    other.child node called = tree.child node called
  found : other.child point name = some leaf
  empty : ∀ called, other.child leaf called = none
  parent : ∀ node, node ≠ leaf → other.parent node = tree.parent node
  back : other.parent leaf = some point
  fresh : ∀ node called, tree.child node called ≠ some leaf
  freshParent : ∀ node, tree.parent node ≠ some leaf
  apart : point ≠ leaf

variable {point leaf : Node} {name : Name}

theorem Grafted.eq_graft [DecidableEq Node] [DecidableEq Name]
    (grafted : Grafted tree other point leaf name) : other = tree.graft point leaf name := by
  have parents : other.parent = (tree.graft point leaf name).parent := by
    funext node
    change _ = if node = leaf then some point else tree.parent node
    split
    · rename_i isLeaf
      rw [isLeaf, grafted.back]
    · rename_i old
      exact grafted.parent node old
  have children : other.child = (tree.graft point leaf name).child := by
    funext node called
    change _ = if node = leaf then none
      else if node = point ∧ called = name then some leaf else tree.child node called
    split
    · rename_i isLeaf
      rw [isLeaf, grafted.empty]
    · rename_i old
      split
      · rename_i same
        rw [same.1, same.2, grafted.found]
      · rename_i away
        exact grafted.child node called old away
  cases other
  exact congrArg₂ Tree.mk parents children

theorem Grafted.old (grafted : Grafted tree other point leaf name) (start : node ≠ leaf)
    {step : Step Name} {next : Node} (stepped : tree.step node step = some next) : next ≠ leaf := by
  cases step with
  | up =>
      obtain rfl := Option.some.inj stepped
      cases above : tree.parent node with
      | none => exact start
      | some parent =>
          rintro rfl
          exact grafted.freshParent node above
  | child called =>
      rintro rfl
      exact grafted.fresh node called stepped

theorem Grafted.walk_some (grafted : Grafted tree other point leaf name) (start : node ≠ leaf)
    {last : Node} (walked : tree.walk node steps = some last) :
    other.walk node steps = some last := by
  induction steps generalizing node with
  | nil => exact walked
  | cons step rest ih =>
      obtain ⟨next, stepped, later⟩ := Option.bind_eq_some_iff.mp walked
      have same : other.step node step = some next := by
        cases step with
        | up =>
            rw [Tree.step, grafted.parent node start]
            exact stepped
        | child called =>
            refine (grafted.child node called start ?_).trans stepped
            rintro ⟨rfl, rfl⟩
            cases grafted.free.symm.trans stepped
      rw [Tree.walk, same]
      exact ih (grafted.old start stepped) later

theorem Grafted.walk_eq (grafted : Grafted tree other point leaf name) (start : node ≠ leaf)
    (around : leaf ∉ other.way node steps) : other.walk node steps = tree.walk node steps := by
  induction steps generalizing node with
  | nil => rfl
  | cons step rest ih =>
      rw [Tree.way] at around
      have same : other.step node step = tree.step node step := by
        cases step with
        | up => rw [Tree.step, Tree.step, grafted.parent node start]
        | child called =>
            refine grafted.child node called start ?_
            rintro ⟨rfl, rfl⟩
            have stepped : other.step node (.child called) = some leaf := grafted.found
            rw [stepped] at around
            exact around (List.mem_cons_of_mem _ start_mem_way)
      rw [Tree.walk, Tree.walk, same]
      cases stepped : tree.step node step with
      | none => rfl
      | some next =>
          rw [same, stepped] at around
          exact ih (grafted.old start stepped) fun member => around (List.mem_cons_of_mem _ member)

theorem Grafted.old_walk (grafted : Grafted tree other point leaf name) (start : node ≠ leaf)
    {last : Node} (walked : tree.walk node steps = some last) : last ≠ leaf := by
  induction steps generalizing node with
  | nil =>
      obtain rfl := Option.some.inj walked
      exact start
  | cons step rest ih =>
      obtain ⟨next, stepped, later⟩ := Option.bind_eq_some_iff.mp walked
      exact ih (grafted.old start stepped) later

/-- From the leaf no child leads on. -/
theorem Grafted.walk_from (grafted : Grafted tree other point leaf name)
    (down : DownThenUp steps) (walked : other.walk leaf steps = some leaf) : steps = [] := by
  cases steps with
  | nil => rfl
  | cons step rest =>
      cases step with
      | up =>
          obtain rfl : rest = [] := down
          rw [Tree.walk, Tree.step, grafted.back] at walked
          exact absurd (Option.some.inj walked) grafted.apart
      | child called =>
          rw [Tree.walk, Tree.step, grafted.empty] at walked
          cases walked

/-- Where the leaf hangs on a root, it is not below other nodes. -/
theorem Grafted.walk_below (grafted : Grafted tree other point leaf name)
    (top : ∀ node called, tree.child node called ≠ some point) (down : DownThenUp steps)
    (start : node ≠ leaf) (away : node ≠ point) : other.walk node steps ≠ some leaf := by
  induction steps generalizing node with
  | nil => exact fun same => start (Option.some.inj same)
  | cons step rest ih =>
      cases step with
      | up =>
          obtain rfl : rest = [] := down
          intro walked
          rw [Tree.walk, Tree.step, grafted.parent node start] at walked
          have stepped : tree.step node .up = some leaf := walked
          exact grafted.old start stepped rfl
      | child called =>
          intro walked
          rw [Tree.walk, Tree.step,
            grafted.child node called start fun same => away same.1] at walked
          obtain ⟨next, found, later⟩ := Option.bind_eq_some_iff.mp walked
          refine ih down ?_ ?_ later
          · rintro rfl
            exact grafted.fresh node called found
          · rintro rfl
            exact top node called found

theorem Grafted.walk_leaf (grafted : Grafted tree other point leaf name) (start : node ≠ leaf)
    (walked : other.walk node steps = some leaf) : tree.walk node steps = none := by
  cases before : tree.walk node steps with
  | none => rfl
  | some last =>
      have same := grafted.walk_some start before
      exact absurd (Option.some.inj (same.symm.trans walked)) (grafted.old_walk start before)

end Grafts

end PathWalk
