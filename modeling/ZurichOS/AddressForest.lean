import ZurichOS.PartialTable
import Mathlib.Data.List.Basic
import Mathlib.Logic.Relation

set_option linter.all false

/-!
Trees in memory: entries that know their children and their parent, at addresses that are
given out once.
-/

namespace AddressForest

open PartialTable

/-- Only an inner entry may have children. -/
structure Entry where
  children : List Nat
  parent : Option Nat
  inner : Bool
  deriving DecidableEq

structure Forest where
  entries : Nat → Option Entry
  root : Option Nat
  next : Nat

structure Forest.Sound (f : Forest) : Prop where
  fresh : ∀ node, f.next ≤ node → f.entries node = none
  child : ∀ node entry, f.entries node = some entry → ∀ child ∈ entry.children,
    ∃ below, f.entries child = some below ∧ below.parent = some node
  parent : ∀ node entry up, f.entries node = some entry → entry.parent = some up →
    ∃ above, f.entries up = some above ∧ node ∈ above.children
  nodup : ∀ node entry, f.entries node = some entry → entry.children.Nodup
  leaf : ∀ node entry, f.entries node = some entry → entry.inner = false → entry.children = []
  root : ∀ node, f.root = some node → ∃ entry, f.entries node = some entry ∧ entry.parent = none

/-- What the root leads to, down to children and up to parents. -/
inductive Forest.Found (f : Forest) : Nat → Prop
  | root {node} : f.root = some node → f.Found node
  | child {node entry child} : f.Found node → f.entries node = some entry →
      child ∈ entry.children → f.Found child
  | parent {node entry up} : f.Found node → f.entries node = some entry →
      entry.parent = some up → f.Found up

def Forest.birth (f : Forest) (parent : Nat) (entry : Entry) (inner : Bool) : Forest :=
  { f with
    entries := Function.update (Function.update f.entries f.next (some ⟨[], some parent, inner⟩))
      parent (some { entry with children := entry.children ++ [f.next] })
    next := f.next + 1 }

/-- A new leaf that belongs to nothing. -/
def Forest.stray (f : Forest) (inner : Bool) : Forest :=
  { f with
    entries := Function.update f.entries f.next (some ⟨[], none, inner⟩)
    next := f.next + 1 }

def Forest.prune (f : Forest) (parent : Nat) (entry : Entry) (child : Nat) : Forest :=
  { f with
    entries := Function.update (Function.update f.entries parent
      (some { entry with children := entry.children.erase child })) child none }

inductive Edit (f : Forest) : Forest → Prop
  | skip : Edit f { f with next := f.next + 1 }
  | stray (inner) : Edit f (f.stray inner)
  | plant (inner) : Edit f { f.stray inner with root := some f.next }
  | birth {parent entry} (inner) : f.entries parent = some entry → entry.inner = true →
      Edit f (f.birth parent entry inner)
  | prune {parent entry child below} : f.entries parent = some entry → child ∈ entry.children →
      f.entries child = some below → below.children = [] → Edit f (f.prune parent entry child)

variable {f g : Forest} {node parent child : Nat} {entry below : Entry} {inner : Bool}

theorem Forest.Sound.ne_next (sound : f.Sound) (held : f.entries node = some entry) :
    node ≠ f.next := by
  rintro rfl
  rw [sound.fresh f.next (Nat.le_refl _)] at held
  cases held

theorem Forest.Found.held (sound : f.Sound) (found : f.Found node) :
    ∃ entry, f.entries node = some entry := by
  induction found with
  | root isRoot =>
      obtain ⟨entry, held, _⟩ := sound.root _ isRoot
      exact ⟨entry, held⟩
  | child _ held member _ =>
      obtain ⟨below, isBelow, _⟩ := sound.child _ _ held _ member
      exact ⟨below, isBelow⟩
  | parent _ held up _ =>
      obtain ⟨above, isAbove, _⟩ := sound.parent _ _ _ held up
      exact ⟨above, isAbove⟩

theorem Forest.Found.old (sound : f.Sound) (found : f.Found node) : node < f.next := by
  obtain ⟨entry, held⟩ := found.held sound
  by_contra large
  rw [sound.fresh node (Nat.le_of_not_lt large)] at held
  cases held

theorem found_next {next : Nat} : ({ f with next } : Forest).Found node ↔ f.Found node := by
  constructor
  · intro found
    induction found with
    | root isRoot => exact .root isRoot
    | child _ held member ih => exact .child ih held member
    | parent _ held up ih => exact .parent ih held up
  · intro found
    induction found with
    | root isRoot => exact .root isRoot
    | child _ held member ih => exact .child ih held member
    | parent _ held up ih => exact .parent ih held up

section Stray

theorem stray_some {entry : Entry} : (f.stray inner).entries node = some entry ↔
    node = f.next ∧ entry = ⟨[], none, inner⟩ ∨ node ≠ f.next ∧ f.entries node = some entry := by
  rw [Forest.stray, update_some, Option.some.injEq, eq_comm (a := entry)]

theorem Forest.Sound.stray (sound : f.Sound) (inner : Bool) : (f.stray inner).Sound := by
  have kept : ∀ node entry, f.entries node = some entry →
      (f.stray inner).entries node = some entry := by
    intro node entry held
    exact stray_some.mpr (.inr ⟨sound.ne_next held, held⟩)
  constructor
  · intro node large
    change f.next + 1 ≤ node at large
    change Function.update f.entries f.next _ node = none
    have away : node ≠ f.next := by omega
    rw [Function.update_of_ne away]
    exact sound.fresh node (by omega)
  · intro node entry held child member
    rcases stray_some.mp held with ⟨_, rfl⟩ | ⟨_, held⟩
    · cases member
    · obtain ⟨below, isBelow, up⟩ := sound.child node entry held child member
      exact ⟨below, kept child below isBelow, up⟩
  · intro node entry up held isUp
    rcases stray_some.mp held with ⟨_, rfl⟩ | ⟨_, held⟩
    · cases isUp
    · obtain ⟨above, isAbove, member⟩ := sound.parent node entry up held isUp
      exact ⟨above, kept up above isAbove, member⟩
  · intro node entry held
    rcases stray_some.mp held with ⟨_, rfl⟩ | ⟨_, held⟩
    · exact List.nodup_nil
    · exact sound.nodup node entry held
  · intro node entry held
    rcases stray_some.mp held with ⟨_, rfl⟩ | ⟨_, held⟩
    · intro _
      rfl
    · exact sound.leaf node entry held
  · intro node isRoot
    obtain ⟨entry, held, top⟩ := sound.root node isRoot
    exact ⟨entry, kept node entry held, top⟩

end Stray

section Birth

theorem birth_some (sound : f.Sound) (held : f.entries parent = some entry) {found : Entry} :
    (f.birth parent entry inner).entries node = some found ↔
      node = parent ∧ found = { entry with children := entry.children ++ [f.next] } ∨
      node = f.next ∧ found = ⟨[], some parent, inner⟩ ∨
      node ≠ parent ∧ node ≠ f.next ∧ f.entries node = some found := by
  have apart := sound.ne_next held
  rw [Forest.birth, update_some, update_some, Option.some.injEq, Option.some.injEq,
    eq_comm (b := found), eq_comm (b := found)]
  constructor
  · rintro (here | ⟨away, ⟨rfl, isNew⟩ | ⟨old, same⟩⟩)
    · exact .inl here
    · exact .inr (.inl ⟨rfl, isNew⟩)
    · exact .inr (.inr ⟨away, old, same⟩)
  · rintro (here | ⟨rfl, isNew⟩ | ⟨away, old, same⟩)
    · exact .inl here
    · exact .inr ⟨Ne.symm apart, .inl ⟨rfl, isNew⟩⟩
    · exact .inr ⟨away, .inr ⟨old, same⟩⟩

/-- What was there is there after it, with the same parent and no child less. -/
theorem birth_kept (inner : Bool) (sound : f.Sound) (held : f.entries parent = some entry) {found : Entry}
    (old : f.entries node = some found) :
    ∃ later, (f.birth parent entry inner).entries node = some later ∧
      later.parent = found.parent ∧ ∀ child ∈ found.children, child ∈ later.children := by
  by_cases own : node = parent
  · subst own
    obtain rfl := Option.some.inj (held.symm.trans old)
    exact ⟨_, (birth_some sound held).mpr (.inl ⟨rfl, rfl⟩), rfl,
      fun child member => List.mem_append_left _ member⟩
  · exact ⟨found, (birth_some sound held).mpr (.inr (.inr ⟨own, sound.ne_next old, old⟩)), rfl,
      fun child member => member⟩

theorem Forest.Sound.birth (sound : f.Sound) (held : f.entries parent = some entry)
    (isInner : entry.inner = true) (inner : Bool) : (f.birth parent entry inner).Sound := by
  have isNew : (f.birth parent entry inner).entries f.next = some ⟨[], some parent, inner⟩ :=
    (birth_some sound held).mpr (.inr (.inl ⟨rfl, rfl⟩))
  have isParent : (f.birth parent entry inner).entries parent =
      some { entry with children := entry.children ++ [f.next] } :=
    (birth_some sound held).mpr (.inl ⟨rfl, rfl⟩)
  constructor
  · intro node large
    change f.next + 1 ≤ node at large
    have old := sound.fresh node (by omega)
    cases isEntry : (f.birth parent entry inner).entries node with
    | none => rfl
    | some found =>
        rcases (birth_some sound held).mp isEntry with ⟨rfl, _⟩ | ⟨rfl, _⟩ | ⟨_, _, same⟩
        · rw [held] at old
          cases old
        · omega
        · rw [old] at same
          cases same
  · intro node found isFound child member
    have lower : ∀ above, f.entries node = some above → child ∈ above.children →
        ∃ below, (f.birth parent entry inner).entries child = some below ∧
          below.parent = some node := by
      intro above isAbove member
      obtain ⟨below, isBelow, up⟩ := sound.child node above isAbove child member
      obtain ⟨later, isLater, sameParent, _⟩ := birth_kept inner sound held isBelow
      exact ⟨later, isLater, sameParent.trans up⟩
    rcases (birth_some sound held).mp isFound with ⟨rfl, rfl⟩ | ⟨_, rfl⟩ | ⟨_, _, same⟩
    · rcases List.mem_append.mp member with old | last
      · exact lower entry held old
      · obtain rfl := List.mem_singleton.mp last
        exact ⟨_, isNew, rfl⟩
    · cases member
    · exact lower found same member
  · intro node found up isFound isUp
    have upper : ∀ below, f.entries node = some below → below.parent = some up →
        ∃ above, (f.birth parent entry inner).entries up = some above ∧ node ∈ above.children := by
      intro below isBelow isUp
      obtain ⟨above, isAbove, member⟩ := sound.parent node below up isBelow isUp
      obtain ⟨later, isLater, _, more⟩ := birth_kept inner sound held isAbove
      exact ⟨later, isLater, more node member⟩
    rcases (birth_some sound held).mp isFound with ⟨rfl, rfl⟩ | ⟨rfl, rfl⟩ | ⟨_, _, same⟩
    · exact upper entry held isUp
    · cases isUp
      exact ⟨_, isParent, List.mem_append_right _ (List.mem_singleton_self _)⟩
    · exact upper found same isUp
  · intro node found isFound
    rcases (birth_some sound held).mp isFound with ⟨_, rfl⟩ | ⟨_, rfl⟩ | ⟨_, _, same⟩
    · refine List.nodup_append.mpr ⟨sound.nodup parent entry held, List.pairwise_singleton _ _, ?_⟩
      intro child member last isLast equal
      obtain rfl := List.mem_singleton.mp isLast
      obtain ⟨below, isBelow, _⟩ := sound.child parent entry held child member
      exact sound.ne_next isBelow equal
    · exact List.nodup_nil
    · exact sound.nodup node found same
  · intro node found isFound isLeaf
    rcases (birth_some sound held).mp isFound with ⟨_, rfl⟩ | ⟨_, rfl⟩ | ⟨_, _, same⟩
    · exact absurd (isInner.symm.trans isLeaf) (by decide)
    · rfl
    · exact sound.leaf node found same isLeaf
  · intro node isRoot
    obtain ⟨found, isFound, top⟩ := sound.root node isRoot
    obtain ⟨later, isLater, sameParent, _⟩ := birth_kept inner sound held isFound
    exact ⟨later, isLater, sameParent.trans top⟩

end Birth

section Prune

theorem prune_some {found : Entry} :
    (f.prune parent entry child).entries node = some found ↔
      node ≠ child ∧ (node = parent ∧ found = { entry with children := entry.children.erase child } ∨
        node ≠ parent ∧ f.entries node = some found) := by
  rw [Forest.prune, update_none_some, update_some, Option.some.injEq, eq_comm (b := found)]

theorem Forest.Sound.prune (sound : f.Sound) (held : f.entries parent = some entry)
    (member : child ∈ entry.children) (isBelow : f.entries child = some below)
    (empty : below.children = []) : (f.prune parent entry child).Sound := by
  obtain ⟨_, same, childUp⟩ := sound.child parent entry held child member
  obtain rfl := Option.some.inj (isBelow.symm.trans same)
  have apart : parent ≠ child := by
    rintro rfl
    obtain rfl := Option.some.inj (isBelow.symm.trans held)
    rw [empty] at member
    cases member
  -- What remains has its old parent, and its children but for the one that is gone.
  have kept : ∀ node found, node ≠ child → f.entries node = some found →
      ∃ later, (f.prune parent entry child).entries node = some later ∧
        later.parent = found.parent ∧
        ∀ other, other ≠ child → other ∈ found.children → other ∈ later.children := by
    intro node found away isFound
    by_cases own : node = parent
    · subst own
      obtain rfl := Option.some.inj (held.symm.trans isFound)
      exact ⟨_, prune_some.mpr ⟨away, .inl ⟨rfl, rfl⟩⟩, rfl,
        fun other distinct inside => (List.mem_erase_of_ne distinct).mpr inside⟩
    · exact ⟨found, prune_some.mpr ⟨away, .inr ⟨own, isFound⟩⟩, rfl, fun _ _ inside => inside⟩
  -- The child that is gone was a child of its parent only, and once.
  have gone : ∀ node found, (f.prune parent entry child).entries node = some found →
      ∃ before, f.entries node = some before ∧ found.parent = before.parent ∧
        found.inner = before.inner ∧ found.children.Sublist before.children ∧
        child ∉ found.children := by
    intro node found isFound
    obtain ⟨_, ⟨rfl, rfl⟩ | ⟨own, isFound⟩⟩ := prune_some.mp isFound
    · exact ⟨entry, held, rfl, rfl, List.erase_sublist,
        fun again => ((sound.nodup node entry held).mem_erase_iff.mp again).1 rfl⟩
    · refine ⟨found, isFound, rfl, rfl, List.Sublist.refl _, fun again => ?_⟩
      obtain ⟨other, isOther, otherUp⟩ := sound.child node found isFound child again
      obtain rfl := Option.some.inj (isBelow.symm.trans isOther)
      exact own (Option.some.inj (otherUp.symm.trans childUp))
  constructor
  · intro node large
    cases isEntry : (f.prune parent entry child).entries node with
    | none => rfl
    | some found =>
        obtain ⟨before, isBefore, _⟩ := gone node found isEntry
        rw [sound.fresh node large] at isBefore
        cases isBefore
  · intro node found isFound other inside
    obtain ⟨before, isBefore, _, _, sub, without⟩ := gone node found isFound
    obtain ⟨lower, isLower, up⟩ := sound.child node before isBefore other (sub.subset inside)
    have away : other ≠ child := fun same => without (same ▸ inside)
    obtain ⟨later, isLater, sameParent, _⟩ := kept other lower away isLower
    exact ⟨later, isLater, sameParent.trans up⟩
  · intro node found up isFound isUp
    have away : node ≠ child := (prune_some.mp isFound).1
    obtain ⟨before, isBefore, sameParent, _⟩ := gone node found isFound
    obtain ⟨above, isAbove, inside⟩ := sound.parent node before up isBefore (sameParent ▸ isUp)
    have upAway : up ≠ child := by
      rintro rfl
      obtain rfl := Option.some.inj (isBelow.symm.trans isAbove)
      rw [empty] at inside
      cases inside
    obtain ⟨later, isLater, _, more⟩ := kept up above upAway isAbove
    exact ⟨later, isLater, more node away inside⟩
  · intro node found isFound
    obtain ⟨before, isBefore, _, _, sub, _⟩ := gone node found isFound
    exact (sound.nodup node before isBefore).sublist sub
  · intro node found isFound isLeaf
    obtain ⟨before, isBefore, _, sameInner, sub, _⟩ := gone node found isFound
    have none := sound.leaf node before isBefore (sameInner.symm.trans isLeaf)
    rw [none] at sub
    exact List.sublist_nil.mp sub
  · intro node isRoot
    obtain ⟨found, isFound, top⟩ := sound.root node isRoot
    have away : node ≠ child := by
      rintro rfl
      obtain rfl := Option.some.inj (isBelow.symm.trans isFound)
      rw [top] at childUp
      cases childUp
    obtain ⟨later, isLater, sameParent, _⟩ := kept node found away isFound
    exact ⟨later, isLater, sameParent.trans top⟩

end Prune

section Edits

theorem Edit.sound (edit : Edit f g) (sound : f.Sound) : g.Sound := by
  cases edit with
  | skip =>
      exact { sound with
        fresh := fun node large => sound.fresh node (Nat.le_of_succ_le large) }
  | stray inner => exact sound.stray inner
  | plant inner =>
      exact { sound.stray inner with
        root := fun node isRoot => ⟨_, stray_some.mpr (.inl ⟨(Option.some.inj isRoot).symm, rfl⟩), rfl⟩ }
  | birth inner held isInner => exact sound.birth held isInner inner
  | prune held member isBelow empty => exact sound.prune held member isBelow empty

theorem Edit.next_le (edit : Edit f g) : f.next ≤ g.next := by
  cases edit with
  | prune => exact Nat.le_refl _
  | _ => exact Nat.le_succ _

/-- The root leads to nothing that was there and that it did not lead to. -/
theorem Edit.found (edit : Edit f g) (sound : f.Sound) (found : g.Found node) :
    f.Found node ∨ f.next ≤ node := by
  have after := edit.sound sound
  cases edit with
  | skip => exact .inl (found_next.mp found)
  | stray inner =>
      left
      induction found with
      | root isRoot => exact .root isRoot
      | child _ held member ih =>
          rcases stray_some.mp held with ⟨_, rfl⟩ | ⟨_, held⟩
          · cases member
          · exact .child ih held member
      | parent _ held up ih =>
          rcases stray_some.mp held with ⟨_, rfl⟩ | ⟨_, held⟩
          · cases up
          · exact .parent ih held up
  | plant inner =>
      right
      induction found with
      | root isRoot => exact Nat.le_of_eq (Option.some.inj isRoot)
      | child _ held member ih =>
          rcases stray_some.mp held with ⟨_, rfl⟩ | ⟨_, held⟩
          · cases member
          · rw [sound.fresh _ ih] at held
            cases held
      | parent _ held up ih =>
          rcases stray_some.mp held with ⟨_, rfl⟩ | ⟨_, held⟩
          · cases up
          · rw [sound.fresh _ ih] at held
            cases held
  | @birth parent entry inner held isInner =>
      -- The new child is found only if its parent was.
      have stronger : f.Found node ∨ node = f.next ∧ f.Found parent := by
        induction found with
        | root isRoot => exact .inl (.root isRoot)
        | child _ isAbove member ih =>
            rcases (birth_some sound held).mp isAbove with ⟨rfl, rfl⟩ | ⟨rfl, rfl⟩ | ⟨_, new, same⟩
            · have foundParent := ih.elim id And.right
              rcases List.mem_append.mp member with old | last
              · exact .inl (.child foundParent held old)
              · exact .inr ⟨List.mem_singleton.mp last, foundParent⟩
            · cases member
            · rcases ih with found | ⟨isNew, _⟩
              · exact .inl (.child found same member)
              · exact absurd isNew new
        | parent _ isBelow up ih =>
            rcases (birth_some sound held).mp isBelow with ⟨rfl, rfl⟩ | ⟨rfl, rfl⟩ | ⟨_, new, same⟩
            · exact .inl (.parent (ih.elim id And.right) held up)
            · cases up
              rcases ih with found | ⟨_, found⟩
              · exact absurd rfl (Nat.ne_of_lt (found.old sound))
              · exact .inl found
            · rcases ih with found | ⟨isNew, _⟩
              · exact .inl (.parent found same up)
              · exact absurd isNew new
      rcases stronger with found | ⟨rfl, _⟩
      · exact .inl found
      · exact .inr (Nat.le_refl _)
  | @prune parent entry child below held member isBelow empty =>
      left
      induction found with
      | root isRoot => exact .root isRoot
      | child _ isAbove inside ih =>
          obtain ⟨_, ⟨rfl, rfl⟩ | ⟨_, same⟩⟩ := prune_some.mp isAbove
          · exact .child ih held (List.mem_of_mem_erase inside)
          · exact .child ih same inside
      | parent _ isFound up ih =>
          obtain ⟨_, ⟨rfl, rfl⟩ | ⟨_, same⟩⟩ := prune_some.mp isFound
          · exact .parent ih held up
          · exact .parent ih same up

theorem Forest.Found.birth (sound : f.Sound) (held : f.entries parent = some entry)
    (found : f.Found node) : (f.birth parent entry inner).Found node := by
  induction found with
  | root isRoot => exact .root isRoot
  | child _ isAbove member ih =>
      obtain ⟨later, isLater, _, more⟩ := birth_kept inner sound held isAbove
      exact .child ih isLater (more _ member)
  | parent _ isBelow up ih =>
      obtain ⟨later, isLater, sameParent, _⟩ := birth_kept inner sound held isBelow
      exact .parent ih isLater (sameParent.trans up)

theorem Forest.Found.born (inner : Bool) (sound : f.Sound) (held : f.entries parent = some entry)
    (found : f.Found parent) : (f.birth parent entry inner).Found f.next :=
  .child (found.birth sound held) ((birth_some sound held).mpr (.inl ⟨rfl, rfl⟩))
    (List.mem_append_right _ (List.mem_singleton_self _))

abbrev Edits : Forest → Forest → Prop := Relation.ReflTransGen Edit

theorem Edits.sound (edits : Edits f g) (sound : f.Sound) : g.Sound := by
  induction edits with
  | refl => exact sound
  | tail _ edit ih => exact edit.sound ih

theorem Edits.next_le (edits : Edits f g) : f.next ≤ g.next := by
  induction edits with
  | refl => exact Nat.le_refl _
  | tail _ edit ih => exact Nat.le_trans ih edit.next_le

theorem Edits.found (edits : Edits f g) (sound : f.Sound) (found : g.Found node) :
    f.Found node ∨ f.next ≤ node := by
  induction edits with
  | refl => exact .inl found
  | tail before edit ih =>
      rcases edit.found (Edits.sound before sound) found with old | new
      · exact ih old
      · exact .inr (Nat.le_trans (Edits.next_le before) new)

end Edits

end AddressForest
