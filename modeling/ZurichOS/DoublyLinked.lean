import Mathlib.Data.List.Nodup

/-!
Doubly linked lists of nodes kept in a store of addresses, 0 being the null
pointer.  A list is described by the addresses and contents of its nodes in order;
the lemmas say how the loops that walk it and the edits that relink it act on that
description.
-/

namespace DoublyLinked

/-- Node types with a pointer to either neighbour. -/
class Links (ν : Type) where
  prev : ν → Nat
  next : ν → Nat
  withPrev : ν → Nat → ν
  prev_withPrev : ∀ node address, prev (withPrev node address) = address
  next_withPrev : ∀ node address, next (withPrev node address) = next node

variable {ν : Type}

def first (after : Nat) : List (Nat × ν) → Nat
  | [] => after
  | (address, _) :: _ => address

def last (before : Nat) : List (Nat × ν) → Nat
  | [] => before
  | (address, _) :: rest => last address rest

theorem first_append (after : Nat) (left right : List (Nat × ν)) :
    first after (left ++ right) = first (first after right) left := by
  cases left <;> rfl

theorem last_append (before : Nat) (left right : List (Nat × ν)) :
    last before (left ++ right) = last (last before left) right := by
  induction left generalizing before with
  | nil => rfl
  | cons node rest ih => exact ih node.1

def Stored (store : Nat → ν) (nodes : List (Nat × ν)) : Prop :=
  ∀ node ∈ nodes, store node.1 = node.2

def edit (store : Nat → ν) (address : Nat) (change : ν → ν) : Nat → ν :=
  fun other => if other = address then change (store other) else store other

theorem edit_self (store : Nat → ν) (address : Nat) (change : ν → ν) :
    edit store address change address = change (store address) := by
  simp [edit]

theorem edit_other (store : Nat → ν) {address other : Nat} (change : ν → ν)
    (apart : other ≠ address) : edit store address change other = store other := by
  simp [edit, apart]

theorem stored_append (store : Nat → ν) (left right : List (Nat × ν)) :
    Stored store (left ++ right) ↔ Stored store left ∧ Stored store right :=
  List.forall_mem_append

theorem stored_cons (store : Nat → ν) (node : Nat × ν) (rest : List (Nat × ν)) :
    Stored store (node :: rest) ↔ store node.1 = node.2 ∧ Stored store rest :=
  List.forall_mem_cons

theorem Stored.edit {store : Nat → ν} {nodes : List (Nat × ν)} (stored : Stored store nodes)
    {address : Nat} (absent : ∀ node ∈ nodes, node.1 ≠ address) (change : ν → ν) :
    Stored (edit store address change) nodes := by
  intro node member
  rw [edit_other store change (absent node member)]
  exact stored node member

def Distinct (nodes : List (Nat × ν)) : Prop := (nodes.map Prod.fst).Nodup

theorem Distinct.split {left right : List (Nat × ν)} {address : Nat} {node : ν}
    (distinct : Distinct (left ++ (address, node) :: right)) :
    (∀ other ∈ left, other.1 ≠ address) ∧ (∀ other ∈ right, other.1 ≠ address) := by
  rw [Distinct, List.map_append, List.map_cons, List.nodup_middle, List.nodup_cons] at distinct
  obtain ⟨absent, _⟩ := distinct
  refine ⟨fun other member same => absent ?_, fun other member same => absent ?_⟩
  · exact List.mem_append_left _ (List.mem_map.mpr ⟨other, member, same⟩)
  · exact List.mem_append_right _ (List.mem_map.mpr ⟨other, member, same⟩)

theorem Distinct.apart {left right : List (Nat × ν)} (distinct : Distinct (left ++ right)) :
    Distinct right ∧ ∀ node ∈ left, ∀ other ∈ right, node.1 ≠ other.1 := by
  rw [Distinct, List.map_append, List.nodup_append] at distinct
  obtain ⟨_, tail, across⟩ := distinct
  refine ⟨tail, fun node member other behind => ?_⟩
  exact across _ (List.mem_map_of_mem member) _ (List.mem_map_of_mem behind)

theorem Distinct.insert {left right : List (Nat × ν)} {fresh : Nat} (new : ν)
    (distinct : Distinct (left ++ right)) (absent : ∀ other ∈ left ++ right, other.1 ≠ fresh) :
    Distinct (left ++ (fresh, new) :: right) := by
  rw [Distinct, List.map_append, List.map_cons, List.nodup_middle, List.nodup_cons,
    ← List.map_append]
  refine ⟨fun member => ?_, distinct⟩
  obtain ⟨other, inside, same⟩ := List.mem_map.mp member
  exact absent other inside same

theorem Stored.edit_at {store : Nat → ν} {left right : List (Nat × ν)} {address : Nat}
    {node : ν} (stored : Stored store (left ++ (address, node) :: right))
    (distinct : Distinct (left ++ (address, node) :: right)) (change : ν → ν) :
    Stored (DoublyLinked.edit store address change)
      (left ++ (address, change node) :: right) := by
  obtain ⟨before, after⟩ := distinct.split
  obtain ⟨front, rest⟩ := (stored_append _ _ _).mp stored
  obtain ⟨own, back⟩ := (stored_cons _ _ _).mp rest
  refine (stored_append _ _ _).mpr ⟨front.edit before change, (stored_cons _ _ _).mpr ⟨?_, ?_⟩⟩
  · exact (edit_self _ _ _).trans (congrArg change own)
  · exact back.edit after change

theorem Stored.extend {store : Nat → ν} {left : List (Nat × ν)} {address fresh : Nat}
    {node : ν} (stored : Stored store (left ++ [(address, node)]))
    (distinct : Distinct (left ++ [(address, node)]))
    (absent : ∀ other ∈ left ++ [(address, node)], other.1 ≠ fresh) (make change back : ν → ν) :
    Stored
      (DoublyLinked.edit
        (DoublyLinked.edit (DoublyLinked.edit store fresh make) address change) fresh back)
      (left ++ [(address, change node), (fresh, back (make (store fresh)))]) := by
  have apart : fresh ≠ address := (absent (address, node) (by simp)).symm
  have outside : ∀ other ∈ left ++ [(address, change node)], other.1 ≠ fresh := by
    intro other member
    rcases List.mem_append.mp member with old | new
    · exact absent other (List.mem_append_left _ old)
    · rw [List.mem_singleton.mp new]
      exact apart.symm
  have kept := ((stored.edit absent make).edit_at distinct change).edit outside back
  intro other member
  rcases List.mem_append.mp (show other ∈ (left ++ [(address, change node)]) ++
    [(fresh, back (make (store fresh)))] by simpa using member) with old | new
  · exact kept other old
  · rw [List.mem_singleton.mp new, edit_self, edit_other _ _ apart, edit_self]

variable [Links ν]

open Links

def Linked (before after : Nat) : List (Nat × ν) → Prop
  | [] => True
  | (address, node) :: rest =>
      prev node = before ∧ next node = first after rest ∧ Linked address after rest

theorem linked_append (before after : Nat) (left right : List (Nat × ν)) :
    Linked before after (left ++ right) ↔
      Linked before (first after right) left ∧ Linked (last before left) after right := by
  induction left generalizing before with
  | nil => simp [Linked, last]
  | cons node rest ih =>
      simp only [List.cons_append, Linked, ih, last, first_append, and_assoc]

def relink (address : Nat) : List (Nat × ν) → List (Nat × ν)
  | [] => []
  | (own, node) :: rest => (own, withPrev node address) :: rest

theorem first_relink (address after : Nat) (nodes : List (Nat × ν)) :
    first after (relink address nodes) = first after nodes := by
  cases nodes <;> rfl

theorem linked_relink {before after address : Nat} {nodes : List (Nat × ν)}
    (linked : Linked before after nodes) : Linked address after (relink address nodes) := by
  cases nodes with
  | nil => trivial
  | cons node rest =>
      exact ⟨prev_withPrev _ _, (next_withPrev _ _).trans linked.2.1, linked.2.2⟩

/-- `if (p) p->prev = address`, for the pointer `p` to the first node. -/
def relinkStore (store : Nat → ν) (pointer address : Nat) : Nat → ν :=
  if pointer ≠ 0 then edit store pointer (fun node => withPrev node address) else store

theorem relinkStore_other (store : Nat → ν) {pointer address other : Nat}
    (apart : other ≠ pointer) : relinkStore store pointer address other = store other := by
  unfold relinkStore
  split
  · exact edit_other store _ apart
  · rfl

theorem Stored.relinkStore_outside {store : Nat → ν} {nodes : List (Nat × ν)}
    (stored : Stored store nodes) {pointer : Nat} (address : Nat)
    (absent : ∀ node ∈ nodes, node.1 ≠ pointer) :
    Stored (relinkStore store pointer address) nodes := by
  intro node member
  rw [relinkStore_other store (absent node member)]
  exact stored node member

theorem Stored.relink {store : Nat → ν} {nodes : List (Nat × ν)} (stored : Stored store nodes)
    (nonNull : ∀ node ∈ nodes, node.1 ≠ 0)
    (distinct : Distinct nodes) (address : Nat) :
    Stored (relinkStore store (first 0 nodes) address) (relink address nodes) := by
  cases nodes with
  | nil => exact fun node member => absurd member (by simp [DoublyLinked.relink])
  | cons node rest =>
      have own : node.1 ≠ 0 := nonNull node (by simp)
      have apart : ∀ other ∈ rest, other.1 ≠ node.1 :=
        (show Distinct ([] ++ (node.1, node.2) :: rest) from distinct).split.2
      obtain ⟨head, tail⟩ := (stored_cons _ _ _).mp stored
      refine (stored_cons _ _ _).mpr ⟨?_, ?_⟩
      · simp [relinkStore, first, own, edit_self, head]
      · exact Stored.relinkStore_outside tail address apart

theorem map_relink {β : Type} (view : Nat × ν → β)
    (same : ∀ own node address, view (own, withPrev node address) = view (own, node))
    (address : Nat) (nodes : List (Nat × ν)) :
    (relink address nodes).map view = nodes.map view := by
  cases nodes with
  | nil => rfl
  | cons node rest => simp [relink, same]

theorem linked_replace {before after address : Nat} {left right : List (Nat × ν)}
    {node changed : ν} (linked : Linked before after (left ++ (address, node) :: right))
    (same_prev : prev changed = prev node) (same_next : next changed = next node) :
    Linked before after (left ++ (address, changed) :: right) := by
  rw [linked_append] at linked ⊢
  obtain ⟨front, own, onward, back⟩ := linked
  exact ⟨front, same_prev.trans own, same_next.trans onward, back⟩

theorem linked_insert {before after address fresh : Nat} {left right : List (Nat × ν)}
    {node changed new : ν} (linked : Linked before after (left ++ (address, node) :: right))
    (same_prev : prev changed = prev node) (onward : next changed = fresh)
    (back : prev new = address) (follower : next new = next node) :
    Linked before after (left ++ (address, changed) :: (fresh, new) :: relink fresh right) := by
  rw [linked_append] at linked ⊢
  obtain ⟨front, own, toRight, rest⟩ := linked
  refine ⟨front, same_prev.trans own, onward, back, ?_, linked_relink rest⟩
  rw [follower, toRight, first_relink]

theorem linked_remove {before after address dropped : Nat} {left right : List (Nat × ν)}
    {node changed old : ν}
    (linked : Linked before after (left ++ (address, node) :: (dropped, old) :: right))
    (same_prev : prev changed = prev node) (follower : next changed = next old) :
    Linked before after (left ++ (address, changed) :: relink address right) := by
  rw [linked_append] at linked ⊢
  obtain ⟨front, own, _, _, toRight, rest⟩ := linked
  refine ⟨front, same_prev.trans own, ?_, linked_relink rest⟩
  rw [follower, toRight, first_relink]

theorem linked_extend {before address fresh : Nat} {left : List (Nat × ν)}
    {node changed new : ν} (linked : Linked before 0 (left ++ [(address, node)]))
    (same_prev : prev changed = prev node) (onward : next changed = fresh)
    (back : prev new = address) (stop : next new = 0) :
    Linked before 0 (left ++ [(address, changed), (fresh, new)]) := by
  rw [linked_append] at linked ⊢
  obtain ⟨front, own, _⟩ := linked
  exact ⟨front, same_prev.trans own, onward, back, stop, trivial⟩

theorem relinkStore_outside (store : Nat → ν) {nodes : List (Nat × ν)} {other : Nat}
    (outside : ∀ node ∈ nodes, other ≠ node.1) (address : Nat) :
    relinkStore store (first 0 nodes) address other = store other := by
  cases nodes with
  | nil => simp [relinkStore, first]
  | cons node rest => exact relinkStore_other store (outside node (by simp))

theorem Stored.relink_append {store : Nat → ν} {left right : List (Nat × ν)}
    (stored : Stored store (left ++ right)) (distinct : Distinct (left ++ right))
    (nonNull : ∀ other ∈ right, other.1 ≠ 0) (address : Nat) :
    Stored (relinkStore store (first 0 right) address)
      (left ++ DoublyLinked.relink address right) := by
  obtain ⟨front, back⟩ := (stored_append _ _ _).mp stored
  obtain ⟨tail, across⟩ := distinct.apart
  refine (stored_append _ _ _).mpr ⟨?_, back.relink nonNull tail address⟩
  intro node member
  rw [DoublyLinked.relinkStore_outside store (across node member) address]
  exact front node member

theorem distinct_relink (left right : List (Nat × ν)) (address : Nat) :
    Distinct (left ++ relink address right) ↔ Distinct (left ++ right) := by
  simp only [Distinct, List.map_append]
  rw [map_relink Prod.fst (fun _ _ _ => rfl)]

/-- The writes of an insertion: the new node, its follower, then the node before it. -/
theorem Stored.insert {store : Nat → ν} {left right : List (Nat × ν)} {address fresh : Nat}
    {node : ν} (stored : Stored store (left ++ (address, node) :: right))
    (distinct : Distinct (left ++ (address, node) :: right))
    (nonNull : ∀ other ∈ right, other.1 ≠ 0)
    (absent : ∀ other ∈ left ++ (address, node) :: right, other.1 ≠ fresh)
    (make change : ν → ν) :
    Stored
      (DoublyLinked.edit
        (relinkStore (DoublyLinked.edit store fresh make) (first 0 right) fresh) address change)
      (left ++ (address, change node) :: (fresh, make (store fresh)) ::
        DoublyLinked.relink fresh right) := by
  have spread : Distinct ((left ++ [(address, node), (fresh, make (store fresh))]) ++ right) := by
    have whole : Distinct ((left ++ [(address, node)]) ++ right) := by simpa using distinct
    simpa using whole.insert (make (store fresh)) (by simpa using absent)
  have made : Stored (DoublyLinked.edit store fresh make)
      ((left ++ [(address, node), (fresh, make (store fresh))]) ++ right) := by
    obtain ⟨front, rest⟩ := (stored_append _ _ _).mp (stored.edit absent make)
    obtain ⟨own, back⟩ := (stored_cons _ _ _).mp rest
    simp only [List.append_assoc, List.cons_append, List.nil_append, stored_append, stored_cons]
    exact ⟨front, own, edit_self _ _ _, back⟩
  have relinked := made.relink_append spread nonNull fresh
  have distinct_now := (distinct_relink _ _ fresh).mpr spread
  rw [List.append_assoc] at relinked distinct_now
  exact relinked.edit_at distinct_now change

theorem Stored.remove {store : Nat → ν} {left right : List (Nat × ν)} {address dropped : Nat}
    {node old : ν} (stored : Stored store (left ++ (address, node) :: (dropped, old) :: right))
    (distinct : Distinct (left ++ (address, node) :: (dropped, old) :: right))
    (nonNull : ∀ other ∈ right, other.1 ≠ 0) (change : ν → ν) :
    Stored
      (relinkStore (DoublyLinked.edit store address change) (first 0 right) address)
      (left ++ (address, change node) :: DoublyLinked.relink address right) := by
  have shorter : ((left ++ [(address, change node)]) ++ right).Sublist
      (left ++ (address, change node) :: (dropped, old) :: right) := by
    simp
  have edited := stored.edit_at distinct change
  have kept : Stored (DoublyLinked.edit store address change)
      ((left ++ [(address, change node)]) ++ right) := fun other member =>
    edited other (shorter.subset member)
  have spread : Distinct ((left ++ [(address, change node)]) ++ right) := by
    refine List.Nodup.sublist (shorter.map Prod.fst) ?_
    simpa [Distinct] using distinct
  have relinked := kept.relink_append spread nonNull address
  rwa [List.append_assoc] at relinked

/-- `while (p) { if (wanted(p)) return p; p = p->next; } return NULL`, at most `fuel`
rounds of it. -/
def searchFrom (store : Nat → ν) (wanted : ν → Bool) : Nat → Nat → Nat
  | 0, _ => 0
  | fuel + 1, pointer =>
      if pointer = 0 then 0
      else if wanted (store pointer) then pointer
      else searchFrom store wanted fuel (next (store pointer))

theorem searchFrom_eq {store : Nat → ν} (wanted : ν → Bool) {nodes : List (Nat × ν)}
    {before fuel : Nat} (stored : Stored store nodes) (linked : Linked before 0 nodes)
    (nonNull : ∀ node ∈ nodes, node.1 ≠ 0) (enough : nodes.length < fuel) :
    searchFrom store wanted fuel (first 0 nodes) =
      ((nodes.find? fun node => wanted node.2).map Prod.fst).getD 0 := by
  induction nodes generalizing before fuel with
  | nil => cases fuel <;> simp [searchFrom, first]
  | cons node rest ih =>
      cases fuel with
      | zero => simp at enough
      | succ fuel =>
          obtain ⟨head, tail⟩ := (stored_cons _ _ _).mp stored
          have own : node.1 ≠ 0 := nonNull node (by simp)
          simp only [searchFrom, first, own, if_false, head, List.find?_cons]
          cases found : wanted node.2 with
          | true => simp
          | false =>
              simp only [Bool.false_eq_true, if_false]
              rw [linked.2.1]
              exact ih tail linked.2.2 (fun other member => nonNull other (by simp [member]))
                (by simpa using enough)

/-- `while (p->next) p = p->next; return p`, at most `fuel` rounds of it. -/
def lastFrom (store : Nat → ν) : Nat → Nat → Nat
  | 0, pointer => pointer
  | fuel + 1, pointer =>
      if next (store pointer) = 0 then pointer else lastFrom store fuel (next (store pointer))

theorem lastFrom_eq {store : Nat → ν} {node : Nat × ν} {rest : List (Nat × ν)}
    {before fuel : Nat} (stored : Stored store (node :: rest))
    (linked : Linked before 0 (node :: rest)) (nonNull : ∀ other ∈ rest, other.1 ≠ 0)
    (enough : rest.length < fuel) : lastFrom store fuel node.1 = last node.1 rest := by
  induction rest generalizing node before fuel with
  | nil =>
      cases fuel with
      | zero => simp at enough
      | succ fuel =>
          have stop : next (store node.1) = 0 := by
            rw [((stored_cons _ _ _).mp stored).1]
            exact linked.2.1
          simp [lastFrom, stop, last]
  | cons second rest ih =>
      cases fuel with
      | zero => simp at enough
      | succ fuel =>
          obtain ⟨head, tail⟩ := (stored_cons _ _ _).mp stored
          have onward : next (store node.1) = second.1 := by
            rw [head]
            exact linked.2.1
          have own : second.1 ≠ 0 := nonNull second (by simp)
          simp only [lastFrom, onward, own, if_false, last]
          exact ih tail linked.2.2 (fun other member => nonNull other (by simp [member]))
            (by simpa using enough)

theorem lastFrom_concat {store : Nat → ν} {left : List (Nat × ν)} {address before fuel : Nat}
    {node : ν} (stored : Stored store (left ++ [(address, node)]))
    (linked : Linked before 0 (left ++ [(address, node)]))
    (nonNull : ∀ other ∈ left ++ [(address, node)], other.1 ≠ 0) (enough : left.length < fuel) :
    lastFrom store fuel (first 0 (left ++ [(address, node)])) = address := by
  cases left with
  | nil => exact lastFrom_eq stored linked (by simp) (by simpa using enough)
  | cons head rest =>
      have reached := lastFrom_eq stored linked
        (fun other member => nonNull other (List.mem_cons_of_mem _ member))
        (by simpa using enough)
      exact reached.trans (last_append head.1 rest [(address, node)])

end DoublyLinked
