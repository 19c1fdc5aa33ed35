import Mathlib.Data.List.Nodup

/-!
Queues of nodes linked by a `next` pointer, with a pointer to the first and to the last
node.  A queue holds a list of nodes; pushing and popping act on that list.
-/

namespace LinkedQueue

variable {Node : Type}

/-- The nodes follow one another by `next`, and nothing follows the last. -/
def Chain (next : Node → Option Node) : List Node → Prop
  | [] => True
  | node :: rest => next node = rest.head? ∧ Chain next rest

structure Holds (head tail : Option Node) (next : Node → Option Node) (nodes : List Node) :
    Prop where
  head : head = nodes.head?
  tail : tail = nodes.getLast?
  chain : Chain next nodes
  nodup : nodes.Nodup

theorem Chain.congr {next after : Node → Option Node} {nodes : List Node}
    (chain : Chain next nodes) (same : ∀ node ∈ nodes, after node = next node) :
    Chain after nodes := by
  induction nodes with
  | nil => trivial
  | cons node rest ih =>
      obtain ⟨link, chain⟩ := chain
      refine ⟨(same node List.mem_cons_self).trans link, ih chain fun other member => ?_⟩
      exact same other (List.mem_cons_of_mem _ member)

theorem Chain.concat {next after : Node → Option Node} {nodes : List Node} {fresh : Node}
    (chain : Chain next nodes) (nodup : nodes.Nodup) (ends : after fresh = none)
    (linked : ∀ last, nodes.getLast? = some last → after last = some fresh)
    (same : ∀ node ∈ nodes, nodes.getLast? ≠ some node → after node = next node) :
    Chain after (nodes ++ [fresh]) := by
  induction nodes with
  | nil => exact ⟨ends, trivial⟩
  | cons node rest ih =>
      obtain ⟨link, chain⟩ := chain
      obtain ⟨absent, nodup⟩ := List.nodup_cons.mp nodup
      cases rest with
      | nil => exact ⟨linked node rfl, ends, trivial⟩
      | cons second rest =>
          have lastEq : (node :: second :: rest).getLast? = (second :: rest).getLast? :=
            List.getLast?_cons_cons
          have apart : (node :: second :: rest).getLast? ≠ some node := by
            intro isLast
            exact absent (List.mem_of_getLast? (lastEq ▸ isLast))
          refine ⟨(same node List.mem_cons_self apart).trans link, ih chain nodup ?_ ?_⟩
          · exact fun last isLast => linked last (lastEq.trans isLast)
          · intro other member notLast
            exact same other (List.mem_cons_of_mem _ member) (lastEq ▸ notLast)

theorem Holds.empty (next : Node → Option Node) : Holds none none next [] :=
  ⟨rfl, rfl, trivial, List.nodup_nil⟩

theorem Holds.congr {head tail : Option Node} {next after : Node → Option Node}
    {nodes : List Node} (holds : Holds head tail next nodes)
    (same : ∀ node ∈ nodes, after node = next node) : Holds head tail after nodes :=
  ⟨holds.head, holds.tail, holds.chain.congr same, holds.nodup⟩

/-- A node is pushed behind the last one, or becomes the only one. -/
theorem Holds.push {head tail : Option Node} {next after : Node → Option Node}
    {nodes : List Node} {fresh : Node} (holds : Holds head tail next nodes)
    (absent : fresh ∉ nodes) (ends : after fresh = none)
    (linked : ∀ last, tail = some last → after last = some fresh)
    (same : ∀ node ∈ nodes, tail ≠ some node → after node = next node) :
    Holds (head.or (some fresh)) (some fresh) after (nodes ++ [fresh]) := by
  refine ⟨?_, by simp, ?_, ?_⟩
  · rw [holds.head, List.head?_append]
    rfl
  · refine holds.chain.concat holds.nodup ends ?_ ?_
    · exact fun last isLast => linked last (holds.tail.trans isLast)
    · exact fun node member notLast => same node member (holds.tail ▸ notLast)
  · exact List.nodup_append.mpr ⟨holds.nodup, by simp, by
      intro node member other isFresh
      rw [List.mem_singleton.mp isFresh]
      exact fun equal => absent (equal ▸ member)⟩

theorem Holds.tail_none_iff {head tail : Option Node} {next : Node → Option Node}
    {nodes : List Node} (holds : Holds head tail next nodes) : tail = none ↔ head = none := by
  rw [holds.tail, holds.head, List.getLast?_eq_none_iff, List.head?_eq_none_iff]

theorem Holds.pop {first : Node} {tail : Option Node} {next : Node → Option Node}
    {nodes : List Node} (holds : Holds (some first) tail next nodes) :
    ∃ rest, nodes = first :: rest ∧
      Holds (next first) (if (next first).isNone then none else tail) next rest := by
  cases nodes with
  | nil => cases holds.head
  | cons node rest =>
      cases holds.head
      obtain ⟨link, chain⟩ := holds.chain
      refine ⟨rest, rfl, link, ?_, chain, (List.nodup_cons.mp holds.nodup).2⟩
      cases rest with
      | nil => simp [link]
      | cons second rest => simpa [link] using holds.tail

end LinkedQueue
