import ZurichOS.PartialTable

/-!
Tables of nodes that name their parents: names are unique and every parent is there.
-/

namespace ParentTable

open PartialTable

variable {Index Id : Type}

/-- The entries are pairs of a name and the parent's name. -/
structure Sound (links : Index → Option (Id × Id)) : Prop where
  unique : ∀ left right name first second, links left = some (name, first) →
    links right = some (name, second) → left = right
  parented : ∀ index name parent, links index = some (name, parent) →
    ∃ other up, links other = some (parent, up)

variable {links : Index → Option (Id × Id)} {index : Index} {name parent : Id}

section Update

variable [DecidableEq Index]

/-- An entry may go exactly if no other entry has it for its parent. -/
theorem Sound.remove_iff (sound : Sound links) (found : links index = some (name, parent)) :
    Sound (Function.update links index none) ↔
      ∀ other child, other ≠ index → links other ≠ some (child, name) := by
  constructor
  · intro removed other child apart linked
    obtain ⟨holder, up, held⟩ := removed.parented other child name
      (update_none_some.mpr ⟨apart, linked⟩)
    obtain ⟨away, there⟩ := update_none_some.mp held
    exact away (sound.unique holder index name up parent there found)
  · intro childless
    constructor
    · intro left right shared first second isLeft isRight
      exact sound.unique left right shared first second (update_none_some.mp isLeft).2
        (update_none_some.mp isRight).2
    · intro other child up isOther
      obtain ⟨apart, linked⟩ := update_none_some.mp isOther
      obtain ⟨holder, above, held⟩ := sound.parented other child up linked
      refine ⟨holder, above, update_none_some.mpr ⟨fun own => ?_, held⟩⟩
      rw [own, found] at held
      cases held
      exact childless other child apart linked

/-- A free entry may be filled exactly if the name is new and the parent is there. -/
theorem Sound.insert_iff (sound : Sound links) (free : links index = none) :
    Sound (Function.update links index (some (name, parent))) ↔
      (∀ other up, links other ≠ some (name, up)) ∧
        (parent = name ∨ ∃ other up, links other = some (parent, up)) := by
  have own : Function.update links index (some (name, parent)) index = some (name, parent) :=
    Function.update_self ..
  have kept : ∀ other entry, links other = some entry →
      Function.update links index (some (name, parent)) other = some entry :=
    fun _ _ linked => update_empty free linked _
  constructor
  · intro inserted
    constructor
    · intro other up linked
      have same := inserted.unique other index name up parent (kept other _ linked) own
      rw [same, free] at linked
      cases linked
    · obtain ⟨holder, up, held⟩ := inserted.parented index name parent own
      rcases update_some.mp held with ⟨_, new⟩ | ⟨_, old⟩
      · cases new
        exact .inl rfl
      · exact .inr ⟨holder, up, old⟩
  · rintro ⟨fresh, parented⟩
    constructor
    · intro left right shared first second isLeft isRight
      rcases update_some.mp isLeft with ⟨atLeft, entryLeft⟩ | ⟨_, oldLeft⟩
      · rcases update_some.mp isRight with ⟨atRight, _⟩ | ⟨_, oldRight⟩
        · rw [atLeft, atRight]
        · cases entryLeft
          exact absurd oldRight (fresh right second)
      · rcases update_some.mp isRight with ⟨_, entryRight⟩ | ⟨_, oldRight⟩
        · cases entryRight
          exact absurd oldLeft (fresh left first)
        · exact sound.unique left right shared first second oldLeft oldRight
    · intro other child up isOther
      rcases update_some.mp isOther with ⟨_, entry⟩ | ⟨_, old⟩
      · cases entry
        rcases parented with rfl | ⟨holder, above, held⟩
        · exact ⟨index, _, own⟩
        · exact ⟨holder, above, kept holder _ held⟩
      · obtain ⟨holder, above, held⟩ := sound.parented other child up old
        exact ⟨holder, above, kept holder _ held⟩

end Update

/-- Handing the children of an entry over to an entry that is there keeps the table sound. -/
theorem Sound.reparent [DecidableEq Id] (sound : Sound links) {gone heir : Id}
    (present : ∃ other up, links other = some (heir, up)) :
    Sound fun index => (links index).map fun entry =>
      (entry.1, if entry.2 = gone then heir else entry.2) := by
  constructor
  · intro left right shared first second isLeft isRight
    simp only [Option.map_eq_some_iff, Prod.mk.injEq] at isLeft isRight
    obtain ⟨⟨_, oldFirst⟩, linkedLeft, rfl, _⟩ := isLeft
    obtain ⟨⟨_, oldSecond⟩, linkedRight, rfl, _⟩ := isRight
    exact sound.unique left right _ oldFirst oldSecond linkedLeft linkedRight
  · intro other child up isOther
    simp only [Option.map_eq_some_iff, Prod.mk.injEq] at isOther
    obtain ⟨⟨_, old⟩, linked, rfl, rfl⟩ := isOther
    have holder : ∃ holder above, links holder = some ((if old = gone then heir else old), above) := by
      split
      · exact present
      · exact sound.parented other _ old linked
    obtain ⟨holder, above, held⟩ := holder
    exact ⟨holder, if above = gone then heir else above, by simp [held]⟩

end ParentTable
