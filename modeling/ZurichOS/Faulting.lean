import Mathlib.Logic.Relation

/-!
Programs over a state that may fault: what a run without a fault has done.
-/

namespace Faulting

variable {State Fault α β : Type}

abbrev Program (State Fault α : Type) := StateT State (Except Fault) α

theorem pure_ok {a b : α} {s t : State} :
    (pure a : Program State Fault α) s = .ok (b, t) ↔ a = b ∧ s = t := by
  change Except.ok (a, s) = Except.ok (b, t) ↔ a = b ∧ s = t
  rw [Except.ok.injEq, Prod.mk.injEq]

theorem throw_ok {fault : Fault} {a : α} {s t : State} :
    (throw fault : Program State Fault α) s = .ok (a, t) ↔ False := by
  constructor
  · intro ok
    cases ok
  · intro absurd
    exact absurd.elim

theorem modifyGet_ok {f : State → α × State} {a : α} {s t : State} :
    (modifyGet f : Program State Fault α) s = .ok (a, t) ↔ (f s).1 = a ∧ (f s).2 = t := by
  change Except.ok (f s) = Except.ok (a, t) ↔ _
  rw [Except.ok.injEq, Prod.ext_iff]

theorem bind_ok {x : Program State Fault α} {f : α → Program State Fault β} {b : β}
    {s t : State} :
    (x >>= f) s = .ok (b, t) ↔ ∃ a u, x s = .ok (a, u) ∧ f a u = .ok (b, t) := by
  change ((x s).bind fun result => f result.1 result.2) = .ok (b, t) ↔ _
  cases x s with
  | error fault =>
      constructor
      · intro ok
        cases ok
      · rintro ⟨a, u, ok, _⟩
        cases ok
  | ok result =>
      obtain ⟨a, u⟩ := result
      constructor
      · intro ok
        exact ⟨a, u, rfl, ok⟩
      · rintro ⟨_, _, ok, rest⟩
        cases ok
        exact rest

/-- The program without its result. -/
def forget (x : Program State Fault α) : Program State Fault Unit := do
  let _ ← x
  pure ()

theorem bind_run {x : Program State Fault α} {f : α → Program State Fault β} {a : α}
    {s t : State} (ran : x s = .ok (a, t)) : (x >>= f) s = f a t := by
  change ((x s).bind fun result => f result.1 result.2) = _
  rw [ran]
  rfl

theorem bind_fault {x : Program State Fault α} {f : α → Program State Fault β} {fault : Fault}
    {s : State} (ran : x s = .error fault) : (x >>= f) s = .error fault := by
  change ((x s).bind fun result => f result.1 result.2) = _
  rw [ran]
  rfl

/-- A run of the program without a fault leads along the relation. -/
def Moves (relation : State → State → Prop) (x : Program State Fault α) : Prop :=
  ∀ s a t, x s = .ok (a, t) → relation s t

section Moves

variable {relation : State → State → Prop} {x : Program State Fault α}

theorem Moves.pure [Std.Refl relation] (a : α) :
    Moves relation (pure a : Program State Fault α) := by
  intro s b t ok
  obtain ⟨_, rfl⟩ := pure_ok.mp ok
  exact Std.Refl.refl s

theorem Moves.throw (fault : Fault) : Moves relation (throw fault : Program State Fault α) := by
  intro s b t ok
  exact (throw_ok.mp ok).elim

theorem Moves.bind [IsTrans State relation] {f : α → Program State Fault β}
    (first : Moves relation x) (rest : ∀ a, Moves relation (f a)) : Moves relation (x >>= f) := by
  intro s b t ok
  obtain ⟨a, u, ran, after⟩ := bind_ok.mp ok
  exact Trans.trans (first s a u ran) (rest a u b t after)

theorem Moves.forget [Std.Refl relation] [IsTrans State relation] (moves : Moves relation x) :
    Moves relation (forget x) :=
  moves.bind fun _ => .pure _

theorem Moves.ite {condition : Prop} [Decidable condition] {y : Program State Fault α}
    (yes : Moves relation x) (no : Moves relation y) :
    Moves relation (if condition then x else y) := by
  split
  · exact yes
  · exact no

end Moves

end Faulting
