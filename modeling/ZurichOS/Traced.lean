import Mathlib.Data.List.Range

/-!
Programs over a state that leave a trace of events: what they compute, and which events.
-/

namespace Traced

variable {State Event α β : Type}

def Program (State Event α : Type) : Type := State → (α × State) × List Event

instance : Monad (Program State Event) where
  pure result := fun state => ((result, state), [])
  bind program next := fun state =>
    let first := program state
    let second := next first.1.1 first.1.2
    (second.1, first.2 ++ second.2)

def emit (event : Event) : Program State Event Unit := fun state => (((), state), [event])

/-- A step of the state that leaves no event. -/
def silent (step : State → α × State) : Program State Event α := fun state => (step state, [])

def Program.outcome (program : Program State Event α) (state : State) : α × State :=
  (program state).1

def Program.All (program : Program State Event α) (good : Event → Prop) (state : State) : Prop :=
  ∀ event ∈ (program state).2, good event

section Outcome

variable (state : State)

@[simp] theorem outcome_pure (result : α) :
    (pure result : Program State Event α).outcome state = (result, state) := by
  rw [Program.outcome, pure]
  rfl

@[simp] theorem outcome_bind (program : Program State Event α) (next : α → Program State Event β) :
    (program >>= next).outcome state =
      (next (program.outcome state).1).outcome (program.outcome state).2 := by
  simp only [Program.outcome, bind]

@[simp] theorem outcome_emit (event : Event) :
    (emit event : Program State Event Unit).outcome state = ((), state) := by
  rw [Program.outcome, emit]

@[simp] theorem outcome_silent (step : State → α × State) :
    (silent step : Program State Event α).outcome state = step state := by
  rw [Program.outcome, silent]

theorem outcome_ite (condition : Prop) [Decidable condition] (first second : Program State Event α) :
    (if condition then first else second).outcome state =
      if condition then first.outcome state else second.outcome state := by
  split <;> rfl

end Outcome

section All

variable (good : Event → Prop) (state : State)

@[simp] theorem all_pure (result : α) :
    (pure result : Program State Event α).All good state := List.forall_mem_nil _

@[simp] theorem all_bind (program : Program State Event α) (next : α → Program State Event β) :
    (program >>= next).All good state ↔ program.All good state ∧
      (next (program.outcome state).1).All good (program.outcome state).2 := by
  simp only [Program.All, Program.outcome, bind, List.mem_append, or_imp, forall_and]

@[simp] theorem all_emit (event : Event) :
    (emit event : Program State Event Unit).All good state ↔ good event := by
  simp [Program.All, emit]

@[simp] theorem all_silent (step : State → α × State) :
    (silent step : Program State Event α).All good state := List.forall_mem_nil _

theorem all_ite (condition : Prop) [Decidable condition] (first second : Program State Event α) :
    (if condition then first else second).All good state ↔
      if condition then first.All good state else second.All good state := by
  split <;> rfl

end All

end Traced
