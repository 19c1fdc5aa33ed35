import Mathlib.Data.List.Basic

/-!
Reachable states of a labelled transition system and the induction that carries
an invariant over them.
-/

namespace Transitions

variable {State Event : Type}

inductive Reachable (initial : State → Prop) (step : State → Event → State → Prop) :
    State → Prop
  | start {state} : initial state → Reachable initial step state
  | next {state event after} : Reachable initial step state → step state event after →
      Reachable initial step after

/-- What holds initially and survives every step holds in every reachable state. -/
theorem Reachable.invariant {initial : State → Prop} {step : State → Event → State → Prop}
    (invariant : State → Prop) (base : ∀ state, initial state → invariant state)
    (preserved : ∀ state event after, invariant state → step state event after →
      invariant after) {state : State} (reachable : Reachable initial step state) :
    invariant state := by
  induction reachable with
  | start isInitial => exact base _ isInitial
  | next _ stepped ih => exact preserved _ _ _ ih stepped

def Restricted (condition : State → Event → Prop) (step : State → Event → State → Prop) :
    State → Event → State → Prop :=
  fun state event after => condition state event ∧ step state event after

theorem Reachable.extend {initial : State → Prop} {step : State → Event → State → Prop}
    {condition : State → Event → Prop} {state after : State} {event : Event}
    (reached : Reachable initial (Restricted condition step) state)
    (stepped : step state event after) (met : condition state event) :
    Reachable initial (Restricted condition step) after :=
  reached.next ⟨met, stepped⟩

def Along (step : State → Event → State) (condition : State → Event → Prop) :
    State → List Event → Prop
  | _, [] => True
  | state, event :: rest => condition state event ∧ Along step condition (step state event) rest

theorem Along.mp {step : State → Event → State} {condition conclusion : State → Event → Prop}
    {state : State} {events : List Event}
    (implies : Along step (fun state event => condition state event → conclusion state event)
      state events)
    (holds : Along step condition state events) : Along step conclusion state events := by
  induction events generalizing state with
  | nil => trivial
  | cons event rest ih => exact ⟨implies.1 holds.1, ih implies.2 holds.2⟩

theorem Along.mono {step : State → Event → State} {condition conclusion : State → Event → Prop}
    (implies : ∀ state event, condition state event → conclusion state event)
    {state : State} {events : List Event} (holds : Along step condition state events) :
    Along step conclusion state events := by
  induction events generalizing state with
  | nil => trivial
  | cons event rest ih => exact ⟨implies state event holds.1, ih holds.2⟩

theorem Along.last {step : State → Event → State} {condition : State → Event → Prop}
    {state : State} {events : List Event} {event : Event}
    (holds : Along step condition state (events ++ [event])) :
    condition (events.foldl step state) event := by
  induction events generalizing state with
  | nil => exact holds.1
  | cons first rest ih => exact ih holds.2

theorem along_append {step : State → Event → State} {condition : State → Event → Prop}
    {state : State} {events later : List Event} :
    Along step condition state (events ++ later) ↔
      Along step condition state events ∧ Along step condition (events.foldl step state) later := by
  induction events generalizing state with
  | nil => simp [Along]
  | cons first rest ih => simp [Along, ih, and_assoc]

/-- Where a step that meets a condition keeps an invariant and is good under it, all steps of
a run that meet the condition are good. -/
theorem Along.sound {step : State → Event → State} (invariant : State → Prop)
    {condition good : State → Event → Prop}
    (kept : ∀ state event, invariant state → condition state event →
      invariant (step state event) ∧ good state event)
    {state : State} (inv : invariant state) {events : List Event}
    (holds : Along step condition state events) : Along step good state events := by
  induction events generalizing state with
  | nil => trivial
  | cons event rest ih =>
      obtain ⟨next, isGood⟩ := kept state event inv holds.1
      exact ⟨isGood, ih next holds.2⟩

/-- Where, under an invariant, a step is good exactly if it meets a condition, and a step
that meets the condition keeps the invariant, all steps of a run are good exactly if all of
them meet the condition. -/
theorem along_congr {step : State → Event → State} (invariant : State → Prop)
    {good condition : State → Event → Prop}
    (kept : ∀ state event, invariant state → condition state event →
      invariant (step state event))
    (exact : ∀ state event, invariant state → (good state event ↔ condition state event))
    {state : State} (inv : invariant state) (events : List Event) :
    Along step good state events ↔ Along step condition state events := by
  induction events generalizing state with
  | nil => rfl
  | cons event rest ih =>
      constructor
      · rintro ⟨sound, later⟩
        have met := (exact state event inv).mp sound
        exact ⟨met, (ih (kept state event inv met)).mp later⟩
      · rintro ⟨met, later⟩
        exact ⟨(exact state event inv).mpr met, (ih (kept state event inv met)).mpr later⟩

/-- The same where what is good is a property of the state after the step. -/
theorem along_iff {step : State → Event → State} (invariant good : State → Prop)
    {condition : State → Event → Prop} (holds : ∀ state, invariant state → good state)
    (kept : ∀ state event, invariant state → condition state event →
      invariant (step state event))
    (exact : ∀ state event, invariant state → good (step state event) → condition state event)
    {state : State} (inv : invariant state) (events : List Event) :
    Along step (fun state event => good (step state event)) state events ↔
      Along step condition state events :=
  along_congr invariant kept
    (fun state event inv => ⟨exact state event inv, fun met => holds _ (kept state event inv met)⟩)
    inv events

end Transitions
