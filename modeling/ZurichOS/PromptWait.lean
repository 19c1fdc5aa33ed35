import ZurichOS.WaitProtocol

set_option linter.all false

/-!
Waiting protocols whose tasks enter a queue and block in one step.  Then every wake-up
finds its task asleep, and a wake-up for a queue stays on its way until the woken task
tests the object again.
-/

namespace WaitProtocol

open Transitions

variable {Task Mode Object : Type}

/-- A task that has entered a queue blocks before anything else happens. -/
def Prompt (s : State Task Mode Object) (event : Event Task Mode) : Prop :=
  ∀ task mode, s.place task = .block mode → event = .block task true

def Place.enters : Place Task Mode → Bool
  | .block _ => true
  | _ => false

theorem Prompt.still {s : State Task Mode Object} {event : Event Task Mode}
    (still : ∀ task, (s.place task).enters = false) : Prompt s event := fun task mode here => by
  have none := still task
  rw [here] at none
  cases none

theorem Prompt.block {s : State Task Mode Object} {actor : Task}
    (others : ∀ task, task = actor ∨ (s.place task).enters = false) :
    Prompt s (.block actor true) := fun task mode here => by
  rcases others task with rfl | none
  · rfl
  · rw [here] at none
    cases none

def Wake.mode : Wake Mode → Mode
  | .one mode => mode
  | .all mode => mode

/-- A wake-up for the queue `mode` is on its way. -/
def Coming (s : State Task Mode Object) (mode : Mode) : Prop :=
  (∃ task, s.place task = .test mode true) ∨
    (∃ task, s.place task = .asleep mode ∧
      (s.blocked task = false ∨ ∃ waker wakes, s.place waker = .unblock task wakes)) ∨
    s.queue mode ≠ [] ∧ ∃ waker wake wakes, s.place waker = .waking (wake :: wakes) ∧
      wake.mode = mode

def Place.stirs (blocked : Bool) : Place Task Mode → Bool
  | .waking (_ :: _) => true
  | .unblock _ _ => true
  | .asleep _ => !blocked
  | .test _ woken => woken
  | _ => false

theorem Coming.stirs {s : State Task Mode Object} {mode : Mode} (coming : Coming s mode) :
    ∃ task, (s.place task).stirs (s.blocked task) = true := by
  rcases coming with ⟨task, here⟩ | ⟨task, here, awake | ⟨waker, wakes, here⟩⟩ |
    ⟨_, waker, wake, wakes, here, _⟩
  · exact ⟨task, by rw [here]; rfl⟩
  · exact ⟨task, by rw [here, awake]; rfl⟩
  · exact ⟨waker, by rw [here]; rfl⟩
  · exact ⟨waker, by rw [here]; rfl⟩

/-- The blocked tasks are those in the queues and those about to be unblocked, each once. -/
structure Parked (s : State Task Mode Object) : Prop where
  queued : ∀ mode, ∀ task ∈ s.queue mode,
    s.place task = .block mode ∨ s.place task = .asleep mode ∧ s.blocked task = true
  entered : ∀ task mode, s.place task = .block mode → task ∈ s.queue mode
  nodup : ∀ mode, (s.queue mode).Nodup
  waits : ∀ task, s.blocked task = true → ∃ mode, s.place task = .asleep mode ∧
    (task ∈ s.queue mode ∨ ∃ waker wakes, s.place waker = .unblock task wakes)
  target : ∀ waker task wakes, s.place waker = .unblock task wakes →
    s.blocked task = true ∧ ∀ mode, task ∉ s.queue mode
  alone : ∀ waker other task wakes more, s.place waker = .unblock task wakes →
    s.place other = .unblock task more → waker = other

theorem Fresh.parked {s : State Task Mode Object} (fresh : Fresh s) : Parked s := by
  refine ⟨?_, ?_, ?_, ?_, ?_, ?_⟩
  · simp [fresh.queue]
  · simp [fresh.place]
  · simp [fresh.queue]
  · simp [fresh.blocked]
  · simp [fresh.place]
  · simp [fresh.place]

section Parking

variable {s : State Task Mode Object}

theorem Parked.object (parked : Parked s) (object : Object) (holds : Task → Mode → Nat) :
    Parked { s with object, holds } :=
  ⟨parked.queued, parked.entered, parked.nodup, parked.waits, parked.target, parked.alone⟩

theorem Parked.awake (parked : Parked s) {actor : Task} {place : Place Task Mode}
    (here : s.place actor = place) (up : ∀ mode, place ≠ .asleep mode) :
    s.blocked actor = false := by
  by_contra blocked
  obtain ⟨mode, asleep, _⟩ := parked.waits actor (Bool.not_eq_false _ ▸ blocked)
  exact up mode (here.symm.trans asleep)

theorem Parked.absent (parked : Parked s) {actor : Task} (awake : s.blocked actor = false)
    (passed : ∀ mode, s.place actor ≠ .block mode) (mode : Mode) : actor ∉ s.queue mode := by
  intro inside
  rcases parked.queued mode actor inside with entering | ⟨_, blocked⟩
  · exact passed mode entering
  · exact absurd (awake.symm.trans blocked) Bool.false_ne_true

/-- Outside the moment between the entry and the block, the tasks of a queue are asleep. -/
theorem Parked.asleep (parked : Parked s) {event : Event Task Mode} (prompt : Prompt s event)
    (other : ∀ task, event ≠ .block task true) {mode : Mode} {task : Task}
    (inside : task ∈ s.queue mode) : s.place task = .asleep mode ∧ s.blocked task = true := by
  refine (parked.queued mode task inside).resolve_left fun entering => ?_
  exact other task (prompt task mode entering)

variable [DecidableEq Task]

theorem Parked.move (parked : Parked s) {actor : Task} {place : Place Task Mode}
    (awake : s.blocked actor = false) (passed : ∀ mode, s.place actor ≠ .block mode)
    (wakesNone : ∀ target wakes, s.place actor ≠ .unblock target wakes)
    (wakesNext : ∀ target wakes, place ≠ .unblock target wakes)
    (enters : ∀ mode, place ≠ .block mode) : Parked (s.move actor place) := by
  have absent := parked.absent awake passed
  obtain ⟨queued, entered, nodup, waits, target, alone⟩ := parked
  refine ⟨fun mode task inside => ?_, fun task mode block => ?_, nodup, fun task blocked => ?_,
      fun waker task wakes unblocks => ?_, fun waker other task wakes more first second => ?_⟩ <;>
    simp only [State.move, Function.update_apply] at *
  · have apart : task ≠ actor := fun same => absent mode (same ▸ inside)
    simpa [apart] using queued mode task inside
  · have apart : task ≠ actor := fun same => by simp [same, enters] at block
    simp only [apart, if_false] at block
    exact entered task mode block
  · have apart : task ≠ actor := fun same => by simp [same, awake] at blocked
    obtain ⟨mode, asleep, place⟩ := waits task blocked
    refine ⟨mode, by simpa [apart] using asleep, place.imp_right ?_⟩
    rintro ⟨waker, wakes, unblocks⟩
    have other : waker ≠ actor := fun same => wakesNone task wakes (same ▸ unblocks)
    exact ⟨waker, wakes, by simpa [other] using unblocks⟩
  · have other : waker ≠ actor := fun same => by simp [same, wakesNext] at unblocks
    simp only [other, if_false] at unblocks
    exact target waker task wakes unblocks
  · have one : waker ≠ actor := fun same => by simp [same, wakesNext] at first
    have two : other ≠ actor := fun same => by simp [same, wakesNext] at second
    simp only [one, two, if_false] at first second
    exact alone waker other task wakes more first second

theorem Parked.sleep (parked : Parked s) {actor : Task} {mode : Mode}
    (here : s.place actor = .block mode) :
    Parked ((s.setBlocked actor true).move actor (.asleep mode)) := by
  have inside := parked.entered actor mode here
  have own : ∀ other, actor ∈ s.queue other → other = mode := fun other member => by
    rcases parked.queued other actor member with block | ⟨asleep, _⟩
    · simpa [here] using block.symm
    · simp [here] at asleep
  obtain ⟨queued, entered, nodup, waits, target, alone⟩ := parked
  refine ⟨fun other task member => ?_, fun task other block => ?_, nodup, fun task blocked => ?_,
      fun waker task wakes unblocks => ?_, fun waker other task wakes more first second => ?_⟩ <;>
    simp only [State.move, State.setBlocked, Function.update_apply] at *
  · by_cases same : task = actor
    · subst same
      simp [own other member]
    · simpa [same] using queued other task member
  · have apart : task ≠ actor := fun same => by simp [same] at block
    simp only [apart, if_false] at block
    exact entered task other block
  · by_cases same : task = actor
    · subst same
      exact ⟨mode, by simp, .inl inside⟩
    · simp only [same, if_false] at blocked
      obtain ⟨other, asleep, place⟩ := waits task blocked
      refine ⟨other, by simpa [same] using asleep, place.imp_right ?_⟩
      rintro ⟨waker, wakes, unblocks⟩
      exact ⟨waker, wakes, by grind -ring -linarith⟩
  · grind -ring -linarith
  · grind -ring -linarith

variable [DecidableEq Mode]

theorem Parked.enqueue (parked : Parked s) {actor : Task} {mode : Mode}
    (here : s.place actor = .enqueue mode) :
    Parked ((s.setQueue mode (s.queue mode ++ [actor])).move actor (.block mode)) := by
  have awake := parked.awake here (by simp)
  have absent := parked.absent awake (by simp [here])
  obtain ⟨queued, entered, nodup, waits, target, alone⟩ := parked
  refine ⟨fun other task member => ?_, fun task other block => ?_, fun other => ?_,
      fun task blocked => ?_, fun waker task wakes unblocks => ?_,
      fun waker other task wakes more first second => ?_⟩ <;>
    simp only [State.move, State.setQueue, Function.update_apply] at *
  · grind -ring -linarith
  · grind -ring -linarith
  · split
    · rename_i same
      refine List.nodup_append.mpr ⟨nodup mode, List.nodup_singleton _, ?_⟩
      rintro a inside b single rfl
      exact absent mode (List.mem_singleton.mp single ▸ inside)
    · exact nodup other
  · have apart : task ≠ actor := fun same => by simp [same, awake] at blocked
    obtain ⟨other, asleep, place⟩ := waits task blocked
    refine ⟨other, by simpa [apart] using asleep, ?_⟩
    rcases place with inside | ⟨waker, wakes, unblocks⟩
    · exact .inl (by grind -ring -linarith)
    · exact .inr ⟨waker, wakes, by grind -ring -linarith⟩
  · grind -ring -linarith
  · grind -ring -linarith

theorem Parked.take (parked : Parked s) {actor target : Task} {mode : Mode} {rest : List Task}
    {wake : Wake Mode} {before wakes : List (Wake Mode)}
    (here : s.place actor = .waking (wake :: before)) (first : s.queue mode = target :: rest)
    (asleep : s.place target = .asleep mode ∧ s.blocked target = true) :
    Parked ((s.setQueue mode rest).move actor (.unblock target wakes)) := by
  have apart : target ≠ actor := fun same => by simp [same, here] at asleep
  have only : ∀ other, target ∈ s.queue other → other = mode := fun other member => by
    rcases parked.queued other target member with block | ⟨sleeps, _⟩
    · simp [asleep.1] at block
    · simpa [asleep.1] using sleeps.symm
  have fresh : ∀ waker more, s.place waker ≠ .unblock target more := fun waker more unblocks =>
    (parked.target waker target more unblocks).2 mode (first ▸ List.mem_cons_self ..)
  have unique := first ▸ parked.nodup mode
  obtain ⟨queued, entered, nodup, waits, targets, alone⟩ := parked
  refine ⟨fun other task member => ?_, fun task other block => ?_, fun other => ?_,
      fun task blocked => ?_, fun waker task more unblocks => ?_,
      fun waker other task some more one two => ?_⟩ <;>
    simp only [State.move, State.setQueue, Function.update_apply] at *
  · have inside : task ∈ s.queue other := by
      split at member
      · rename_i same
        rw [same, first]
        exact List.mem_cons_of_mem _ member
      · exact member
    have placed := queued other task inside
    have apart : task ≠ actor := fun same => by simp [same, here] at placed
    simpa [apart] using placed
  · have passed : task ≠ actor := fun same => by simp [same] at block
    simp only [passed, if_false] at block
    have inside := entered task other block
    split
    · rename_i same
      rw [same, first] at inside
      refine (List.mem_cons.mp inside).resolve_left fun isTarget => ?_
      simp [isTarget, asleep.1] at block
    · exact inside
  · split
    · exact (List.nodup_cons.mp unique).2
    · exact nodup other
  · obtain ⟨other, sleeps, place⟩ := waits task blocked
    have passed : task ≠ actor := fun same => by simp [same, here] at sleeps
    refine ⟨other, by simpa [passed] using sleeps, ?_⟩
    rcases place with inside | ⟨waker, more, unblocks⟩
    · by_cases isTarget : task = target
      · exact .inr ⟨actor, wakes, by simp [isTarget]⟩
      · refine .inl ?_
        split
        · rename_i same
          rw [same, first] at inside
          exact (List.mem_cons.mp inside).resolve_left isTarget
        · exact inside
    · exact .inr ⟨waker, more, by grind -ring -linarith⟩
  · by_cases same : waker = actor
    · obtain ⟨rfl, rfl⟩ : target = task ∧ wakes = more := by simpa [same] using unblocks
      refine ⟨asleep.2, fun other member => ?_⟩
      split at member
      · exact (List.nodup_cons.mp unique).1 member
      · rename_i different
        exact different (only other member)
    · simp only [same, if_false] at unblocks
      obtain ⟨blocked, absent⟩ := targets waker task more unblocks
      refine ⟨blocked, fun other member => ?_⟩
      split at member
      · exact absent mode (first ▸ List.mem_cons_of_mem _ member)
      · exact absent other member
  · grind -ring -linarith

theorem Parked.takeAll (parked : Parked s) {actor : Task} {mode : Mode} {wake : Wake Mode}
    {before wakes : List (Wake Mode)} (here : s.place actor = .waking (wake :: before))
    (asleep : ∀ task ∈ s.queue mode, s.place task = .asleep mode ∧ s.blocked task = true) :
    Parked (({ s with blocked := fun task => if task ∈ s.queue mode then false else s.blocked task
      }.setQueue mode []).move actor (.waking wakes)) := by
  obtain ⟨queued, entered, nodup, waits, targets, alone⟩ := parked
  refine ⟨fun other task member => ?_, fun task other block => ?_, fun other => ?_,
      fun task blocked => ?_, fun waker task more unblocks => ?_,
      fun waker other task some more one two => ?_⟩ <;>
    simp only [State.move, State.setQueue, Function.update_apply] at *
  · split at member
    · cases member
    · rename_i different
      have placed := queued other task member
      have absent : task ∉ s.queue mode := fun inside => by
        have sleeps := (asleep task inside).1
        simp only [sleeps, Place.asleep.injEq] at placed
        simp_all
      have apart : task ≠ actor := fun same => by simp [same, here] at placed
      simpa [apart, absent] using placed
  · grind -ring -linarith
  · split
    · exact List.nodup_nil
    · exact nodup other
  · split at blocked
    · cases blocked
    · rename_i absent
      obtain ⟨other, sleeps, place⟩ := waits task blocked
      have passed : task ≠ actor := fun same => by simp [same, here] at sleeps
      refine ⟨other, by simpa [passed] using sleeps, ?_⟩
      rcases place with inside | ⟨waker, more, unblocks⟩
      · exact .inl (by grind -ring -linarith)
      · exact .inr ⟨waker, more, by grind -ring -linarith⟩
  · have apart : waker ≠ actor := fun same => by simp [same] at unblocks
    simp only [apart, if_false] at unblocks
    obtain ⟨blocked, absent⟩ := targets waker task more unblocks
    refine ⟨by simpa [absent mode] using blocked, fun other member => ?_⟩
    split at member
    · cases member
    · exact absent other member
  · grind -ring -linarith

omit [DecidableEq Mode] in
theorem Parked.wake (parked : Parked s) {actor target : Task} {wakes : List (Wake Mode)}
    (here : s.place actor = .unblock target wakes) :
    Parked ((s.setBlocked target false).move actor (.waking wakes)) := by
  have own := parked.target actor target wakes here
  obtain ⟨queued, entered, nodup, waits, targets, alone⟩ := parked
  refine ⟨fun other task member => ?_, fun task other block => ?_, nodup,
      fun task blocked => ?_, fun waker task more unblocks => ?_,
      fun waker other task some more one two => ?_⟩ <;>
    simp only [State.move, State.setBlocked, Function.update_apply] at *
  · grind -ring -linarith
  · grind -ring -linarith
  · have apart : task ≠ target := fun same => by simp [same] at blocked
    simp only [apart, if_false] at blocked
    obtain ⟨other, sleeps, place⟩ := waits task blocked
    have passed : task ≠ actor := fun same => by simp [same, here] at sleeps
    refine ⟨other, by simpa [passed] using sleeps, place.imp_right ?_⟩
    rintro ⟨waker, more, unblocks⟩
    exact ⟨waker, more, by grind -ring -linarith⟩
  · grind -ring -linarith
  · grind -ring -linarith

variable {protocol : Protocol Task Mode Object}

theorem step_parked {event : Event Task Mode} {after : State Task Mode Object}
    (parked : Parked s) (prompt : Prompt s event) (step : Step protocol s event after) :
    Parked after := by
  cases step with
  | call actor mode outside =>
      refine parked.move (parked.awake outside ?_) ?_ ?_ ?_ ?_ <;> simp [outside]
  | acquired actor here passed =>
      refine (parked.object _ _).move (parked.awake here ?_) ?_ ?_ ?_ ?_ <;> simp [here]
  | refused actor here failed =>
      refine (parked.object _ _).move (parked.awake here ?_) ?_ ?_ ?_ ?_ <;> simp [here]
  | queued actor here => exact parked.enqueue here
  | unqueued actor here =>
      refine parked.move (parked.awake here ?_) ?_ ?_ ?_ ?_ <;> simp [here]
  | slept actor here => exact parked.sleep here
  | returned actor here => cases prompt actor _ here
  | resumed actor here awake =>
      refine parked.move awake ?_ ?_ ?_ ?_ <;> simp [here]
  | tried actor mode outside passed => exact parked.object _ _
  | failed actor mode outside failed => exact parked.object _ _
  | released actor mode outside result =>
      refine (parked.object _ _).move (parked.awake outside ?_) ?_ ?_ ?_ ?_ <;> simp [outside]
  | wokeFirst actor here first =>
      exact parked.take here first
        (parked.asleep prompt (by simp) (first ▸ List.mem_cons_self ..))
  | wokeNone actor here empty =>
      refine parked.move (parked.awake here ?_) ?_ ?_ ?_ ?_ <;> simp [here]
  | wokeAll actor here =>
      exact parked.takeAll here fun task inside => parked.asleep prompt (by simp) inside
  | unblocked actor here => exact parked.wake here
  | left actor here =>
      refine parked.move (parked.awake here ?_) ?_ ?_ ?_ ?_ <;> simp [here]

omit [DecidableEq Task] [DecidableEq Mode] in
theorem Coming.keep {mode : Mode} (coming : Coming s mode) {after : State Task Mode Object}
    {actor : Task} (same : ∀ task, task ≠ actor → after.place task = s.place task)
    (still : ∀ task, task ≠ actor → s.blocked task = false → after.blocked task = false)
    (queue : s.queue mode ≠ [] → after.queue mode ≠ [] ∨ Coming after mode)
    (tested : s.place actor = .test mode true → Coming after mode)
    (asleep : s.place actor = .asleep mode → Coming after mode)
    (unblocks : ∀ task wakes, s.place actor = .unblock task wakes → s.place task = .asleep mode →
      Coming after mode)
    (wakes : ∀ wake wakes, s.place actor = .waking (wake :: wakes) → wake.mode = mode →
      s.queue mode ≠ [] → Coming after mode) : Coming after mode := by
  rcases coming with ⟨task, here⟩ | ⟨task, here, way⟩ | ⟨some, waker, wake, rest, here, isMode⟩
  · by_cases own : task = actor
    · exact tested (own ▸ here)
    · exact .inl ⟨task, (same task own).trans here⟩
  · by_cases own : task = actor
    · exact asleep (own ▸ here)
    · rcases way with awake | ⟨waker, rest, unblock⟩
      · exact .inr (.inl ⟨task, (same task own).trans here, .inl (still task own awake)⟩)
      · by_cases mine : waker = actor
        · exact unblocks task rest (mine ▸ unblock) here
        · exact .inr (.inl ⟨task, (same task own).trans here,
            .inr ⟨waker, rest, (same waker mine).trans unblock⟩⟩)
  · by_cases mine : waker = actor
    · exact wakes wake rest (mine ▸ here) isMode some
    · refine (queue some).elim (fun left => .inr (.inr ⟨left, waker, wake, rest, ?_, isMode⟩)) id
      exact (same waker mine).trans here

omit [DecidableEq Task] [DecidableEq Mode] in
/-- A step of a task that has no part in a wake-up. -/
theorem Coming.idle {mode : Mode} (coming : Coming s mode) {after : State Task Mode Object}
    {actor : Task} (idle : ∀ blocked, (s.place actor).stirs blocked = false)
    (same : ∀ task, task ≠ actor → after.place task = s.place task)
    (still : ∀ task, task ≠ actor → s.blocked task = false → after.blocked task = false)
    (queue : s.queue mode ≠ [] → after.queue mode ≠ []) : Coming after mode := by
  have never : ∀ place : Place Task Mode, s.place actor = place → place.stirs false = true →
      Coming after mode := fun place here stirs => by
    rw [← here, idle false] at stirs
    cases stirs
  exact coming.keep same still (fun some => .inl (queue some)) (fun here => never _ here rfl)
    (fun here => never _ here rfl) (fun _ _ here _ => never _ here rfl)
    fun _ _ here _ _ => never _ here rfl

theorem Coming.wokeFirst {mode woken : Mode} (coming : Coming s mode) {actor target : Task}
    {rest : List Task} {wakes : List (Wake Mode)} (here : s.place actor = .waking (.one woken :: wakes))
    (asleep : s.place target = .asleep woken) :
    Coming ((s.setQueue woken rest).move actor (.unblock target wakes)) mode := by
  have apart : target ≠ actor := fun same => by simp [same, here] at asleep
  have moved : woken = mode →
      Coming ((s.setQueue woken rest).move actor (.unblock target wakes)) mode := fun same => by
    refine .inr (.inl ⟨target, ?_, .inr ⟨actor, wakes, Function.update_self ..⟩⟩)
    exact (Function.update_of_ne apart ..).trans (same ▸ asleep)
  refine coming.keep (fun task apart => Function.update_of_ne apart ..)
    (fun _ _ awake => awake) (fun some => ?_) ?_ ?_ ?_ ?_
  · by_cases same : woken = mode
    · exact .inr (moved same)
    · refine .inl ?_
      simpa [State.move, State.setQueue, Ne.symm same] using some
  · simp [here]
  · simp [here]
  · simp [here]
  · rintro wake more isWaking isMode _
    obtain ⟨rfl, rfl⟩ : Wake.one woken = wake ∧ wakes = more := by simpa [here] using isWaking
    exact moved isMode

theorem Coming.wokeAll {mode woken : Mode} (coming : Coming s mode) {actor : Task}
    {wakes : List (Wake Mode)} (here : s.place actor = .waking (.all woken :: wakes))
    (asleep : ∀ task ∈ s.queue woken, s.place task = .asleep woken) :
    Coming (({ s with blocked := fun task => if task ∈ s.queue woken then false else s.blocked task
      }.setQueue woken []).move actor (.waking wakes)) mode := by
  have moved : woken = mode → s.queue mode ≠ [] → Coming (({ s with
      blocked := fun task => if task ∈ s.queue woken then false else s.blocked task
      }.setQueue woken []).move actor (.waking wakes)) mode := fun same some => by
    subst same
    obtain ⟨task, inside⟩ := List.exists_mem_of_ne_nil _ some
    have sleeps := asleep task inside
    have apart : task ≠ actor := fun same => by simp [same, here] at sleeps
    refine .inr (.inl ⟨task, (Function.update_of_ne apart ..).trans sleeps, .inl ?_⟩)
    exact if_pos inside
  refine coming.keep (fun task apart => Function.update_of_ne apart ..)
    (fun task _ awake => ?_) (fun some => ?_) ?_ ?_ ?_ ?_
  · simp only [State.move, State.setQueue]
    split
    · rfl
    · exact awake
  · by_cases same : woken = mode
    · exact .inr (moved same some)
    · refine .inl ?_
      simpa [State.move, State.setQueue, Ne.symm same] using some
  · simp [here]
  · simp [here]
  · simp [here]
  · rintro wake more isWaking isMode some
    obtain ⟨rfl, rfl⟩ : Wake.all woken = wake ∧ wakes = more := by simpa [here] using isWaking
    exact moved isMode some

/-- A wake-up stays on its way until the task it has woken tests the object. -/
theorem Coming.step {mode : Mode} {event : Event Task Mode} {after : State Task Mode Object}
    (coming : Coming s mode) (parked : Parked s) (prompt : Prompt s event)
    (step : Step protocol s event after)
    (passes : ∀ actor, event = .test actor → s.place actor ≠ .test mode true) :
    Coming after mode := by
  cases step with
  | call actor mode outside =>
      exact coming.idle (by simp [outside, Place.stirs])
        (fun task apart => Function.update_of_ne apart ..) (fun _ _ awake => awake) id
  | acquired actor here passed =>
      refine coming.keep (fun task apart => Function.update_of_ne apart ..)
        (fun _ _ awake => awake) .inl (fun own => absurd own (passes actor rfl)) ?_ ?_ ?_ <;>
        simp [here]
  | refused actor here failed =>
      refine coming.keep (fun task apart => Function.update_of_ne apart ..)
        (fun _ _ awake => awake) .inl (fun own => absurd own (passes actor rfl)) ?_ ?_ ?_ <;>
        simp [here]
  | queued actor here =>
      refine coming.idle (by simp [here, Place.stirs])
        (fun task apart => Function.update_of_ne apart ..) (fun _ _ awake => awake) fun some => ?_
      simp only [State.move, State.setQueue, Function.update_apply]
      split
      · simp
      · exact some
  | unqueued actor here =>
      exact coming.idle (by simp [here, Place.stirs])
        (fun task apart => Function.update_of_ne apart ..) (fun _ _ awake => awake) id
  | slept actor here =>
      exact coming.idle (by simp [here, Place.stirs])
        (fun task apart => Function.update_of_ne apart ..)
        (fun task apart awake => (Function.update_of_ne apart ..).trans awake) id
  | returned actor here => cases prompt actor _ here
  | resumed actor here awake =>
      refine coming.keep (fun task apart => Function.update_of_ne apart ..)
        (fun _ _ awake => awake) .inl ?_ (fun own => .inl ⟨actor, ?_⟩) ?_ ?_
      · simp [here]
      · rw [here] at own
        rw [show (_ : State Task Mode Object).place actor = _ from Function.update_self ..]
        simpa using own
      all_goals simp [here]
  | tried actor mode outside passed => exact coming
  | failed actor mode outside failed => exact coming
  | released actor mode outside result =>
      exact coming.idle (by simp [outside, Place.stirs])
        (fun task apart => Function.update_of_ne apart ..) (fun _ _ awake => awake) id
  | @wokeFirst woken wakes target rest actor here first =>
      exact coming.wokeFirst here
        (parked.asleep prompt (by simp) (first ▸ List.mem_cons_self ..)).1
  | @wokeNone woken wakes actor here empty =>
      refine coming.keep (fun task apart => Function.update_of_ne apart ..)
        (fun _ _ awake => awake) .inl ?_ ?_ ?_ ?_
      · simp [here]
      · simp [here]
      · simp [here]
      · rintro wake more isWaking isMode some
        obtain ⟨rfl, rfl⟩ : Wake.one woken = wake ∧ wakes = more := by simpa [here] using isWaking
        cases isMode
        exact absurd empty some
  | @wokeAll woken wakes actor here =>
      exact coming.wokeAll here fun task inside => (parked.asleep prompt (by simp) inside).1
  | @unblocked target wakes actor here =>
      refine coming.keep (fun task apart => Function.update_of_ne apart ..)
        (fun task _ awake => ?_) .inl ?_ ?_ ?_ ?_
      · simp only [State.move, State.setBlocked, Function.update_apply]
        split
        · rfl
        · exact awake
      · simp [here]
      · simp [here]
      · rintro task more isUnblock asleep
        obtain ⟨rfl, rfl⟩ : target = task ∧ wakes = more := by simpa [here] using isUnblock
        have apart : target ≠ actor := fun same => by simp [same, here] at asleep
        refine .inr (.inl ⟨target, (Function.update_of_ne apart ..).trans asleep, .inl ?_⟩)
        exact Function.update_self ..
      · simp [here]
  | left actor here =>
      exact coming.idle (by simp [here, Place.stirs])
        (fun task apart => Function.update_of_ne apart ..) (fun _ _ awake => awake) id

end Parking

end WaitProtocol
