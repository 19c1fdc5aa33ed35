import ZurichOS.WaitProtocol

/-!
Wake-ups of a waiting protocol with one queue, whose object has a number of free units
and whose releases wake one task each.  As long as every wake-up finds its task asleep
and no task enters the queue past a free unit, no task sleeps on while a unit is free and
no wake-up is under way.
-/

namespace WaitProtocol

open Transitions

variable {Task Object : Type}

/-- The units of an object: a task takes one, a release adds at most one and wakes one. -/
structure Units (protocol : Protocol Task Unit Object) where
  free : Object → Nat
  acquired : ∀ {object task taken}, protocol.attempt object () task = (true, taken) →
    free taken + 1 ≤ free object
  refused : ∀ {object task kept}, protocol.attempt object () task = (false, kept) →
    free kept = 0
  tried : ∀ {object task taken}, protocol.tryOnce object () task = (true, taken) →
    free taken + 1 ≤ free object
  failed : ∀ {object task kept}, protocol.tryOnce object () task = (false, kept) →
    free kept ≤ free object
  released : ∀ {object task waiting given wakes},
    protocol.release object () task waiting = (given, wakes) →
      free given ≤ free object + 1 ∧ wakes = [.one ()]

def Place.searches : Place Task Unit → Bool
  | .waking (_ :: _) => true
  | _ => false

def Place.wakes (blocked : Bool) : Place Task Unit → Bool
  | .waking (_ :: _) => true
  | .unblock _ _ => true
  | .asleep _ => !blocked
  | .test _ woken => woken
  | _ => false

/-- A unit is free, no wake-up is under way, and a task is blocked. -/
def Lost {protocol : Protocol Task Unit Object} (units : Units protocol)
    (s : State Task Unit Object) : Prop :=
  0 < units.free s.object ∧ (∀ task, (s.place task).wakes (s.blocked task) = false) ∧
    ∃ task, s.place task = .asleep () ∧ s.blocked task = true

def Place.single : Place Task Unit → Prop
  | .waking wakes => wakes = [] ∨ wakes = [.one ()]
  | .unblock _ wakes => wakes = []
  | _ => True

/-- Waiting tasks are in the queue or about to be woken, and only they are blocked. -/
structure Ordered (s : State Task Unit Object) : Prop where
  waits : ∀ task, s.place task = .block () ∨ s.place task = .asleep () ∧ s.blocked task = true →
    task ∈ s.queue () ∨ ∃ waker wakes, s.place waker = .unblock task wakes
  asleep : ∀ task, s.blocked task = true → s.place task = .asleep ()
  single : ∀ task, (s.place task).single

section Order

variable {s : State Task Unit Object}

theorem Ordered.awake (ordered : Ordered s) {actor : Task} {place : Place Task Unit}
    (here : s.place actor = place) (up : place ≠ .asleep ()) : s.blocked actor = false := by
  by_contra blocked
  exact up (here.symm.trans (ordered.asleep actor (Bool.not_eq_false _ ▸ blocked)))

theorem Ordered.object (ordered : Ordered s) (object : Object) (holds : Task → Unit → Nat) :
    Ordered { s with object, holds } :=
  ⟨ordered.waits, ordered.asleep, ordered.single⟩

theorem Ordered.enqueue (ordered : Ordered s) (queue : Unit → List Task)
    (more : ∀ task ∈ s.queue (), task ∈ queue ()) : Ordered { s with queue } :=
  ⟨fun task waiting => (ordered.waits task waiting).imp_left (more task), ordered.asleep,
    ordered.single⟩

variable [DecidableEq Task]

theorem Ordered.move (ordered : Ordered s) {actor : Task} {place : Place Task Unit}
    (awake : s.blocked actor = false)
    (wakesNone : ∀ target wakes, s.place actor ≠ .unblock target wakes)
    (queued : place = .block () → actor ∈ s.queue ()) (single : place.single) :
    Ordered (s.move actor place) := by
  have own : (s.move actor place).place actor = place := Function.update_self ..
  have other : ∀ task, task ≠ actor → (s.move actor place).place task = s.place task :=
    fun task apart => Function.update_of_ne apart ..
  refine ⟨fun task waiting => ?_, fun task blocked => ?_, fun task => ?_⟩
  · by_cases same : task = actor
    · subst same
      rw [own] at waiting
      rcases waiting with isBlock | ⟨_, blocked⟩
      · exact .inl (queued isBlock)
      · exact absurd (awake.symm.trans blocked) Bool.false_ne_true
    · rw [other task same] at waiting
      refine (ordered.waits task waiting).imp_right ?_
      rintro ⟨waker, wakes, unblocks⟩
      have apart : waker ≠ actor := fun equal => wakesNone task wakes (equal ▸ unblocks)
      exact ⟨waker, wakes, (other waker apart).trans unblocks⟩
  · have apart : task ≠ actor := fun equal => by
      rw [equal] at blocked
      exact absurd (awake.symm.trans blocked) Bool.false_ne_true
    exact (other task apart).trans (ordered.asleep task blocked)
  · by_cases same : task = actor
    · rw [same, own]
      exact single
    · rw [other task same]
      exact ordered.single task

theorem Ordered.sleep (ordered : Ordered s) {actor : Task} (here : s.place actor = .block ()) :
    Ordered ((s.setBlocked actor true).move actor (.asleep ())) := by
  obtain ⟨waits, asleep, single⟩ := ordered
  have own := waits actor (.inl here)
  refine ⟨fun task waiting => ?_, fun task blocked => ?_, fun task => ?_⟩ <;>
    simp only [State.move, State.setBlocked, Function.update_apply] at *
  · have waiting : s.place task = .block () ∨ s.place task = .asleep () ∧ s.blocked task = true := by
      grind -ring -linarith
    refine (waits task waiting).imp_right ?_
    rintro ⟨waker, wakes, unblocks⟩
    exact ⟨waker, wakes, by grind -ring -linarith⟩
  · grind -ring -linarith
  · split
    · trivial
    · exact single task

theorem Ordered.take (ordered : Ordered s) {actor target : Task} {rest : List Task}
    {mode : Unit} (here : s.place actor = .waking [.one mode])
    (first : s.queue () = target :: rest) :
    Ordered ((s.setQueue () rest).move actor (.unblock target [])) := by
  obtain ⟨waits, asleep, single⟩ := ordered
  refine ⟨fun task waiting => ?_, fun task blocked => ?_, fun task => ?_⟩ <;>
    simp only [State.move, State.setQueue, Function.update_apply, if_true] at *
  · have before : s.place task = .block () ∨ s.place task = .asleep () ∧ s.blocked task = true := by
      grind -ring -linarith
    rcases waits task before with inside | ⟨waker, wakes, unblocks⟩
    · rcases List.mem_cons.mp (first ▸ inside) with isTarget | behind
      · exact .inr ⟨actor, [], by simp [isTarget]⟩
      · exact .inl behind
    · exact .inr ⟨waker, wakes, by grind -ring -linarith⟩
  · grind -ring -linarith
  · split
    · rfl
    · exact single task

theorem Ordered.wake (ordered : Ordered s) {actor target : Task} {wakes : List (Wake Unit)}
    (here : s.place actor = .unblock target wakes) (blocked : s.blocked target = true) :
    Ordered ((s.setBlocked target false).move actor (.waking [])) := by
  obtain ⟨waits, asleep, single⟩ := ordered
  have sleeps := asleep target blocked
  refine ⟨fun task waiting => ?_, fun task blocked => ?_, fun task => ?_⟩ <;>
    simp only [State.move, State.setBlocked, Function.update_apply] at *
  · have before : task ≠ target ∧
        (s.place task = .block () ∨ s.place task = .asleep () ∧ s.blocked task = true) := by grind -ring -linarith
    refine (waits task before.2).imp_right ?_
    rintro ⟨waker, others, unblocks⟩
    exact ⟨waker, others, by grind -ring -linarith⟩
  · grind -ring -linarith
  · split
    · exact .inl rfl
    · exact single task

end Order

variable [Fintype Task]

def searching (s : State Task Unit Object) : Nat := total fun task => (s.place task).searches.toNat

def underWay (s : State Task Unit Object) : Nat :=
  total fun task => ((s.place task).wakes (s.blocked task)).toNat

/-- The wake-ups suffice for the queue or for the free units. -/
def Covered {protocol : Protocol Task Unit Object} (units : Units protocol)
    (queued : Nat) (s : State Task Unit Object) : Prop :=
  queued ≤ searching s ∨ units.free s.object ≤ underWay s

/-- A task enters the queue only where it stays covered, a block does not return at once,
and a wake-up finds its task blocked. -/
def Careful {protocol : Protocol Task Unit Object} (units : Units protocol)
    (s : State Task Unit Object) : Event Task Unit → Prop
  | .enqueue _ memory => memory = true → Covered units ((s.queue ()).length + 1) s
  | .block _ others => others = true
  | .unblock actor => ∀ target wakes, s.place actor = .unblock target wakes →
      s.blocked target = true
  | _ => True

structure Kept {protocol : Protocol Task Unit Object} (units : Units protocol)
    (s : State Task Unit Object) : Prop extends Ordered s where
  covered : Covered units (s.queue ()).length s

variable {protocol : Protocol Task Unit Object} {units : Units protocol}
  {s : State Task Unit Object}

theorem Kept.not_lost (kept : Kept units s) : ¬ Lost units s := by
  rintro ⟨free, quiet, sleeper, asleep, blocked⟩
  have none : underWay s = 0 := Finset.sum_eq_zero fun task _ => by rw [quiet task]; rfl
  have noSearch : searching s = 0 := Finset.sum_eq_zero fun task _ => by
    have silent := quiet task
    revert silent
    cases s.place task with
    | waking wakes => cases wakes <;> simp [Place.wakes, Place.searches]
    | _ => simp [Place.searches]
  have queued : sleeper ∈ s.queue () := by
    refine (kept.waits sleeper (.inr ⟨asleep, blocked⟩)).resolve_right ?_
    rintro ⟨waker, wakes, unblocks⟩
    have silent := quiet waker
    rw [unblocks] at silent
    cases silent
  have positive := List.length_pos_of_mem queued
  rcases kept.covered with enough | enough
  · omega
  · omega

theorem Fresh.kept (fresh : Fresh s) : Kept units s := by
  refine ⟨⟨?_, ?_, ?_⟩, .inl ?_⟩
  · simp [fresh.place]
  · simp [fresh.blocked]
  · simp [fresh.place, Place.single]
  · simp [fresh.queue]

variable [DecidableEq Task]

theorem searching_move (s : State Task Unit Object) (actor : Task) (place : Place Task Unit) :
    searching (s.move actor place) + (s.place actor).searches.toNat =
      searching s + place.searches.toNat := by
  have change := total_change (fun task => (s.place task).searches.toNat)
    (fun task => ((s.move actor place).place task).searches.toNat) actor
    fun task apart => by simp [State.move, Function.update_of_ne apart]
  simpa [searching, State.move] using change

theorem underWay_move (s : State Task Unit Object) (actor : Task) (place : Place Task Unit) :
    underWay (s.move actor place) + ((s.place actor).wakes (s.blocked actor)).toNat =
      underWay s + (place.wakes (s.blocked actor)).toNat := by
  have change := total_change
    (fun task => ((s.place task).wakes (s.blocked task)).toNat)
    (fun task => (((s.move actor place).place task).wakes (s.blocked task)).toNat) actor
    fun task apart => by simp [State.move, Function.update_of_ne apart]
  simpa [underWay, State.move] using change

theorem underWay_setBlocked (s : State Task Unit Object) (target : Task) (blocked : Bool) :
    underWay (s.setBlocked target blocked) +
        ((s.place target).wakes (s.blocked target)).toNat =
      underWay s + ((s.place target).wakes blocked).toNat := by
  have change := total_change
    (fun task => ((s.place task).wakes (s.blocked task)).toNat)
    (fun task => ((s.place task).wakes ((s.setBlocked target blocked).blocked task)).toNat)
    target fun task apart => by simp [State.setBlocked, Function.update_of_ne apart]
  simpa [underWay, State.setBlocked] using change

theorem Covered.move {queued : Nat} (covered : Covered units queued s) {object : Object}
    {holds : Task → Unit → Nat} {actor : Task} {place : Place Task Unit}
    (search : (s.place actor).searches.toNat ≤ place.searches.toNat)
    (free : units.free object + ((s.place actor).wakes (s.blocked actor)).toNat ≤
      units.free s.object + (place.wakes (s.blocked actor)).toNat) :
    Covered units queued ({ s with object, holds }.move actor place) := by
  have searches := searching_move { s with object, holds } actor place
  have wakes := underWay_move { s with object, holds } actor place
  have sameSearch : searching { s with object, holds } = searching s := rfl
  have sameWakes : underWay { s with object, holds } = underWay s := rfl
  have sameFree : units.free ({ s with object, holds }.move actor place).object =
      units.free object := rfl
  dsimp only at searches wakes
  unfold Covered at *
  omega

/-- A step of a task that is awake, wakes nobody and does not enter the queue. -/
theorem Kept.move (kept : Kept units s) {object : Object} {holds : Task → Unit → Nat}
    {actor : Task} {old place : Place Task Unit} (here : s.place actor = old)
    (awake : s.blocked actor = false) (wakesNone : ∀ target wakes, old ≠ .unblock target wakes)
    (queued : place ≠ .block ()) (single : place.single)
    (search : old.searches.toNat ≤ place.searches.toNat)
    (free : units.free object + (old.wakes false).toNat ≤
      units.free s.object + (place.wakes false).toNat) :
    Kept units ({ s with object, holds }.move actor place) := by
  subst here
  refine ⟨(kept.object object holds).move awake wakesNone (fun isBlock => absurd isBlock queued)
    single, ?_⟩
  have moved : Covered units (s.queue ()).length ({ s with object, holds }.move actor place) :=
    kept.covered.move search (by rwa [awake])
  exact moved

theorem Kept.enqueue (kept : Kept units s) {actor : Task} (here : s.place actor = .enqueue ())
    (longer : Covered units ((s.queue ()).length + 1) s) :
    Kept units ((s.setQueue () (s.queue () ++ [actor])).move actor (.block ())) := by
  have awake := kept.awake here (by simp)
  refine ⟨(kept.toOrdered.enqueue (Function.update s.queue () (s.queue () ++ [actor]))
    fun task member => by simp [member]).move awake (by simp [here]) (fun _ => by simp) trivial, ?_⟩
  have grown : Covered units (s.queue () ++ [actor]).length s := by simpa using longer
  have moved : Covered units (s.queue () ++ [actor]).length (s.move actor (.block ())) :=
    grown.move (by simp [here, Place.searches]) (by simp [here, Place.wakes])
  exact moved

theorem Kept.sleep (kept : Kept units s) {actor : Task} (here : s.place actor = .block ()) :
    Kept units ((s.setBlocked actor true).move actor (.asleep ())) := by
  have sleeps : Covered units (s.queue ()).length (s.setBlocked actor true) := by
    have wakes := underWay_setBlocked s actor true
    simp only [here, Place.wakes, Nat.add_right_cancel_iff] at wakes
    exact kept.covered.imp_right fun enough => wakes ▸ enough
  refine ⟨kept.toOrdered.sleep here, sleeps.move ?_ ?_⟩ <;>
    simp [here, State.setBlocked, Place.searches, Place.wakes]

/-- The queue and the searching wake-ups lose one each. -/
theorem Kept.take (kept : Kept units s) {actor target : Task} {rest : List Task}
    (here : s.place actor = .waking [.one ()]) (first : s.queue () = target :: rest) :
    Kept units ((s.setQueue () rest).move actor (.unblock target [])) := by
  refine ⟨kept.toOrdered.take here first, ?_⟩
  have covered := kept.covered
  have searches := searching_move s actor (.unblock target [])
  have wakes := underWay_move s actor (.unblock target [])
  have length : (s.queue ()).length = rest.length + 1 := congrArg List.length first
  have same : units.free (s.move actor (.unblock target [])).object = units.free s.object := rfl
  have shorter : Covered units rest.length (s.move actor (.unblock target [])) := by
    simp [here, Place.searches, Place.wakes] at searches wakes
    unfold Covered at *
    omega
  exact shorter

/-- The wake-up of a blocked task passes from the task that runs it to the woken one. -/
theorem Kept.wake (kept : Kept units s) {actor target : Task}
    (here : s.place actor = .unblock target []) (blocked : s.blocked target = true) :
    Kept units ((s.setBlocked target false).move actor (.waking [])) := by
  refine ⟨kept.toOrdered.wake here blocked, ?_⟩
  have covered := kept.covered
  have woken := underWay_setBlocked s target false
  have wakes := underWay_move (s.setBlocked target false) actor (.waking [])
  have searches := searching_move (s.setBlocked target false) actor (.waking [])
  have sameSearch : searching (s.setBlocked target false) = searching s := rfl
  have same : (s.setBlocked target false).place actor = .unblock target [] := here
  have sameFree : units.free ((s.setBlocked target false).move actor (.waking [])).object =
      units.free s.object := rfl
  have sameQueue : (((s.setBlocked target false).move actor (.waking [])).queue ()).length =
      (s.queue ()).length := rfl
  simp [kept.asleep target blocked, blocked, same, Place.wakes, Place.searches]
    at woken wakes searches
  unfold Covered at *
  omega

theorem step_kept {event : Event Task Unit} {after : State Task Unit Object}
    (kept : Kept units s) (careful : Careful units s event) (step : Step protocol s event after) :
    Kept units after := by
  cases step with
  | call actor mode outside =>
      refine kept.move outside (kept.awake outside ?_) ?_ ?_ trivial ?_ ?_ <;>
        simp [Place.searches, Place.wakes]
  | @acquired _ woken _ actor here passed =>
      have taken := units.acquired passed
      refine kept.move here (kept.awake here (by simp)) (by simp) (by simp) trivial
        (by simp [Place.searches]) ?_
      have one := Bool.toNat_le woken
      simp only [Place.wakes, Bool.toNat_false]
      omega
  | refused actor here failed =>
      have none := units.refused failed
      refine ⟨(kept.object _ _).move (kept.awake here (by simp)) (by simp [here]) (by simp)
        trivial, .inr ?_⟩
      exact none ▸ Nat.zero_le _
  | queued actor here => exact kept.enqueue here (careful rfl)
  | unqueued actor here =>
      refine kept.move here (kept.awake here ?_) ?_ ?_ trivial ?_ ?_ <;>
        simp [Place.searches, Place.wakes]
  | slept actor here => exact kept.sleep here
  | returned actor here => cases careful
  | resumed actor here awake =>
      refine kept.move here awake ?_ ?_ trivial ?_ ?_ <;> simp [Place.searches, Place.wakes]
  | tried actor mode outside passed =>
      have taken := units.tried passed
      exact ⟨kept.object _ _, kept.covered.imp_right fun enough =>
        (Nat.le_of_succ_le taken).trans enough⟩
  | failed actor mode outside refused =>
      exact ⟨kept.object _ _, kept.covered.imp_right (units.failed refused).trans⟩
  | released actor mode outside result =>
      obtain ⟨given, rfl⟩ := units.released result
      refine kept.move outside (kept.awake outside (by simp)) (by simp) (by simp) (.inr rfl)
        (by simp [Place.searches]) ?_
      simpa [Place.wakes] using given
  | @wokeFirst _ wakes target rest actor here first =>
      obtain rfl : wakes = [] := by simpa [here, Place.single] using kept.single actor
      exact kept.take here first
  | @wokeNone _ wakes actor here empty =>
      obtain rfl : wakes = [] := by simpa [here, Place.single] using kept.single actor
      have none : (s.queue ()).length = 0 := congrArg List.length empty
      refine ⟨kept.toOrdered.move (kept.awake here (by simp)) (by simp [here]) (by simp)
        (.inl rfl), .inl ?_⟩
      exact none ▸ Nat.zero_le _
  | wokeAll actor here =>
      have single := kept.single actor
      simp [here, Place.single] at single
  | @unblocked target wakes actor here =>
      obtain rfl : wakes = [] := by simpa [here, Place.single] using kept.single actor
      exact kept.wake here (careful target [] here)
  | left actor here =>
      refine kept.move here (kept.awake here ?_) ?_ ?_ trivial ?_ ?_ <;>
        simp [Place.searches, Place.wakes]

/-- No wake-up is lost in a run whose steps are careful. -/
theorem reachable_not_lost {initial : State Task Unit Object → Prop}
    (fresh : ∀ s, initial s → Fresh s)
    (reached : Reachable initial (Restricted (Careful units) (Step protocol)) s) :
    ¬ Lost units s := by
  refine Kept.not_lost (reached.invariant (Kept units) ?_ ?_)
  · exact fun s start => (fresh s start).kept
  · exact fun s event after kept step => step_kept kept step.1 step.2

end WaitProtocol
