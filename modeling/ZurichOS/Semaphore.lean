import ZurichOS.LostWakeup

/-!
Conservation of the units of a semaphore: the signals and the units taken are counted
beside the run.
-/

namespace WaitProtocol

open Transitions

variable {Task Mode Object : Type} [DecidableEq Task] [DecidableEq Mode]

/-- A state with the releases performed and the units taken on the way to it. -/
structure Tally (Task Mode Object : Type) where
  state : State Task Mode Object
  released : Nat
  taken : Nat

def Event.releases : Event Task Mode → Bool
  | .release _ _ => true
  | _ => false

/-- The event is a test, in a wait or a single try, that takes a unit. -/
def takes (protocol : Protocol Task Mode Object) (s : State Task Mode Object) :
    Event Task Mode → Bool
  | .test actor =>
      match s.place actor with
      | .test mode _ => (protocol.attempt s.object mode actor).1
      | _ => false
  | .tryOnce actor mode => (protocol.tryOnce s.object mode actor).1
  | _ => false

def TallyStep (protocol : Protocol Task Mode Object) (t : Tally Task Mode Object)
    (event : Event Task Mode) (after : Tally Task Mode Object) : Prop :=
  Step protocol t.state event after.state ∧
    after.released = t.released + event.releases.toNat ∧
    after.taken = t.taken + (takes protocol t.state event).toNat

/-- A step leaves the object alone or runs one of the locked sections on it. -/
theorem step_object {protocol : Protocol Task Mode Object} {s after : State Task Mode Object}
    {event : Event Task Mode} (step : Step protocol s event after) :
    (event.releases = false ∧ takes protocol s event = false ∧ after.object = s.object) ∨
      (event.releases = false ∧ ∃ mode actor,
        (takes protocol s event, after.object) = protocol.attempt s.object mode actor) ∨
      (event.releases = false ∧ ∃ mode actor,
        (takes protocol s event, after.object) = protocol.tryOnce s.object mode actor) ∨
      (event.releases = true ∧ takes protocol s event = false ∧ ∃ mode actor waiting,
        after.object = (protocol.release s.object mode actor waiting).1) := by
  cases step with
  | @acquired mode _ object actor here passed =>
      exact .inr (.inl ⟨rfl, mode, actor, by simp only [takes, here, passed]; rfl⟩)
  | @refused mode _ object actor here failed =>
      exact .inr (.inl ⟨rfl, mode, actor, by simp only [takes, here, failed]; rfl⟩)
  | tried actor mode outside passed =>
      exact .inr (.inr (.inl ⟨rfl, mode, actor, by simp only [takes, passed]; rfl⟩))
  | failed actor mode outside failed =>
      exact .inr (.inr (.inl ⟨rfl, mode, actor, by simp only [takes, failed]⟩))
  | released actor mode outside result =>
      exact .inr (.inr (.inr ⟨rfl, rfl, mode, actor, s.waiting, by rw [result]; rfl⟩))
  | _ => exact .inl ⟨rfl, rfl, rfl⟩

end WaitProtocol

namespace ZurichOS

open WaitProtocol Transitions

variable {Ref : Type}

/-- A semaphore just initialised to `count`. -/
def SemaphoreTallyStart (count : BitVec 32) (t : Tally Ref Unit Semaphore) : Prop :=
  SemaphoreStart count t.state ∧ t.released = 0 ∧ t.taken = 0

/-- The units the semaphore has after this signal, which no wait has taken, are fewer
than 2^31. -/
def FewOutstanding (count : BitVec 32) (t : Tally Ref Unit Semaphore) : Event Ref Unit → Prop
  | .release _ _ => count.toInt + (t.released + 1) - t.taken < 2 ^ 31
  | _ => True

/-- The count is what the signals have given and nobody has taken. -/
structure PermitsConserved (count : BitVec 32) (t : Tally Ref Unit Semaphore) : Prop where
  nonneg : 0 ≤ t.state.object.count.toInt
  balance : t.state.object.count.toInt = count.toInt + t.released - t.taken

theorem semaphoreTrywait_count {sem after : Semaphore} {taken : Bool}
    (result : (taken, after) = semaphoreTrywait sem) (nonneg : 0 ≤ sem.count.toInt) :
    0 ≤ after.count.toInt ∧ after.count.toInt = sem.count.toInt - taken.toNat := by
  unfold semaphoreTrywait at result
  split at result
  · rename_i positive
    cases result
    rw [count_sub_one positive]
    exact ⟨by omega, rfl⟩
  · cases result
    exact ⟨nonneg, (Int.sub_zero _).symm⟩

theorem count_add_one {count : BitVec 32} (small : count.toInt + 1 < 2 ^ 31) :
    (count + 1).toInt = count.toInt + 1 := by
  have lower := BitVec.le_toInt count
  rw [BitVec.toInt_add, show (1 : BitVec 32).toInt = 1 from rfl]
  exact Int.bmod_eq_of_le (by omega) (by omega)

theorem PermitsConserved.take {count : BitVec 32} {t after : Tally Ref Unit Semaphore} {taken : Bool}
    (conserved : PermitsConserved count t)
    (result : (taken, after.state.object) = semaphoreTrywait t.state.object)
    (released : after.released = t.released) (units : after.taken = t.taken + taken.toNat) :
    PermitsConserved count after := by
  obtain ⟨nonneg, balance⟩ := conserved
  obtain ⟨positive, changed⟩ := semaphoreTrywait_count result nonneg
  refine ⟨positive, ?_⟩
  rw [changed, released, units]
  push_cast
  omega

theorem PermitsConserved.signal {count : BitVec 32} {t after : Tally Ref Unit Semaphore}
    (conserved : PermitsConserved count t) (few : count.toInt + (t.released + 1) - t.taken < 2 ^ 31)
    (result : after.state.object = semaphoreSignalSection t.state.object)
    (released : after.released = t.released + 1) (units : after.taken = t.taken) :
    PermitsConserved count after := by
  obtain ⟨nonneg, balance⟩ := conserved
  have more : after.state.object.count.toInt = t.state.object.count.toInt + 1 := by
    rw [result]
    exact count_add_one (by omega)
  refine ⟨by omega, ?_⟩
  rw [more, released, units]
  push_cast
  omega

variable [DecidableEq Ref]

theorem step_conserved {count : BitVec 32} {t after : Tally Ref Unit Semaphore}
    {event : Event Ref Unit} (conserved : PermitsConserved count t) (few : FewOutstanding count t event)
    (step : TallyStep semaphoreProtocol t event after) : PermitsConserved count after := by
  obtain ⟨step, released, taken⟩ := step
  rcases step_object step with ⟨idle, takes, same⟩ | ⟨idle, mode, actor, result⟩ |
    ⟨idle, mode, actor, result⟩ | ⟨signal, takes, mode, actor, waiting, result⟩
  · rw [idle] at released
    rw [takes] at taken
    refine ⟨same ▸ conserved.nonneg, ?_⟩
    rw [same, released, taken]
    exact conserved.balance
  · exact conserved.take result (by rw [released, idle]; rfl) taken
  · exact conserved.take result (by rw [released, idle]; rfl) taken
  · cases event with
    | release =>
        exact conserved.signal few result (by rw [released, signal]; rfl) (by rw [taken, takes]; rfl)
    | _ => cases signal

/-- In every interleaving the count is not negative and equals the initial count with the
signals performed and without the units taken. -/
theorem semaphore_conserved (count : BitVec 32) (nonneg : 0 ≤ count.toInt)
    {t : Tally Ref Unit Semaphore}
    (reached : Reachable (SemaphoreTallyStart count)
      (Restricted (FewOutstanding count) (TallyStep semaphoreProtocol)) t) :
    0 ≤ t.state.object.count.toInt ∧
      t.state.object.count.toInt = count.toInt + t.released - t.taken := by
  have conserved : PermitsConserved count t := by
    refine reached.invariant (PermitsConserved count) (fun t start => ?_)
      fun t event after conserved step => step_conserved conserved step.1 step.2
    obtain ⟨⟨_, object⟩, released, taken⟩ := start
    refine ⟨object ▸ nonneg, ?_⟩
    rw [object, released, taken]
    simp [semaphoreInit]
  exact ⟨conserved.nonneg, conserved.balance⟩

def semaphoreBoot (count : BitVec 32) : State (Fin 2) Unit Semaphore where
  object := semaphoreInit count
  queue _ := []
  blocked _ := false
  place _ := .outside
  holds _ _ := 0

theorem semaphore_conserved_trywait :
    let s := semaphoreBoot 1
    (semaphoreTrywait s.object).2.count.toInt = (1 : BitVec 32).toInt + (0 : Nat) - (1 : Nat) := by
  have start : SemaphoreTallyStart 1 ⟨semaphoreBoot 1, 0, 0⟩ :=
    ⟨⟨⟨fun _ => rfl, fun _ => rfl, fun _ => rfl, fun _ _ => rfl⟩, rfl⟩, rfl, rfl⟩
  have step : TallyStep semaphoreProtocol ⟨semaphoreBoot 1, 0, 0⟩ (.tryOnce 1 ())
      ⟨(semaphoreBoot 1).take 1 () (semaphoreTrywait (semaphoreInit 1)).2, 0, 1⟩ :=
    ⟨.tried 1 () rfl rfl, rfl, rfl⟩
  have reached : Reachable (SemaphoreTallyStart 1)
      (Restricted (FewOutstanding 1) (TallyStep semaphoreProtocol))
      ⟨(semaphoreBoot 1).take 1 () (semaphoreTrywait (semaphoreInit 1)).2, 0, 1⟩ :=
    (Reachable.start start).extend step trivial
  exact (semaphore_conserved 1 (by decide) reached).2

end ZurichOS
