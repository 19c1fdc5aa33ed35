import Mathlib.Tactic.IntervalCases
import ZurichOS.PipeRefs
import ZurichOS.SignalCore

set_option linter.all false

/-!
The two paths that deliver signals, and where they agree.
-/

namespace ZurichOS

open Words

section Bits

theorem testBit_not32 (mask : Nat) {bit : Nat} (inside : bit < 32) :
    (not32 mask).testBit bit = !mask.testBit bit := by
  have ones : (0xFFFFFFFF : Nat) = 2 ^ 32 - 1 := by decide
  rw [not32, ones, Nat.testBit_xor, Nat.testBit_two_pow_sub_one, decide_eq_true inside,
    Bool.true_xor]

theorem testBit_sigBit (sig bit : Nat) : (sigBit sig).testBit bit = decide (sig - 1 = bit) := by
  rw [sigBit, Nat.one_shiftLeft, Nat.testBit_two_pow]

theorem and_sigBit (pending sig : Nat) :
    pending &&& sigBit sig ≠ 0 ↔ pending.testBit (sig - 1) = true := by
  rw [sigBit, Nat.one_shiftLeft, Nat.and_two_pow]
  cases pending.testBit (sig - 1) with
  | false => simp
  | true => simp

theorem testBit_clear (pending sig : Nat) {bit : Nat} (inside : bit < 32) :
    (pending &&& not32 (sigBit sig)).testBit bit =
      (pending.testBit bit && !decide (sig - 1 = bit)) := by
  rw [Nat.testBit_and, testBit_not32 _ inside, testBit_sigBit]

end Bits

section Rounds

def Process.pendingList (proc : Process) : List Nat :=
  signals.filter fun sig => decide (signalPending proc &&& sigBit sig ≠ 0)

def rounds (body : Nat → Delivery → Bool × Delivery) : List Nat → Delivery → Delivery
  | [], d => d
  | sig :: rest, d => if (body sig d).1 then (body sig d).2 else rounds body rest (body sig d).2

theorem signalLoop_rounds (body : Nat → Delivery → Bool × Delivery) (pending : Nat) :
    ∀ sigs d, signalLoop body pending sigs d =
      rounds body (sigs.filter fun sig => decide (pending &&& sigBit sig ≠ 0)) d := by
  intro sigs
  induction sigs with
  | nil => intro d; rfl
  | cons sig rest ih =>
      intro d
      simp only [signalLoop, List.filter_cons]
      by_cases clear : pending &&& sigBit sig = 0
      · simp [clear, ih]
      · simp [clear, ih, rounds]

theorem pendingList_none {proc : Process} (none : signalPending proc = 0) :
    proc.pendingList = [] := by
  simp [Process.pendingList, none]

theorem signalHandlePending_rounds (run : Nat → Nat → Processes → Processes) (s : Processes)
    (i : Nat) : signalHandlePending run s (some i) =
      rounds (handleSignal run i) (s.table i).pendingList ⟨s, [], none⟩ := by
  simp only [signalHandlePending]
  split
  · rename_i nothing
    rw [pendingList_none nothing]
    rfl
  · exact signalLoop_rounds ..

theorem processCheckSignals_rounds (run : Nat → Nat → Processes → Processes) {s : Processes}
    {i : Nat} (current : processCurrent s = some i) : processCheckSignals run s =
      rounds (checkSignal run i) (s.table i).pendingList ⟨s, [], none⟩ := by
  simp only [processCheckSignals, current]
  split
  · rename_i nothing
    rw [pendingList_none nothing]
    rfl
  · exact signalLoop_rounds ..

theorem mem_pendingList {proc : Process} {sig : Nat} (member : sig ∈ proc.pendingList) :
    1 ≤ sig ∧ sig < 32 ∧ proc.pendingSignals.testBit (sig - 1) = true ∧
      proc.blockedSignals.testBit (sig - 1) = false := by
  simp only [Process.pendingList, List.mem_filter, signals, List.mem_range'_1,
    decide_eq_true_eq, and_sigBit] at member
  obtain ⟨⟨lower, upper⟩, bit⟩ := member
  have upper : sig < 32 := upper
  have inside : sig - 1 < 32 := by omega
  rw [signalPending, Nat.testBit_and, testBit_not32 _ inside, Bool.and_eq_true,
    Bool.not_eq_true'] at bit
  exact ⟨lower, upper, bit⟩

theorem pendingList_mem {proc : Process} {sig : Nat} (lower : 1 ≤ sig) (upper : sig < 32)
    (pending : proc.pendingSignals.testBit (sig - 1) = true)
    (unblocked : proc.blockedSignals.testBit (sig - 1) = false) : sig ∈ proc.pendingList := by
  simp only [Process.pendingList, List.mem_filter, signals, List.mem_range'_1,
    decide_eq_true_eq, and_sigBit]
  refine ⟨⟨lower, upper⟩, ?_⟩
  rw [signalPending, Nat.testBit_and, testBit_not32 _ (by omega), pending, unblocked]
  rfl

theorem pendingList_sorted (proc : Process) : proc.pendingList.Pairwise (· < ·) :=
  (List.pairwise_lt_range' 1).filter _

end Rounds

/-- Tables with the same handlers, masks and pending signals, `SIGCHLD` apart. -/
def SameSignals (before after : Nat → Process) : Prop :=
  ∀ i, (after i).signalHandlers = (before i).signalHandlers ∧
    (after i).blockedSignals = (before i).blockedSignals ∧
    ∀ bit, bit < 32 → bit ≠ 16 →
      (after i).pendingSignals.testBit bit = (before i).pendingSignals.testBit bit

section SameSignals

variable {before after last table : Nat → Process}

theorem SameSignals.refl (table : Nat → Process) : SameSignals table table :=
  fun _ => ⟨rfl, rfl, fun _ _ _ => rfl⟩

theorem SameSignals.trans (first : SameSignals before after) (second : SameSignals after last) :
    SameSignals before last := fun i =>
  ⟨(second i).1.trans (first i).1, (second i).2.1.trans (first i).2.1,
    fun bit inside apart => ((second i).2.2 bit inside apart).trans
      ((first i).2.2 bit inside apart)⟩

theorem SameSignals.set {index : Nat} {proc : Process}
    (handlers : proc.signalHandlers = (table index).signalHandlers)
    (blocked : proc.blockedSignals = (table index).blockedSignals)
    (pending : ∀ bit, bit < 32 → bit ≠ 16 →
      proc.pendingSignals.testBit bit = (table index).pendingSignals.testBit bit) :
    SameSignals table (Function.update table index proc) := fun i => by
  by_cases own : i = index
  · subst own
    rw [Function.update_self]
    exact ⟨handlers, blocked, pending⟩
  · rw [Function.update_of_ne own]
    exact ⟨rfl, rfl, fun _ _ _ => rfl⟩

theorem processReparentChildren_signals (s : Processes) (pid : Nat) :
    SameSignals s.table (processReparentChildren s pid).table := fun i => by
  simp only [processReparentChildren]
  split
  · exact ⟨rfl, rfl, fun _ _ _ => rfl⟩
  · exact ⟨rfl, rfl, fun _ _ _ => rfl⟩

theorem sigchld_signals (s : Processes) (pid : Nat) :
    SameSignals s.table (processSignal s pid sigchld).2.table := by
  unfold processSignal
  rw [if_neg (by decide), if_neg (by decide)]
  split
  · exact .refl _
  · refine SameSignals.set rfl rfl fun bit _ apart => ?_
    have other : (1 <<< ((sigchld).toNat - 1)).testBit bit = false := by
      rw [Nat.one_shiftLeft, Nat.testBit_two_pow]
      exact decide_eq_false (Ne.symm apart)
    rw [Nat.testBit_or, other, Bool.or_false]

theorem processExit_signals (s : Processes) (status : Int) :
    SameSignals s.table (processExit s status).table := by
  unfold processExit
  split
  · exact .refl _
  · rename_i i found
    dsimp only
    split
    · exact .refl _
    · have marked : SameSignals s.table (s.set i { s.table i with exitCode := status }).table :=
        SameSignals.set rfl rfl fun _ _ _ => rfl
      have orphaned := marked.trans (processReparentChildren_signals _ (s.table i).pid)
      refine (orphaned.trans (sigchld_signals _ _)).trans (SameSignals.set rfl rfl ?_)
      exact fun _ _ _ => rfl

end SameSignals

/-- User handlers that neither send signals nor change a handler or a mask. -/
def KeepsSignals (run : Nat → Nat → Processes → Processes) : Prop :=
  ∀ handler sig s, SameSignals s.table (run handler sig s).table

/-- The signals at which `signal_handle_pending` returns. -/
def endsDelivery (proc : Process) (sig : Nat) : Bool :=
  decide (sig = sigkill ∨ sig = sigstop ∨ proc.signalHandlers sig = sigDfl ∧
    (defaultActions sig = .term ∨ defaultActions sig = .core ∨ defaultActions sig = .stop))

def jobStop (sig : Nat) : Prop := sig = sigtstp ∨ sig = sigttin ∨ sig = sigttou

/-- Where the delivery of `signal_handle_pending` ends at a `SIGTSTP`, `SIGTTIN` or `SIGTTOU`
with the default handler, no higher signal is left. -/
def PathsAgree (proc : Process) : Prop :=
  ∀ sig, proc.pendingList.find? (endsDelivery proc) = some sig → jobStop sig →
    ∀ higher ∈ proc.pendingList, higher ≤ sig

section Agreement

variable {run : Nat → Nat → Processes → Processes} {d : Delivery} {i sig : Nat}

theorem clear_signals (d : Delivery) (i sig : Nat) :
    ((d.clear i sig).processes.table i).signalHandlers =
        (d.processes.table i).signalHandlers ∧
      ∀ bit < 32, ((d.clear i sig).processes.table i).pendingSignals.testBit bit =
        ((d.processes.table i).pendingSignals.testBit bit && !decide (sig - 1 = bit)) := by
  simp only [Delivery.clear, set_table, Function.update_self, true_and]
  exact fun bit inside => testBit_clear _ sig inside

theorem setState_signals (d : Delivery) (i : Nat) (state : ProcState) :
    SameSignals d.processes.table (d.setState i state).processes.table :=
  SameSignals.set rfl rfl fun _ _ _ => rfl

theorem resume_signals (d : Delivery) (i : Nat) :
    SameSignals d.processes.table (d.resume i).processes.table := by
  unfold Delivery.resume
  split
  · exact setState_signals d i .ready
  · exact .refl _

theorem handleSignal_ends (run : Nat → Nat → Processes → Processes) (i sig : Nat) (d : Delivery) :
    (handleSignal run i sig d).1 = endsDelivery (d.processes.table i) sig := by
  have handlers := (clear_signals d i sig).1
  unfold handleSignal endsDelivery
  dsimp only
  rw [handlers]
  by_cases kill : sig = sigkill
  · simp [kill]
  by_cases stop : sig = sigstop
  · simp [stop]
  by_cases ignored : (d.processes.table i).signalHandlers sig = sigIgn
  · simp [kill, stop, ignored]
  by_cases default : (d.processes.table i).signalHandlers sig = sigDfl
  · simp only [kill, stop, default]
    cases defaultActions sig with
    | term => simp
    | core => simp
    | stop => simp
    | cont => simp
    | ign => simp
  · simp [kill, stop, ignored, default]

/-- A round of the two paths is the same, unless it stops the process by default. -/
theorem checkSignal_eq (run : Nat → Nat → Processes → Processes) (lower : 1 ≤ sig) (upper : sig < 32)
    (other : ¬ (jobStop sig ∧ (d.processes.table i).signalHandlers sig = sigDfl)) :
    checkSignal run i sig d = handleSignal run i sig d := by
  have handlers := (clear_signals d i sig).1
  unfold checkSignal handleSignal
  dsimp only
  rw [handlers]
  by_cases ignored : (d.processes.table i).signalHandlers sig = sigIgn
  · simp [ignored]
  by_cases default : (d.processes.table i).signalHandlers sig = sigDfl
  · simp only [default]
    have jobs : ¬ jobStop sig := fun stop => other ⟨stop, default⟩
    unfold jobStop at jobs
    interval_cases sig <;> simp_all [defaultActions]
  · simp [ignored, default]

theorem jobStop_rounds (run : Nat → Nat → Processes → Processes) (stop : jobStop sig)
    (default : (d.processes.table i).signalHandlers sig = sigDfl) :
    handleSignal run i sig d = (true, (d.clear i sig).setState i .stopped) ∧
      checkSignal run i sig d = (false, (d.clear i sig).setState i .stopped) := by
  have handlers := (clear_signals d i sig).1
  unfold checkSignal handleSignal
  dsimp only
  rw [handlers, default]
  rcases stop with rfl | rfl | rfl
  · exact ⟨rfl, rfl⟩
  · exact ⟨rfl, rfl⟩
  · exact ⟨rfl, rfl⟩

theorem handleSignal_signals (keeps : KeepsSignals run) (i sig : Nat) (d : Delivery) :
    SameSignals (d.clear i sig).processes.table (handleSignal run i sig d).2.processes.table := by
  unfold handleSignal
  generalize d.clear i sig = d
  dsimp only
  split
  · exact processExit_signals _ _
  split
  · exact setState_signals d i .stopped
  split
  · exact .refl _
  split
  · split
    · exact processExit_signals _ _
    · exact processExit_signals _ _
    · exact setState_signals d i .stopped
    · exact resume_signals d i
    · exact .refl _
  · exact keeps _ sig d.processes

theorem checkSignal_signals (keeps : KeepsSignals run) (lower : 1 ≤ sig) (upper : sig < 32)
    (i : Nat) (d : Delivery) :
    SameSignals (d.clear i sig).processes.table (checkSignal run i sig d).2.processes.table := by
  by_cases stops : jobStop sig ∧ (d.processes.table i).signalHandlers sig = sigDfl
  · rw [(jobStop_rounds run stops.1 stops.2).2]
    exact setState_signals _ i .stopped
  · rw [checkSignal_eq run lower upper stops]
    exact handleSignal_signals keeps i sig d

/-- A signal that is not pending does not become pending in a delivery, `SIGCHLD` apart. -/
theorem rounds_cleared (keeps : KeepsSignals run) {list : List Nat}
    (range : ∀ sig ∈ list, 1 ≤ sig ∧ sig < 32) {bit : Nat} (inside : bit < 32) (apart : bit ≠ 16)
    (cleared : (d.processes.table i).pendingSignals.testBit bit = false) :
    ((rounds (checkSignal run i) list d).processes.table i).pendingSignals.testBit bit = false := by
  induction list generalizing d with
  | nil => exact cleared
  | cons sig rest ih =>
      have bounds := range sig (List.mem_cons_self ..)
      have same := (checkSignal_signals keeps bounds.1 bounds.2 i d i).2.2 bit inside apart
      rw [(clear_signals d i sig).2 bit inside, cleared, Bool.false_and] at same
      rw [rounds]
      split
      · exact same
      · exact ih (fun other member => range other (List.mem_cons_of_mem _ member)) same

/-- A delivery that goes through a pending signal changes the process. -/
theorem rounds_moves (keeps : KeepsSignals run) {list : List Nat}
    (range : ∀ other ∈ sig :: list, 1 ≤ other ∧ other < 32) (apart : sig - 1 ≠ 16)
    (pending : (d.processes.table i).pendingSignals.testBit (sig - 1) = true) :
    rounds (checkSignal run i) (sig :: list) d ≠ d := by
  intro still
  have bounds := range sig (List.mem_cons_self ..)
  have inside : sig - 1 < 32 := by omega
  have same := (checkSignal_signals keeps bounds.1 bounds.2 i d i).2.2 (sig - 1) inside apart
  rw [(clear_signals d i sig).2 _ inside, decide_eq_true rfl, Bool.not_true, Bool.and_false] at same
  rw [← still, rounds] at pending
  split at pending
  · rw [same] at pending
    cases pending
  · rw [rounds_cleared keeps (fun other member => range other (List.mem_cons_of_mem _ member))
      inside apart same] at pending
    cases pending

theorem endsDelivery_jobStop {proc : Process} (ends : endsDelivery proc sig = true)
    (stop : jobStop sig) : proc.signalHandlers sig = sigDfl := by
  rcases of_decide_eq_true ends with kill | stopped | default
  · rcases stop with rfl | rfl | rfl <;> exact absurd kill (by decide)
  · rcases stop with rfl | rfl | rfl <;> exact absurd stopped (by decide)
  · exact default.1

theorem find_skip {list : List Nat} {ends : Nat → Bool} (continues : ends sig = false) :
    (sig :: list).find? ends = list.find? ends := by
  simp [continues]

/-- A default stop ends one loop and not the other, which shows if a signal comes after it. -/
theorem rounds_agree_stop (keeps : KeepsSignals run) {list : List Nat}
    (range : ∀ other ∈ sig :: list, 1 ≤ other ∧ other < 32)
    (higher : ∀ other ∈ list, sig < other) (stop : jobStop sig)
    (default : (d.processes.table i).signalHandlers sig = sigDfl)
    (pending : ∀ other ∈ list, other - 1 ≠ 16 →
      (d.processes.table i).pendingSignals.testBit (other - 1) = true) :
    rounds (checkSignal run i) (sig :: list) d = rounds (handleSignal run i) (sig :: list) d ↔
      list = [] := by
  have both := jobStop_rounds run stop default
  have low : 20 ≤ sig := by
    rcases stop with rfl | rfl | rfl <;> decide
  rw [rounds, rounds, both.1, both.2, if_pos rfl, if_neg Bool.false_ne_true]
  cases list with
  | nil => exact iff_of_true rfl rfl
  | cons next rest =>
      have above := higher next (List.mem_cons_self ..)
      have nextBounds := range next (List.mem_cons_of_mem _ (List.mem_cons_self ..))
      refine iff_of_false ?_ (List.cons_ne_nil next rest)
      refine rounds_moves keeps (fun other member => range other (List.mem_cons_of_mem _ member))
        (by omega) ?_
      have kept := (setState_signals (d.clear i sig) i .stopped i).2.2 (next - 1)
        (by omega) (by omega)
      rw [kept, (clear_signals d i sig).2 _ (by omega),
        pending next (List.mem_cons_self ..) (by omega), decide_eq_false (by omega)]
      rfl

/-- The two loops end alike exactly if no default stop has a signal after it. -/
theorem rounds_agree_iff (keeps : KeepsSignals run) {proc : Process} {list : List Nat}
    (range : ∀ sig ∈ list, 1 ≤ sig ∧ sig < 32) (sorted : list.Pairwise (· < ·))
    (handlers : (d.processes.table i).signalHandlers = proc.signalHandlers)
    (pending : ∀ sig ∈ list, sig - 1 ≠ 16 →
      (d.processes.table i).pendingSignals.testBit (sig - 1) = true) :
    rounds (checkSignal run i) list d = rounds (handleSignal run i) list d ↔
      ∀ sig, list.find? (endsDelivery proc) = some sig → jobStop sig →
        ∀ higher ∈ list, higher ≤ sig := by
  induction list generalizing d with
  | nil => simp [rounds]
  | cons sig rest ih =>
      have bounds := range sig (List.mem_cons_self ..)
      have rangeRest : ∀ other ∈ rest, 1 ≤ other ∧ other < 32 :=
        fun other member => range other (List.mem_cons_of_mem _ member)
      have higher : ∀ other ∈ rest, sig < other := (List.pairwise_cons.mp sorted).1
      have ends : endsDelivery (d.processes.table i) sig = endsDelivery proc sig := by
        unfold endsDelivery
        rw [handlers]
      by_cases stops : jobStop sig ∧ (d.processes.table i).signalHandlers sig = sigDfl
      · have found : (sig :: rest).find? (endsDelivery proc) = some sig := by
          rw [List.find?_cons_of_pos]
          rw [← ends, ← handleSignal_ends run, (jobStop_rounds run stops.1 stops.2).1]
        rw [rounds_agree_stop keeps range higher stops.1 stops.2 fun other member =>
          pending other (List.mem_cons_of_mem _ member), found]
        constructor
        · rintro rfl other isSig _ last member
          cases isSig
          exact Nat.le_of_eq (List.mem_singleton.mp member)
        · intro last
          refine List.eq_nil_iff_forall_not_mem.mpr fun next member => ?_
          have below := last sig rfl stops.1 next (List.mem_cons_of_mem _ member)
          have above := higher next member
          omega
      · have same := checkSignal_eq run bounds.1 bounds.2 stops
        rw [rounds, rounds, same, handleSignal_ends, ends]
        cases ending : endsDelivery proc sig with
        | true =>
            have found : (sig :: rest).find? (endsDelivery proc) = some sig :=
              List.find?_cons_of_pos ending
            have noStop : ¬ jobStop sig := by
              intro stop
              refine stops ⟨stop, ?_⟩
              rw [handlers]
              exact endsDelivery_jobStop ending stop
            rw [found]
            refine iff_of_true rfl ?_
            rintro other isSig stop
            cases isSig
            exact absurd stop noStop
        | false =>
            have after := handleSignal_signals keeps i sig d i
            have cleared := clear_signals d i sig
            rw [if_neg Bool.false_ne_true, if_neg Bool.false_ne_true, find_skip ending,
              ih rangeRest (List.pairwise_cons.mp sorted).2]
            · refine forall_congr' fun stop => forall_congr' fun found => forall_congr' fun _ => ?_
              have member := List.mem_of_find?_eq_some found
              constructor
              · intro last other isIn
                rcases List.mem_cons.mp isIn with rfl | inRest
                · exact Nat.le_of_lt (higher stop member)
                · exact last other inRest
              · exact fun last other inRest => last other (List.mem_cons_of_mem _ inRest)
            · exact after.1.trans (cleared.1.trans handlers)
            · intro other member apart
              have above := higher other member
              have range := rangeRest other member
              rw [after.2.2 _ (by omega) apart, cleared.2 _ (by omega),
                pending other (List.mem_cons_of_mem _ member) apart, decide_eq_false (by omega)]
              rfl

/-- The two paths do the same to the current process exactly if no default stop of
`signal_handle_pending` leaves a higher signal pending. -/
theorem signal_paths_agree_iff (keeps : KeepsSignals run) (s : Processes) :
    processCheckSignals run s = signalHandlePending run s (processCurrent s) ↔
      ∀ i, processCurrent s = some i → PathsAgree (s.table i) := by
  cases current : processCurrent s with
  | none =>
      refine iff_of_true ?_ (fun _ none => by cases none)
      simp [processCheckSignals, signalHandlePending, current]
  | some i =>
      rw [processCheckSignals_rounds run current, signalHandlePending_rounds]
      have members : ∀ sig ∈ (s.table i).pendingList, _ := fun _ member => mem_pendingList member
      refine (rounds_agree_iff keeps (fun sig member => ⟨(members sig member).1,
        (members sig member).2.1⟩) (pendingList_sorted _) rfl
        (fun sig member _ => (members sig member).2.2.1)).trans ?_
      constructor
      · intro agree j isCurrent
        cases isCurrent
        exact agree
      · exact fun agree => agree i rfl

end Agreement

def idleHandlers : Nat → Nat → Processes → Processes := fun _ _ s => s

theorem idleHandlers_keep : KeepsSignals idleHandlers := fun _ _ s => .refl s.table

theorem signal_paths_agree_iff_interrupt :
    let s := (signalSend processInit 1 2).2
    processCheckSignals idleHandlers s =
      signalHandlePending idleHandlers s (processCurrent s) := by
  refine (signal_paths_agree_iff idleHandlers_keep _).mpr ?_
  intro i current sig found stop
  obtain rfl : i = 1 := Option.some.inj (current.symm.trans (by decide))
  obtain rfl : sig = 2 := Option.some.inj (found.symm.trans (by decide))
  revert stop
  unfold jobStop
  decide

/-- A process of its own that has a `SIGTSTP` and a `SIGXCPU` pending. -/
def stoppedJob : Processes :=
  let s := processSetCurrent (processCreate processInit "job".toList 1).2 2
  (signalSend (signalSend s 2 20).2 2 24).2

/-- `process_check_signals` stops the process and then lets it exit. -/
theorem signal_paths_differ :
    ¬ ∀ s, processCheckSignals idleHandlers s =
      signalHandlePending idleHandlers s (processCurrent s) := by
  intro all
  have states := congrArg (fun d => (d.processes.table 2).state) (all stoppedJob)
  exact absurd states (by decide)

end ZurichOS
