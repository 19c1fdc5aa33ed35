import ZurichOS.Signals
import ZurichOS.Transitions

set_option linter.all false

/-!
`SIGKILL` and `SIGSTOP` are never blocked and never handled, whatever the processes and
their handlers call.
-/

namespace ZurichOS

open Transitions

/-- The calls on processes and their signals. -/
inductive SignalCall where
  | create (name : List Char) (ppid : Nat)
  | fork
  | exec (path : List Char) (elf : Option ElfImage) (kernelStack : Nat)
  | block (set : Option Nat)
  | unblock (set : Option Nat)
  | setmask (set : Option Nat)
  | setHandler (sig : Int) (handler : Nat)
  | send (pid : Nat) (sig : Int)
  | signal (pid : Nat) (sig : Int)
  | exit (status : Int)
  | kill (pid : Nat)
  | waitpid (pid : Int)
  | switch (pid : Nat)

def signalCall (s : Processes) : SignalCall → Processes
  | .create name ppid => (processCreate s name ppid).2
  | .fork => (processFork s).2
  | .exec path elf kernelStack => (processExec s path elf kernelStack).2
  | .block set => (signalBlock s set).2.2
  | .unblock set => (signalUnblock s set).2.2
  | .setmask set => (signalSetmask s set).2.2
  | .setHandler sig handler => (signalSetHandler s sig handler).2.2
  | .send pid sig => (signalSend s pid sig).2
  | .signal pid sig => (processSignal s pid sig).2
  | .exit status => processExit s status
  | .kill pid => (processKill s pid).2
  | .waitpid pid => (processWaitpid s pid).2.2
  | .switch pid => processSetCurrent s pid

/-- What each handler calls, depending on its address, the signal and the state. -/
abbrev Handlers := Nat → Nat → Processes → List SignalCall

def runHandlers (handlers : Handlers) (handler sig : Nat) (s : Processes) : Processes :=
  (handlers handler sig s).foldl signalCall s

inductive SignalEvent where
  | call (call : SignalCall)
  | check (handlers : Handlers)
  | deliver (p : Option Nat) (handlers : Handlers)

def signalEvent (s : Processes) : SignalEvent → Processes
  | .call call => signalCall s call
  | .check handlers => (processCheckSignals (runHandlers handlers) s).processes
  | .deliver p handlers => (signalHandlePending (runHandlers handlers) s p).processes

def SignalStep (s : Processes) (event : SignalEvent) (after : Processes) : Prop :=
  after = signalEvent s event

structure Process.Unblockable (proc : Process) : Prop where
  mask : proc.blockedSignals &&& (sigBit sigkill ||| sigBit sigstop) = 0
  kill : proc.signalHandlers sigkill = sigDfl
  stop : proc.signalHandlers sigstop = sigDfl

def Unblockable (s : Processes) : Prop := ∀ i, (s.table i).Unblockable

section Calls

variable {s : Processes}

theorem Unblockable.set (kept : Unblockable s) {proc : Process} (sound : proc.Unblockable)
    (i : Nat) : Unblockable (s.set i proc) := fun j => by
  by_cases own : j = i
  · subst own
    simpa using sound
  · simpa [own] using kept j

theorem Process.Unblockable.congr {proc other : Process} (sound : proc.Unblockable)
    (blocked : other.blockedSignals = proc.blockedSignals)
    (handlers : other.signalHandlers = proc.signalHandlers) : other.Unblockable :=
  ⟨blocked ▸ sound.mask, handlers ▸ sound.kill, handlers ▸ sound.stop⟩

theorem Unblockable.update (kept : Unblockable s) {proc : Process} {i : Nat}
    (blocked : proc.blockedSignals = (s.table i).blockedSignals)
    (handlers : proc.signalHandlers = (s.table i).signalHandlers) : Unblockable (s.set i proc) :=
  kept.set ((kept i).congr blocked handlers) i

theorem Unblockable.signals (kept : Unblockable s) {after : Processes}
    (same : SameSignals s.table after.table) : Unblockable after := fun i =>
  (kept i).congr (same i).2.1 (same i).1

theorem initProcessSignals_unblockable (proc : Process) :
    (initProcessSignals proc).Unblockable := ⟨Nat.zero_and _, rfl, rfl⟩

theorem processCreate_unblockable (kept : Unblockable s) (name : List Char) (ppid : Nat) :
    Unblockable (processCreate s name ppid).2 := by
  unfold processCreate
  split
  · exact kept
  · rename_i slot found
    exact kept.set (initProcessSignals_unblockable _) slot

theorem processFork_unblockable (kept : Unblockable s) : Unblockable (processFork s).2 := by
  unfold processFork
  split
  · exact kept
  · rename_i parent current
    have created := processCreate_unblockable kept (s.table parent).name (s.table parent).pid
    dsimp only
    split
    · exact created
    · split
      · exact created
      · refine created.set ?_ _
        exact Process.Unblockable.congr (created parent) rfl rfl

theorem elfRegister_unblockable (kept : Unblockable s) (name : List Char) (kernelStack elf : Nat) :
    Unblockable (elfRegister s name kernelStack elf) := by
  have created := processCreate_unblockable kept name 1
  unfold elfRegister
  dsimp only
  split
  · split
    · exact created
    · rename_i i _
      exact Unblockable.update (s := processSetCurrent _ _) created rfl rfl
  · exact created

theorem processExec_unblockable (kept : Unblockable s) (path : List Char) (elf : Option ElfImage)
    (kernelStack : Nat) : Unblockable (processExec s path elf kernelStack).2 := by
  unfold processExec
  split
  · exact kept
  · split
    · exact kept
    · rename_i i _ _ _
      refine elfRegister_unblockable (kept.set ?_ i) _ _ _
      exact ⟨(kept i).mask, rfl, rfl⟩

theorem maskable_unblockable (set : Nat) :
    maskable set &&& (sigBit sigkill ||| sigBit sigstop) = 0 := by
  rw [maskable, Nat.and_assoc]
  have none : not32 (sigBit sigkill ||| sigBit sigstop) &&& (sigBit sigkill ||| sigBit sigstop) =
    0 := by decide
  rw [none, Nat.and_zero]

theorem changeMask_unblockable (kept : Unblockable s) {change : Nat → Nat → Nat}
    (filtered : ∀ blocked set, blocked &&& (sigBit sigkill ||| sigBit sigstop) = 0 →
      change blocked set &&& (sigBit sigkill ||| sigBit sigstop) = 0) (set : Option Nat) :
    Unblockable (changeMask change s set).2.2 := by
  unfold changeMask
  split
  · exact kept
  · rename_i i current
    cases set with
    | none => exact kept
    | some set =>
        refine kept.set ?_ i
        exact ⟨filtered _ set (kept i).mask, (kept i).kill, (kept i).stop⟩

theorem signalSetHandler_unblockable (kept : Unblockable s) (sig : Int) (handler : Nat) :
    Unblockable (signalSetHandler s sig handler).2.2 := by
  unfold signalSetHandler
  split
  · exact kept
  · split
    · exact kept
    · rename_i range caught
      split
      · exact kept
      · rename_i i current
        refine kept.set ?_ i
        refine ⟨(kept i).mask, ?_, ?_⟩
        · exact (Function.update_of_ne (by omega) ..).trans (kept i).kill
        · exact (Function.update_of_ne (by omega) ..).trans (kept i).stop

theorem signalCall_unblockable (kept : Unblockable s) (call : SignalCall) :
    Unblockable (signalCall s call) := by
  cases call with
  | create name ppid => exact processCreate_unblockable kept name ppid
  | fork => exact processFork_unblockable kept
  | exec path elf kernelStack => exact processExec_unblockable kept path elf kernelStack
  | block set =>
      refine changeMask_unblockable kept (fun blocked set clear => ?_) set
      rw [Nat.and_or_distrib_right, clear, maskable_unblockable, Nat.or_self]
  | unblock set =>
      refine changeMask_unblockable kept (fun blocked set clear => ?_) set
      rw [Nat.and_right_comm, clear, Nat.zero_and]
  | setmask set => exact changeMask_unblockable kept (fun _ set _ => maskable_unblockable set) set
  | setHandler sig handler => exact signalSetHandler_unblockable kept sig handler
  | send pid sig =>
      show Unblockable (signalSend s pid sig).2
      unfold signalSend
      split
      · exact kept
      · split
        · exact kept
        · split
          · exact kept
          · exact kept.update rfl rfl
  | signal pid sig =>
      show Unblockable (processSignal s pid sig).2
      unfold processSignal
      split
      · exact kept
      · split
        · exact kept
        · split
          · exact kept
          · exact kept.update rfl rfl
  | exit status => exact kept.signals (processExit_signals s status)
  | kill pid =>
      show Unblockable (processKill s pid).2
      unfold processKill
      split
      · exact kept
      · split
        · exact kept
        · split
          · exact kept
          · exact kept.update rfl rfl
  | waitpid pid =>
      show Unblockable (processWaitpid s pid).2.2
      unfold processWaitpid
      split
      · exact kept
      · split
        · exact kept
        · exact kept.update rfl rfl
  | switch pid => exact kept

theorem runHandlers_unblockable (kept : Unblockable s) (handlers : Handlers) (handler sig : Nat) :
    Unblockable (runHandlers handlers handler sig s) := by
  unfold runHandlers
  generalize handlers handler sig s = calls
  induction calls generalizing s with
  | nil => exact kept
  | cons call rest ih => exact ih (signalCall_unblockable kept call)

end Calls

section Delivery

variable {run : Nat → Nat → Processes → Processes} {d : Delivery}

theorem clear_unblockable (kept : Unblockable d.processes) (i sig : Nat) :
    Unblockable (d.clear i sig).processes := kept.update rfl rfl

/-- A round of either path keeps what the user handlers keep. -/
theorem handleSignal_unblockable
    (handlers : ∀ handler sig s, Unblockable s → Unblockable (run handler sig s)) (i sig : Nat)
    (kept : Unblockable d.processes) :
    Unblockable (handleSignal run i sig d).2.processes := by
  have cleared := clear_unblockable kept i sig
  unfold handleSignal
  generalize d.clear i sig = d at cleared
  dsimp only
  split
  · exact cleared.signals (processExit_signals _ _)
  split
  · exact cleared.signals (setState_signals d i .stopped)
  split
  · exact cleared
  split
  · split
    · exact cleared.signals (processExit_signals _ _)
    · exact cleared.signals (processExit_signals _ _)
    · exact cleared.signals (setState_signals d i .stopped)
    · exact cleared.signals (resume_signals d i)
    · exact cleared
  · exact handlers _ sig d.processes cleared

theorem checkSignal_unblockable
    (handlers : ∀ handler sig s, Unblockable s → Unblockable (run handler sig s)) {i sig : Nat}
    (lower : 1 ≤ sig) (upper : sig < 32) (kept : Unblockable d.processes) :
    Unblockable (checkSignal run i sig d).2.processes := by
  by_cases stops : jobStop sig ∧ (d.processes.table i).signalHandlers sig = sigDfl
  · rw [(jobStop_rounds run stops.1 stops.2).2]
    exact (clear_unblockable kept i sig).signals (setState_signals _ i .stopped)
  · rw [checkSignal_eq run lower upper stops]
    exact handleSignal_unblockable handlers i sig kept

theorem rounds_unblockable {body : Nat → Delivery → Bool × Delivery} {list : List Nat}
    (round : ∀ sig ∈ list, ∀ d, Unblockable d.processes → Unblockable (body sig d).2.processes)
    (kept : Unblockable d.processes) : Unblockable (rounds body list d).processes := by
  induction list generalizing d with
  | nil => exact kept
  | cons sig rest ih =>
      have next := round sig (List.mem_cons_self ..) d kept
      rw [rounds]
      split
      · exact next
      · exact ih (fun other member => round other (List.mem_cons_of_mem _ member)) next

theorem signalEvent_unblockable {s : Processes} (kept : Unblockable s) (event : SignalEvent) :
    Unblockable (signalEvent s event) := by
  have handled : ∀ handlers handler sig s, Unblockable s →
      Unblockable (runHandlers handlers handler sig s) :=
    fun handlers handler sig s kept => runHandlers_unblockable kept handlers handler sig
  cases event with
  | call call => exact signalCall_unblockable kept call
  | check handlers =>
      simp only [signalEvent]
      cases current : processCurrent s with
      | none =>
          simp only [processCheckSignals, current]
          exact kept
      | some i =>
          rw [processCheckSignals_rounds _ current]
          refine rounds_unblockable (fun sig member d kept => ?_) kept
          have range := mem_pendingList member
          exact checkSignal_unblockable (handled handlers) range.1 range.2.1 kept
  | deliver p handlers =>
      simp only [signalEvent]
      cases p with
      | none => exact kept
      | some i =>
          rw [signalHandlePending_rounds]
          exact rounds_unblockable
            (fun sig _ d kept => handleSignal_unblockable (handled handlers) i sig kept) kept

end Delivery

theorem processInit_unblockable : Unblockable processInit := by
  have blank : Unblockable ⟨fun _ => Process.zero, 2, 1⟩ := fun _ => ⟨Nat.zero_and _, rfl, rfl⟩
  exact (blank.set (initProcessSignals_unblockable _) 0).set (initProcessSignals_unblockable _) 1

section Kill

variable {run : Nat → Nat → Processes → Processes} {d : Delivery} {i sig : Nat}

theorem handleSignal_kill (run : Nat → Nat → Processes → Processes) (i : Nat) (d : Delivery) :
    handleSignal run i sigkill d = (true, (d.clear i sigkill).exit (-(sigkill : Int))) := by
  unfold handleSignal
  exact if_pos rfl

/-- Below `SIGKILL` a delivery returns through `process_exit` only. -/
theorem handleSignal_below_kill (lower : 1 ≤ sig) (below : sig < sigkill)
    (returns : (handleSignal run i sig d).1 = true) :
    (handleSignal run i sig d).2.exited = some (-(sig : Int)) := by
  unfold handleSignal at returns ⊢
  generalize d.clear i sig = d at returns ⊢
  dsimp only at returns ⊢
  have noKill : sig ≠ sigkill := Nat.ne_of_lt below
  have noStop : sig ≠ sigstop := Nat.ne_of_lt (Nat.lt_trans below (by decide))
  rw [if_neg noKill, if_neg noStop] at returns ⊢
  split at returns
  · cases returns
  rename_i noted
  rw [if_neg noted]
  split at returns
  · rename_i default
    rw [if_pos default]
    have action : defaultActions sig = .term ∨ defaultActions sig = .core := by
      interval_cases sig <;> decide
    rcases action with term | core
    · rw [term]
      rfl
    · rw [core]
      rfl
  · cases returns

theorem rounds_kill {body : Nat → Delivery → Bool × Delivery} {list : List Nat}
    (kill : ∀ d, (body sigkill d).1 = true ∧ (body sigkill d).2.exited = some (-(sigkill : Int)))
    (below : ∀ sig d, 1 ≤ sig → sig < sigkill → (body sig d).1 = true →
      (body sig d).2.exited = some (-(sig : Int)))
    (range : ∀ sig ∈ list, 1 ≤ sig) (sorted : list.Pairwise (· < ·)) (pending : sigkill ∈ list) :
    ∃ sig ≤ sigkill, (rounds body list d).exited = some (-(sig : Int)) := by
  induction list generalizing d with
  | nil => cases pending
  | cons first rest ih =>
      rw [rounds]
      by_cases own : first = sigkill
      · subst own
        rw [if_pos (kill d).1]
        exact ⟨sigkill, Nat.le_refl _, (kill d).2⟩
      · have later : sigkill ∈ rest := (List.mem_cons.mp pending).resolve_left (Ne.symm own)
        have before := (List.pairwise_cons.mp sorted).1 sigkill later
        split
        · rename_i returns
          exact ⟨first, Nat.le_of_lt before,
            below first d (range first (List.mem_cons_self ..)) before returns⟩
        · exact ih (fun sig member => range sig (List.mem_cons_of_mem _ member))
            (List.pairwise_cons.mp sorted).2 later

end Kill

/-- Whatever is called before, `SIGKILL` and `SIGSTOP` are neither blocked nor handled, and
where a `SIGKILL` is pending, both paths of delivery take `process_exit`. -/
theorem unblockable_signals {s : Processes}
    (reached : Reachable (fun s => s = processInit) SignalStep s) :
    (∀ i < maxProcesses, (s.table i).state ≠ .unused → (s.table i).Unblockable) ∧
      ∀ i < maxProcesses, (s.table i).state ≠ .unused →
        (s.table i).pendingSignals &&& sigBit sigkill ≠ 0 → ∀ handlers,
          (∃ sig ≤ sigkill,
            (signalHandlePending (runHandlers handlers) s (some i)).exited = some (-(sig : Int))) ∧
          (processCurrent s = some i → ∃ sig ≤ sigkill,
            (processCheckSignals (runHandlers handlers) s).exited = some (-(sig : Int))) := by
  have kept : Unblockable s := by
    refine reached.invariant Unblockable ?_ ?_
    · rintro s rfl
      exact processInit_unblockable
    · rintro s event after kept rfl
      exact signalEvent_unblockable kept event
  refine ⟨fun i _ _ => kept i, fun i _ _ pending handlers => ?_⟩
  have bit := (and_sigBit _ _).mp pending
  have unblocked : (s.table i).blockedSignals.testBit (sigkill - 1) = false := by
    have clear := congrArg (fun mask => mask.testBit (sigkill - 1)) (kept i).mask
    simp only [Nat.testBit_and, Nat.testBit_or, testBit_sigBit, Nat.zero_testBit] at clear
    simpa using clear
  have member : sigkill ∈ (s.table i).pendingList :=
    pendingList_mem (by decide) (by decide) bit unblocked
  have lower : ∀ sig ∈ (s.table i).pendingList, 1 ≤ sig := fun _ member =>
    (mem_pendingList member).1
  have noJobStop : ∀ {sig : Nat} {default : Prop}, sig ≤ sigkill → ¬ (jobStop sig ∧ default) := by
    intro sig default low stops
    have high : sigkill < sig := by
      rcases stops.1 with rfl | rfl | rfl <;> decide
    omega
  constructor
  · rw [signalHandlePending_rounds]
    refine rounds_kill (fun d => ?_) (fun sig d => handleSignal_below_kill) lower
      (pendingList_sorted _) member
    rw [handleSignal_kill]
    exact ⟨rfl, rfl⟩
  · intro current
    rw [processCheckSignals_rounds _ current]
    refine rounds_kill (fun d => ?_) (fun sig d low below returns => ?_) lower
      (pendingList_sorted _) member
    · rw [checkSignal_eq _ (by decide) (by decide) (noJobStop (Nat.le_refl _)), handleSignal_kill]
      exact ⟨rfl, rfl⟩
    · rw [checkSignal_eq _ low (Nat.lt_trans below (by decide)) (noJobStop (Nat.le_of_lt below))]
        at returns ⊢
      exact handleSignal_below_kill low below returns

theorem unblockable_signals_masked :
    let masked := signalEvent processInit (.call (.setmask (some 0xFFFFFFFF)))
    let killed := signalEvent masked (.call (.send 1 9))
    ∃ sig ≤ sigkill, (processCheckSignals (runHandlers fun _ _ _ => []) killed).exited =
      some (-(sig : Int)) := by
  intro masked killed
  have start : Reachable (fun s => s = processInit) SignalStep processInit := .start rfl
  have reachedMasked : Reachable (fun s => s = processInit) SignalStep masked := start.next rfl
  have reachedKilled : Reachable (fun s => s = processInit) SignalStep killed :=
    reachedMasked.next rfl
  exact ((unblockable_signals reachedKilled).2 1 (by decide) (by decide) (by decide) _).2
    (by decide)

end ZurichOS
