import Mathlib.Data.List.Basic
import Mathlib.Logic.Function.Basic
import ZurichOS.Transitions

/-!
The system call filters of `kernel/security/seccomp.c` against the one dispatcher of system
calls, `syscall_handler` of `kernel/syscall/syscall.c`.
-/

namespace ZurichOS

open Transitions

abbrev maxSeccompProcesses : Nat := 256
abbrev maxSeccompRules : Nat := 64
abbrev seccompModeDisabled : Int := 0
abbrev seccompModeStrict : Int := 1
abbrev seccompModeFilter : Int := 2
abbrev seccompRetKill : Nat := 0x00000000
abbrev seccompRetAllow : Nat := 0x7FFF0000
abbrev seccompSysRead : Nat := 1
abbrev seccompSysWrite : Nat := 2
abbrev seccompSysExit : Nat := 0
abbrev seccompSysSigreturn : Nat := 119

structure SeccompRule where
  syscallNr : Nat
  action : Nat

/-- `rules` has the first `rule_count` rules of the array. -/
structure SeccompFilter where
  mode : Int
  rules : List SeccompRule
  bound : rules.length ≤ maxSeccompRules

/-- `process_filters`. -/
abbrev SeccompFilters := Nat → SeccompFilter

def seccompInit : SeccompFilters := fun _ => ⟨seccompModeDisabled, [], Nat.zero_le _⟩

def strictRules : List SeccompRule :=
  [⟨seccompSysRead, seccompRetAllow⟩, ⟨seccompSysWrite, seccompRetAllow⟩,
    ⟨seccompSysExit, seccompRetAllow⟩, ⟨seccompSysSigreturn, seccompRetAllow⟩]

def seccompSetMode (filters : SeccompFilters) (pid : Nat) (mode : Int) : Int × SeccompFilters :=
  if maxSeccompProcesses ≤ pid then (-1, filters)
  else if mode = seccompModeStrict then
    (0, Function.update filters pid ⟨seccompModeStrict, strictRules, by decide⟩)
  else if mode = seccompModeFilter then
    (0, Function.update filters pid { filters pid with mode := seccompModeFilter })
  else if mode = seccompModeDisabled then
    (0, Function.update filters pid ⟨seccompModeDisabled, [], Nat.zero_le _⟩)
  else (-1, filters)

def seccompAddRule (filters : SeccompFilters) (pid syscallNr action : Nat) :
    Int × SeccompFilters :=
  if maxSeccompProcesses ≤ pid then (-1, filters)
  else if (filters pid).mode ≠ seccompModeFilter then (-1, filters)
  else if room : maxSeccompRules ≤ (filters pid).rules.length then (-2, filters)
  else (0, Function.update filters pid
    { filters pid with
      rules := (filters pid).rules ++ [⟨syscallNr, action⟩]
      bound := by rw [List.length_append]; exact Nat.lt_of_not_le room })

/-- The loop of `seccomp_check`; `none` where no rule is about the call. -/
def matchingRule (syscallNr : Nat) : List SeccompRule → Option Nat
  | [] => none
  | rule :: rest =>
      if rule.syscallNr = syscallNr then some rule.action else matchingRule syscallNr rest

def seccompCheck (filters : SeccompFilters) (pid syscallNr : Nat) : Nat :=
  if maxSeccompProcesses ≤ pid then seccompRetAllow
  else
    let filter := filters pid
    if filter.mode = seccompModeDisabled then seccompRetAllow
    else
      match matchingRule syscallNr filter.rules with
      | some action => action
      | none => if filter.mode = seccompModeStrict then seccompRetKill else seccompRetAllow

def seccompGetMode (filters : SeccompFilters) (pid : Nat) : Int :=
  if maxSeccompProcesses ≤ pid then seccompModeDisabled else (filters pid).mode

inductive SyscallHandler where
  | exit | read | write | open | close | getpid | lseek | stat | fork | exec | waitpid | kill
  | getppid | setpgid | getpgid | sigaction | sigprocmask | pipe | shmget | shmat | shmdt
  | msgget | msgsnd | msgrcv | mmap | munmap | mprotect | brk
  | socket | bind | listen | accept | connect | send | recv | closesock | shutdown
  | getsockname | getpeername | setsockopt | getsockopt | select
deriving DecidableEq

abbrev maxSyscall : Nat := 66

/-- `syscall_table`; SYS_SENDTO and SYS_RECVFROM, 58 and 59, have no handler. -/
def syscallTable : Nat → Option SyscallHandler
  | 0 => some .exit
  | 1 => some .read
  | 2 => some .write
  | 3 => some .open
  | 4 => some .close
  | 5 => some .getpid
  | 6 => some .lseek
  | 7 => some .stat
  | 8 => some .fork
  | 9 => some .exec
  | 10 => some .waitpid
  | 11 => some .kill
  | 12 => some .getppid
  | 13 => some .setpgid
  | 14 => some .getpgid
  | 15 => some .sigaction
  | 16 => some .sigprocmask
  | 17 => some .pipe
  | 18 => some .shmget
  | 19 => some .shmat
  | 20 => some .shmdt
  | 21 => some .msgget
  | 22 => some .msgsnd
  | 23 => some .msgrcv
  | 24 => some .mmap
  | 25 => some .munmap
  | 26 => some .mprotect
  | 27 => some .brk
  | 50 => some .socket
  | 51 => some .bind
  | 52 => some .listen
  | 53 => some .accept
  | 54 => some .connect
  | 55 => some .send
  | 56 => some .recv
  | 57 => some .closesock
  | 60 => some .shutdown
  | 61 => some .getsockname
  | 62 => some .getpeername
  | 63 => some .setsockopt
  | 64 => some .getsockopt
  | 65 => some .select
  | _ => none

/-- The registers of the interrupted program that the dispatcher reads and writes. -/
structure SyscallRegs where
  eax : Nat
  ebx : Nat
  ecx : Nat
  edx : Nat
  esi : Nat
  edi : Nat

/-- The rest of the kernel: its state, its current pid and what its handlers do. -/
structure Kernel (World : Type) where
  currentPid : World → Nat
  run : SyscallHandler → SyscallRegs → World → Nat × World

variable {World : Type}

/-- `syscall_handler`, with the handler that it runs. -/
def syscallHandler (kernel : Kernel World) (regs : SyscallRegs) (world : World) :
    Option SyscallHandler × SyscallRegs × World :=
  if maxSyscall ≤ regs.eax then (none, { regs with eax := 0xFFFFFFFF }, world)
  else
    match syscallTable regs.eax with
    | none => (none, { regs with eax := 0xFFFFFFFF }, world)
    | some handler =>
        let (result, world) := kernel.run handler regs world
        (some handler, { regs with eax := result }, world)

/-- No handler touches the filters: nothing outside `seccomp.c` calls into it. -/
structure Sandbox (World : Type) where
  filters : SeccompFilters
  world : World

inductive SandboxEvent (World : Type) where
  | syscall (regs : SyscallRegs)
  | setMode (pid : Nat) (mode : Int)
  | addRule (pid syscallNr action : Nat)
  | other (world : World)

def sandboxStep (kernel : Kernel World) (s : Sandbox World) : SandboxEvent World → Sandbox World
  | .syscall regs => { s with world := (syscallHandler kernel regs s.world).2.2 }
  | .setMode pid mode => { s with filters := (seccompSetMode s.filters pid mode).2 }
  | .addRule pid syscallNr action =>
      { s with filters := (seccompAddRule s.filters pid syscallNr action).2 }
  | .other world => { s with world }

/-- The handler of a call runs only if the filter allows it, and for a process in strict mode
only that of read, write or exit, as sigreturn has none. -/
def SyscallMediated (kernel : Kernel World) (s : Sandbox World) : SandboxEvent World → Prop
  | .syscall regs => ∀ handler, (syscallHandler kernel regs s.world).1 = some handler →
      seccompCheck s.filters (kernel.currentPid s.world) regs.eax = seccompRetAllow ∧
        (seccompGetMode s.filters (kernel.currentPid s.world) = seccompModeStrict →
          handler = .read ∨ handler = .write ∨ handler = .exit)
  | _ => True

/-- The caller has no filter, or the first rule of its filter about the call allows it, or
there is no such rule and the mode is not the strict one. -/
def FilterAllows (filters : SeccompFilters) (pid syscallNr : Nat) : Prop :=
  maxSeccompProcesses ≤ pid ∨ (filters pid).mode = seccompModeDisabled ∨
    matchingRule syscallNr (filters pid).rules = some seccompRetAllow ∨
    matchingRule syscallNr (filters pid).rules = none ∧ (filters pid).mode ≠ seccompModeStrict

/-- A call that has a handler is one that the filter of its process lets pass. -/
def CallAllowed (kernel : Kernel World) (s : Sandbox World) : SandboxEvent World → Prop
  | .syscall regs => (syscallTable regs.eax).isSome →
      FilterAllows s.filters (kernel.currentPid s.world) regs.eax
  | _ => True

/-- Strict mode comes with the rules it was set up with. -/
def StrictSound (s : Sandbox World) : Prop :=
  ∀ pid, (s.filters pid).mode = seccompModeStrict → (s.filters pid).rules = strictRules

theorem syscallTable_small {nr : Nat} {handler : SyscallHandler}
    (found : syscallTable nr = some handler) : nr < maxSyscall := by
  by_contra large
  have none : syscallTable nr = none := by
    unfold syscallTable
    split <;> first | exact absurd (by decide) large | rfl
  rw [none] at found
  cases found

theorem syscallHandler_runs (kernel : Kernel World) (regs : SyscallRegs) (world : World) :
    (syscallHandler kernel regs world).1 = syscallTable regs.eax := by
  unfold syscallHandler
  split
  · rename_i large
    cases found : syscallTable regs.eax with
    | none => rfl
    | some handler => exact absurd (syscallTable_small found) (Nat.not_lt.mpr large)
  · cases syscallTable regs.eax with
    | none => rfl
    | some handler => rfl

theorem seccompCheck_allow {filters : SeccompFilters} {pid syscallNr : Nat} :
    seccompCheck filters pid syscallNr = seccompRetAllow ↔
      FilterAllows filters pid syscallNr := by
  unfold seccompCheck FilterAllows
  split
  · rename_i outside
    exact iff_of_true rfl (.inl outside)
  · rename_i inside
    dsimp only
    split
    · rename_i disabled
      exact iff_of_true rfl (.inr (.inl disabled))
    · rename_i filtered
      cases found : matchingRule syscallNr (filters pid).rules with
      | some action => simp [inside, filtered]
      | none =>
          by_cases strict : (filters pid).mode = seccompModeStrict
          · simp [inside, strict, seccompModeStrict, seccompModeDisabled]
          · simp [inside, filtered, strict]

/-- Of the calls with a handler, strict mode allows read, write and exit. -/
theorem strict_handlers {nr : Nat} {handler : SyscallHandler}
    (found : syscallTable nr = some handler)
    (allowed : (matchingRule nr strictRules).isSome) :
    handler = .read ∨ handler = .write ∨ handler = .exit := by
  by_cases isRead : nr = 1
  · subst isRead
    exact .inl (Option.some.inj found).symm
  · by_cases isWrite : nr = 2
    · subst isWrite
      exact .inr (.inl (Option.some.inj found).symm)
    · by_cases isExit : nr = 0
      · subst isExit
        exact .inr (.inr (Option.some.inj found).symm)
      · have small := syscallTable_small found
        have isReturn : nr ≠ 119 := Nat.ne_of_lt (Nat.lt_trans small (by decide))
        have none : matchingRule nr strictRules = none := by
          simp [matchingRule, strictRules, Ne.symm isRead, Ne.symm isWrite, Ne.symm isExit,
            Ne.symm isReturn]
        rw [none] at allowed
        cases allowed

theorem StrictSound.update {filters : SeccompFilters} {world : World}
    (sound : StrictSound ⟨filters, world⟩) {pid : Nat} {filter : SeccompFilter}
    (own : filter.mode = seccompModeStrict → filter.rules = strictRules) :
    StrictSound ⟨Function.update filters pid filter, world⟩ := by
  intro other strict
  by_cases same : other = pid
  · subst same
    simp only [Function.update_self] at strict ⊢
    exact own strict
  · simp only [Function.update_of_ne same] at strict ⊢
    exact sound other strict

theorem sandboxStep_strict {kernel : Kernel World} {s : Sandbox World} (sound : StrictSound s)
    (event : SandboxEvent World) : StrictSound (sandboxStep kernel s event) := by
  cases event with
  | syscall regs => exact sound
  | other world => exact sound
  | setMode pid mode =>
      rw [sandboxStep, seccompSetMode]
      split
      · exact sound
      · split
        · exact sound.update fun _ => rfl
        · split
          · exact sound.update fun strict =>
              absurd strict (show ¬ seccompModeFilter = seccompModeStrict by decide)
          · split
            · exact sound.update fun strict =>
                absurd strict (show ¬ seccompModeDisabled = seccompModeStrict by decide)
            · exact sound
  | addRule pid syscallNr action =>
      rw [sandboxStep, seccompAddRule]
      split
      · exact sound
      · split
        · exact sound
        · rename_i isFilter
          split
          · exact sound
          · refine sound.update fun strict => absurd strict ?_
            simp only [ne_eq, Decidable.not_not] at isFilter
            rw [isFilter]
            decide

theorem mediated_iff {kernel : Kernel World} {s : Sandbox World} (sound : StrictSound s)
    (event : SandboxEvent World) : SyscallMediated kernel s event ↔ CallAllowed kernel s event := by
  cases event with
  | syscall regs =>
      simp only [SyscallMediated, CallAllowed, syscallHandler_runs, seccompCheck_allow]
      constructor
      · intro mediated some
        obtain ⟨handler, found⟩ := Option.isSome_iff_exists.mp some
        exact (mediated handler found).1
      · intro allowed handler found
        have allows := allowed (Option.isSome_iff_exists.mpr ⟨handler, found⟩)
        refine ⟨allows, fun strict => ?_⟩
        unfold seccompGetMode at strict
        split at strict
        · exact absurd strict (by decide)
        · rename_i inside
          refine strict_handlers found ?_
          rw [← sound _ strict]
          rcases allows with outside | disabled | allowing | ⟨_, lax⟩
          · exact absurd outside inside
          · exact absurd (strict.symm.trans disabled) (by decide)
          · rw [allowing]
            rfl
          · exact absurd strict lax
  | _ => exact Iff.rfl

/-- In a run of calls and changes of filters, every call is mediated exactly if every call
that has a handler is one that the filter of its process lets pass anyway. -/
theorem seccomp_mediation_iff (kernel : Kernel World) (world : World)
    (events : List (SandboxEvent World)) :
    Along (sandboxStep kernel) (SyscallMediated kernel) ⟨seccompInit, world⟩ events ↔
      Along (sandboxStep kernel) (CallAllowed kernel) ⟨seccompInit, world⟩ events := by
  refine along_congr StrictSound (fun s event sound _ => sandboxStep_strict sound event)
    (fun s event sound => mediated_iff sound event) (fun pid strict => ?_) events
  exact absurd strict (show ¬ seccompModeDisabled = seccompModeStrict by decide)

/-- A process in strict mode opens a file. -/
theorem strict_open_runs :
    let kernel : Kernel Nat := ⟨id, fun _ _ pid => (0, pid)⟩
    let s := sandboxStep kernel ⟨seccompInit, 5⟩ (.setMode 5 seccompModeStrict)
    seccompGetMode s.filters 5 = seccompModeStrict ∧
      seccompCheck s.filters 5 3 = seccompRetKill ∧
      (syscallHandler kernel ⟨3, 0x400000, 0, 0, 0, 0⟩ s.world).1 = some .open ∧
      ¬ SyscallMediated kernel s (.syscall ⟨3, 0x400000, 0, 0, 0, 0⟩) := by
  refine ⟨by decide, by decide, rfl, fun mediated => ?_⟩
  exact absurd (mediated .open rfl).1 (by decide)

end ZurichOS
