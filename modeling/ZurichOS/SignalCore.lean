import ZurichOS.ProcessCore

/-!
Signals: `kernel/signal/signal.c` and the delivery of `kernel/process/process.c`.  What a
user handler does to the processes is a parameter, called with the handler's address and
the signal.
-/

namespace ZurichOS

open Words

abbrev sigkill : Nat := 9
abbrev sigstop : Nat := 19
abbrev sigtstp : Nat := 20
abbrev sigttin : Nat := 21
abbrev sigttou : Nat := 22
abbrev sigurg : Nat := 23
abbrev sigwinch : Nat := 28
abbrev sigDfl : Nat := 0
abbrev sigIgn : Nat := 1

inductive SigAction where
  | term
  | ign
  | core
  | stop
  | cont
deriving DecidableEq

def defaultActions : Nat → SigAction
  | 0 => .ign
  | 1 => .term
  | 2 => .term
  | 3 => .core
  | 4 => .core
  | 5 => .core
  | 6 => .core
  | 7 => .core
  | 8 => .core
  | 9 => .term
  | 10 => .term
  | 11 => .core
  | 12 => .term
  | 13 => .term
  | 14 => .term
  | 15 => .term
  | 16 => .term
  | 17 => .ign
  | 18 => .cont
  | 19 => .stop
  | 20 => .stop
  | 21 => .stop
  | 22 => .stop
  | 23 => .ign
  | 24 => .core
  | 25 => .core
  | 26 => .term
  | 27 => .term
  | 28 => .ign
  | 29 => .term
  | 30 => .term
  | _ => .core

def sigBit (sig : Nat) : Nat := 1 <<< (sig - 1)

def not32 (mask : Nat) : Nat := 0xFFFFFFFF ^^^ mask

def signalPending (proc : Process) : Nat := proc.pendingSignals &&& not32 proc.blockedSignals

/-- `signal_send`; its effect is that of `process_signal`. -/
def signalSend (s : Processes) (pid : Nat) (sig : Int) : Int × Processes :=
  if sig < 0 ∨ nsig ≤ sig then (-22, s)
  else if sig = 0 then (if (processGet s pid).isSome then 0 else -3, s)
  else
    match processGet s pid with
    | none => (-3, s)
    | some i =>
        let proc := s.table i
        let pending := proc.pendingSignals ||| sigBit sig.toNat
        let state := if sig = sigcont ∧ proc.state = .stopped then .ready else proc.state
        (0, s.set i { proc with pendingSignals := pending, state })

/-- `signal_set_handler`, with the handler it stores in `oldact`. -/
def signalSetHandler (s : Processes) (sig : Int) (handler : Nat) : Int × Option Nat × Processes :=
  if sig < 1 ∨ nsig ≤ sig then (-22, none, s)
  else if sig = sigkill ∨ sig = sigstop then (-22, none, s)
  else
    match processCurrent s with
    | none => (-1, none, s)
    | some i =>
        let proc := s.table i
        (0, some (proc.signalHandlers sig.toNat), s.set i { proc with
          signalHandlers := Function.update proc.signalHandlers sig.toNat handler })

/-- The frame of `signal_block`, `signal_unblock` and `signal_setmask`: the mask before goes
to `oldset`, and a set, if given, makes the new mask. -/
def changeMask (change : Nat → Nat → Nat) (s : Processes) (set : Option Nat) :
    Int × Option Nat × Processes :=
  match processCurrent s with
  | none => (-1, none, s)
  | some i =>
      let proc := s.table i
      let s := match set with
        | none => s
        | some set => s.set i { proc with blockedSignals := change proc.blockedSignals set }
      (0, some proc.blockedSignals, s)

def maskable (set : Nat) : Nat := set &&& not32 (sigBit sigkill ||| sigBit sigstop)

def signalBlock : Processes → Option Nat → Int × Option Nat × Processes :=
  changeMask fun blocked set => blocked ||| maskable set

def signalUnblock : Processes → Option Nat → Int × Option Nat × Processes :=
  changeMask fun blocked set => blocked &&& not32 set

def signalSetmask : Processes → Option Nat → Int × Option Nat × Processes :=
  changeMask fun _ set => maskable set

/-- A delivery: the processes, the user handlers called with their signals, and the status
that `process_exit` was called with. -/
structure Delivery where
  processes : Processes
  handled : List (Nat × Nat)
  exited : Option Int

def Delivery.exit (d : Delivery) (status : Int) : Delivery :=
  { d with processes := processExit d.processes status, exited := some status }

def Delivery.setState (d : Delivery) (i : Nat) (state : ProcState) : Delivery :=
  { d with processes := d.processes.set i { d.processes.table i with state } }

def Delivery.clear (d : Delivery) (i sig : Nat) : Delivery :=
  let proc := d.processes.table i
  { d with processes := d.processes.set i { proc with
      pendingSignals := proc.pendingSignals &&& not32 (sigBit sig) } }

def Delivery.resume (d : Delivery) (i : Nat) : Delivery :=
  if (d.processes.table i).state = .stopped then d.setState i .ready else d

def Delivery.call (run : Nat → Nat → Processes → Processes) (d : Delivery) (handler sig : Nat) :
    Delivery :=
  { d with
    processes := run handler sig d.processes
    handled := d.handled ++ [(handler, sig)] }

/-- The loop both paths make over the signals that were pending when they began; the body
says whether it returns. -/
def signalLoop (body : Nat → Delivery → Bool × Delivery) (pending : Nat) :
    List Nat → Delivery → Delivery
  | [], d => d
  | sig :: rest, d =>
      if pending &&& sigBit sig = 0 then signalLoop body pending rest d
      else
        let result := body sig d
        if result.1 then result.2 else signalLoop body pending rest result.2

/-- One round of `signal_handle_pending` for the process in the slot `i`. -/
def handleSignal (run : Nat → Nat → Processes → Processes) (i sig : Nat) (d : Delivery) :
    Bool × Delivery :=
  let d := d.clear i sig
  let handler := (d.processes.table i).signalHandlers sig
  if sig = sigkill then (true, d.exit (-sig))
  else if sig = sigstop then (true, d.setState i .stopped)
  else if handler = sigIgn then (false, d)
  else if handler = sigDfl then
    match defaultActions sig with
    | .term => (true, d.exit (-sig))
    | .core => (true, d.exit (-sig))
    | .stop => (true, d.setState i .stopped)
    | .cont => (false, d.resume i)
    | .ign => (false, d)
  else (false, d.call run handler sig)

/-- One round of `process_check_signals`. -/
def checkSignal (run : Nat → Nat → Processes → Processes) (i sig : Nat) (d : Delivery) :
    Bool × Delivery :=
  let d := d.clear i sig
  let handler := (d.processes.table i).signalHandlers sig
  if sig = sigkill then (true, d.exit (-sig))
  else if sig = sigstop then (true, d.setState i .stopped)
  else if handler = sigDfl then
    if (sig : Int) ≠ sigchld ∧ sig ≠ sigurg ∧ sig ≠ sigwinch then
      if (sig : Int) = sigcont then (false, d.resume i)
      else if sig = sigtstp ∨ sig = sigttin ∨ sig = sigttou then (false, d.setState i .stopped)
      else (true, d.exit (-sig))
    else (false, d)
  else if handler ≠ sigIgn then (false, d.call run handler sig)
  else (false, d)

/-- The signals the loops go through. -/
def signals : List Nat := List.range' 1 (nsig - 1)

def signalHandlePending (run : Nat → Nat → Processes → Processes) (s : Processes)
    (p : Option Nat) : Delivery :=
  match p with
  | none => ⟨s, [], none⟩
  | some i =>
      let pending := signalPending (s.table i)
      if pending = 0 then ⟨s, [], none⟩
      else signalLoop (handleSignal run i) pending signals ⟨s, [], none⟩

def processCheckSignals (run : Nat → Nat → Processes → Processes) (s : Processes) : Delivery :=
  match processCurrent s with
  | none => ⟨s, [], none⟩
  | some i =>
      let pending := signalPending (s.table i)
      if pending = 0 then ⟨s, [], none⟩
      else signalLoop (checkSignal run i) pending signals ⟨s, [], none⟩

end ZurichOS
