import ZurichOS.PackedBitmap

/-!
Driver domains of `kernel/drivers/isolation/driver_isolation.c` and the I/O bitmap of
the task state segment in `kernel/arch/x86/gdt.c`.  A port is denied where its bit is
set.  Functions run in a domain are frames of a stack, so that whatever they do
themselves comes between their start and their return.
-/

namespace ZurichOS

abbrev maxDriverDomains : Nat := 16
abbrev driverStackSize : Nat := 8192
abbrev driverIsolationRing1 : Nat := 1
abbrev iopbAllPorts : Nat := 65536
abbrev driverDataSelector : Nat := 0x21

abbrev Iopb := Nat → BitVec 8

structure DriverDomain where
  id : Nat
  name : String
  isolationLevel : Nat
  active : Bool
  iopb : Iopb
  stackBase : Nat
  stackTop : Nat
  kernelCalls : Nat
  ioViolations : Nat
  totalIoOps : Nat

structure Tss where
  esp1 : Nat
  ss1 : Nat
  iopb : Iopb

/-- A function started by `driver_domain_exec` that has not returned. -/
structure ExecFrame where
  domain : Nat
  ring1 : Bool

structure Isolation where
  domains : Nat → DriverDomain
  nextDomainId : Nat
  currentDomain : Option Nat
  ring1Valid : Bool
  tss : Tss
  frames : List ExecFrame

def denyAll : Iopb := fun _ => 0xFF#8

def allowAll : Iopb := fun _ => 0x00#8

def Isolation.setIopb (s : Isolation) (iopb : Iopb) : Isolation :=
  { s with tss := { s.tss with iopb } }

def tssClearIopb (s : Isolation) : Isolation := s.setIopb allowAll

def tssDenyAllIopb (s : Isolation) : Isolation := s.setIopb denyAll

def DriverDomain.zero : DriverDomain := ⟨0, "", 0, false, allowAll, 0, 0, 0, 0, 0⟩

def Isolation.setDomain (s : Isolation) (index : Nat) (domain : DriverDomain) : Isolation :=
  { s with domains := fun i => if i = index then domain else s.domains i }

def driverIsolationInit (s : Isolation) : Isolation :=
  tssDenyAllIopb
    { s with domains := fun _ => DriverDomain.zero, nextDomainId := 1, currentDomain := none }

/-- `stack` is what `kmalloc` returns for the Ring-1 stack. -/
def driverDomainCreate (s : Isolation) (name : Option String) (isolationLevel stack : Nat) :
    Option Nat × Isolation :=
  match name with
  | none => (none, s)
  | some name =>
      match (List.range maxDriverDomains).find? fun i => !(s.domains i).active with
      | none => (none, s)
      | some i =>
          let domain := { DriverDomain.zero with
            id := s.nextDomainId, name, isolationLevel, active := true, iopb := denyAll }
          let s := { s with nextDomainId := s.nextDomainId + 1 }
          if isolationLevel = driverIsolationRing1 then
            if stack ≠ 0 then
              (some i, s.setDomain i
                { domain with stackBase := stack, stackTop := stack + driverStackSize })
            else (none, s.setDomain i { domain with active := false })
          else (some i, s.setDomain i domain)

def driverDomainDeactivate (s : Isolation) : Isolation :=
  tssClearIopb { s with currentDomain := none }

def driverDomainDestroy (s : Isolation) (domain : Option Nat) : Isolation :=
  match domain with
  | none => s
  | some i =>
      if !(s.domains i).active then s
      else
        let s := if s.currentDomain = some i then driverDomainDeactivate s else s
        s.setDomain i { s.domains i with active := false }

def portRange (start count : Nat) : List Nat :=
  (List.range count).map fun i => (start + i) % 65536

def driverDomainAllowPort (s : Isolation) (domain : Option Nat) (start count : Nat) :
    Isolation :=
  match domain with
  | none => s
  | some i =>
      s.setDomain i { s.domains i with
        iopb := (portRange start count).foldl PackedBitmap.clear (s.domains i).iopb }

def driverDomainDenyPort (s : Isolation) (domain : Option Nat) (start count : Nat) :
    Isolation :=
  match domain with
  | none => s
  | some i =>
      s.setDomain i { s.domains i with
        iopb := (portRange start count).foldl PackedBitmap.set (s.domains i).iopb }

def driverDomainActivate (s : Isolation) (domain : Option Nat) : Isolation :=
  match domain with
  | none => s
  | some i =>
      if !(s.domains i).active then s
      else
        let s := { s with currentDomain := some i }
        if (s.domains i).isolationLevel = driverIsolationRing1 then
          { s with tss :=
            { esp1 := (s.domains i).stackTop, ss1 := driverDataSelector
              iopb := (s.domains i).iopb } }
        else s

/-- `driver_domain_exec` up to the first instruction of the function. -/
def driverDomainExec (s : Isolation) (domain : Option Nat) (func : Bool) : Isolation :=
  match domain with
  | none => s
  | some i =>
      if !(s.domains i).active || !func then s
      else
        let ring1 := (s.domains i).isolationLevel = driverIsolationRing1
        let s := driverDomainActivate s (some i)
        { s with
          ring1Valid := s.ring1Valid || ring1
          frames := { domain := i, ring1 } :: s.frames }

/-- INT 0x82: the last Ring-1 start returns, whatever was started above it is dropped. -/
def ring1Return (s : Isolation) : Isolation :=
  if !s.ring1Valid then s
  else
    let s := driverDomainDeactivate { s with ring1Valid := false }
    -- The saved stack pointer leads back into `driver_domain_exec`.
    driverDomainDeactivate { s with frames := (s.frames.dropWhile fun f => !f.ring1).drop 1 }

/-- The function on top returns: a Ring-1 one by INT 0x82, a Ring-0 one to its caller. -/
def execReturn (s : Isolation) : Isolation :=
  match s.frames with
  | [] => s
  | frame :: rest =>
      if frame.ring1 then ring1Return s else driverDomainDeactivate { s with frames := rest }

inductive IsolationCall where
  | create (name : Option String) (isolationLevel stack : Nat)
  | destroy (domain : Option Nat)
  | allowPort (domain : Option Nat) (start count : Nat)
  | denyPort (domain : Option Nat) (start count : Nat)
  | activate (domain : Option Nat)
  | deactivate
  | exec (domain : Option Nat) (func : Bool)
  | execReturn
  | ring1Return

def Isolation.call (s : Isolation) : IsolationCall → Isolation
  | .create name isolationLevel stack => (driverDomainCreate s name isolationLevel stack).2
  | .destroy domain => driverDomainDestroy s domain
  | .allowPort domain start count => driverDomainAllowPort s domain start count
  | .denyPort domain start count => driverDomainDenyPort s domain start count
  | .activate domain => driverDomainActivate s domain
  | .deactivate => driverDomainDeactivate s
  | .exec domain func => driverDomainExec s domain func
  | .execReturn => ZurichOS.execReturn s
  | .ring1Return => ZurichOS.ring1Return s

def isolationBoot : Isolation :=
  driverIsolationInit
    { domains := fun _ => DriverDomain.zero, nextDomainId := 1, currentDomain := none
      ring1Valid := false, tss := ⟨0, 0, denyAll⟩, frames := [] }

end ZurichOS
