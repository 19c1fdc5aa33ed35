import ZurichOS.Isolation
import ZurichOS.Words

/-!
The services for port I/O of `driver_kernel_service`, by which a driver asks the kernel to access
a port, and the bitmap of its domain that decides.
-/

namespace ZurichOS

open Words PackedBitmap

variable {s : Isolation} {i arg1 arg2 arg3 start count : Nat} {iopb : Iopb}

/-- What the processor does on a port. -/
inductive PortAccess where
  | input (port width : Nat)
  | output (port width value : Nat)
deriving DecidableEq

/-- The ports that an access touches. -/
def PortAccess.ports : PortAccess → List Nat
  | input port width => (List.range width).map (port + ·)
  | output port width _ => (List.range width).map (port + ·)

inductive PortService where
  | portIn
  | portOut

def Isolation.updateCurrent (s : Isolation) (update : DriverDomain → DriverDomain) : Isolation :=
  match s.currentDomain with
  | none => s
  | some i => s.setDomain i (update (s.domains i))

/-- The check that both services begin with. -/
def Isolation.deniesPort (s : Isolation) (port : Nat) : Bool :=
  match s.currentDomain with
  | none => false
  | some i => (s.domains i).isolationLevel = driverIsolationRing1 && test (s.domains i).iopb port

def DriverDomain.countCall (domain : DriverDomain) : DriverDomain :=
  { domain with kernelCalls := u32 (domain.kernelCalls + 1) }

def DriverDomain.countIo (domain : DriverDomain) : DriverDomain :=
  { domain with totalIoOps := u32 (domain.totalIoOps + 1) }

def DriverDomain.countViolation (domain : DriverDomain) : DriverDomain :=
  { domain with ioViolations := u32 (domain.ioViolations + 1) }

/-- `device` is what a port yields for a width. -/
def driverPortIn (device : Nat → Nat → Nat) (s : Isolation) (arg1 arg2 : Nat) :
    Nat × Isolation × Option PortAccess :=
  let s := s.updateCurrent DriverDomain.countIo
  let port := arg1 % 65536
  if s.deniesPort port then
    (0xFFFFFFFF, s.updateCurrent DriverDomain.countViolation, none)
  else if arg2 ∈ [1, 2, 4] then (device port arg2, s, some (.input port arg2))
  else (0, s, none)

def driverPortOut (s : Isolation) (arg1 arg2 arg3 : Nat) : Nat × Isolation × Option PortAccess :=
  let s := s.updateCurrent DriverDomain.countIo
  let port := arg1 % 65536
  if s.deniesPort port then
    (0xFFFFFFFF, s.updateCurrent DriverDomain.countViolation, none)
  else if arg3 ∈ [1, 2, 4] then
    (0, s, some (.output port arg3 (arg2 % 2 ^ (8 * arg3))))
  else (0, s, none)

/-- `driver_kernel_service` for the two services on ports. -/
def driverKernelService (device : Nat → Nat → Nat) (s : Isolation) (service : PortService)
    (arg1 arg2 arg3 : Nat) : Nat × Isolation × Option PortAccess :=
  let s := s.updateCurrent DriverDomain.countCall
  match service with
  | .portIn => driverPortIn device s arg1 arg2
  | .portOut => driverPortOut s arg1 arg2 arg3

/-- The width that the service takes from its arguments. -/
def PortService.width (arg2 arg3 : Nat) : PortService → Nat
  | portIn => arg2
  | portOut => arg3

/-- The port is one of the 65536 ports, and its bit is clear. -/
def Iopb.Allows (iopb : Iopb) (port : Nat) : Prop := port < iopbAllPorts ∧ test iopb port = false

/-- The service accesses only ports that the bitmap allows. -/
def PortConfined (device : Nat → Nat → Nat) (s : Isolation) (iopb : Iopb) (service : PortService)
    (arg1 arg2 arg3 : Nat) : Prop :=
  ∀ access ∈ (driverKernelService device s service arg1 arg2 arg3).2.2,
    ∀ port ∈ access.ports, iopb.Allows port

/-- The bits of the range have the value, and all others are as they were. -/
def ChangesRange (before after : Iopb) (start count : Nat) (denied : Bool) : Prop :=
  ∀ port < iopbAllPorts, test after port =
    if start ≤ port ∧ port < start + count then denied else test before port

section Service

theorem updateCurrent_current (update : DriverDomain → DriverDomain) :
    (s.updateCurrent update).currentDomain = s.currentDomain := by
  unfold Isolation.updateCurrent
  split <;> rfl

/-- Counting does not change what the check goes by. -/
theorem updateCurrent_deniesPort {update : DriverDomain → DriverDomain} (port : Nat)
    (level : ∀ domain, (update domain).isolationLevel = domain.isolationLevel)
    (kept : ∀ domain, (update domain).iopb = domain.iopb) :
    (s.updateCurrent update).deniesPort port = s.deniesPort port := by
  unfold Isolation.deniesPort
  rw [updateCurrent_current]
  cases current : s.currentDomain with
  | none => rfl
  | some i =>
      have own : (s.updateCurrent update).domains i = update (s.domains i) := by
        rw [Isolation.updateCurrent, current]
        exact if_pos rfl
      dsimp only
      rw [own, level, kept]

theorem driverKernelService_access (device : Nat → Nat → Nat) (service : PortService) :
    (driverKernelService device s service arg1 arg2 arg3).2.2 =
      if s.deniesPort (arg1 % 65536) then none
      else if service.width arg2 arg3 ∈ [1, 2, 4] then
        some (match service with
          | .portIn => .input (arg1 % 65536) arg2
          | .portOut => .output (arg1 % 65536) arg3 (arg2 % 2 ^ (8 * arg3)))
      else none := by
  have counted : ((s.updateCurrent DriverDomain.countCall).updateCurrent
      DriverDomain.countIo).deniesPort (arg1 % 65536) = s.deniesPort (arg1 % 65536) :=
    Eq.trans (updateCurrent_deniesPort _ (fun _ => rfl) fun _ => rfl)
      (updateCurrent_deniesPort _ (fun _ => rfl) fun _ => rfl)
  cases service with
  | portIn =>
      unfold driverKernelService driverPortIn
      dsimp only
      rw [counted]
      unfold PortService.width
      split_ifs <;> rfl
  | portOut =>
      unfold driverKernelService driverPortOut
      dsimp only
      rw [counted]
      unfold PortService.width
      split_ifs <;> rfl

/-- The check is of the first port only, so that the others of a wide access must be allowed
already. -/
theorem portConfined_iff (device : Nat → Nat → Nat) (current : s.currentDomain = some i)
    (ring1 : (s.domains i).isolationLevel = driverIsolationRing1) (service : PortService) :
    PortConfined device s (s.domains i).iopb service arg1 arg2 arg3 ↔
      (test (s.domains i).iopb (arg1 % 65536) = true ∨ service.width arg2 arg3 ∉ [1, 2, 4] ∨
        ∀ k, 0 < k → k < service.width arg2 arg3 →
          (s.domains i).iopb.Allows (arg1 % 65536 + k)) := by
  have denies : s.deniesPort (arg1 % 65536) = test (s.domains i).iopb (arg1 % 65536) := by
    rw [Isolation.deniesPort, current]
    dsimp only
    rw [decide_eq_true ring1, Bool.true_and]
  unfold PortConfined
  rw [driverKernelService_access, denies]
  by_cases denied : test (s.domains i).iopb (arg1 % 65536) = true
  · rw [if_pos denied]
    exact iff_of_true (fun access none => by cases none) (.inl denied)
  · rw [if_neg denied]
    by_cases wide : service.width arg2 arg3 ∈ [1, 2, 4]
    · rw [if_pos wide, or_iff_right denied, or_iff_right (not_not.mpr wide)]
      have touched : ∀ access ∈ some (match service with
          | .portIn => PortAccess.input (arg1 % 65536) arg2
          | .portOut => .output (arg1 % 65536) arg3 (arg2 % 2 ^ (8 * arg3))),
          access.ports = (List.range (service.width arg2 arg3)).map (arg1 % 65536 + ·) := by
        intro access member
        obtain rfl := Option.some.inj member
        cases service <;> rfl
      constructor
      · intro confined k _ below
        apply confined _ rfl
        rw [touched _ rfl]
        exact List.mem_map_of_mem (List.mem_range.mpr below)
      · intro allows access member port inPorts
        rw [touched access member] at inPorts
        obtain ⟨k, inside, rfl⟩ := List.mem_map.mp inPorts
        by_cases first : k = 0
        · subst first
          exact ⟨Nat.mod_lt _ (by decide), Bool.not_eq_true _ ▸ denied⟩
        · exact allows k (Nat.pos_of_ne_zero first) (List.mem_range.mp inside)
    · rw [if_neg wide]
      exact iff_of_true (fun access none => by cases none) (.inr (.inl wide))

end Service

section Ranges

theorem mem_portRange (startPort : start < 65536) (short : count < 65536) {port : Nat}
    (isPort : port < 65536) : port ∈ portRange start count ↔
      (start ≤ port ∧ port < start + count) ∨ port + 65536 < start + count := by
  simp only [portRange, List.mem_map, List.mem_range]
  constructor
  · rintro ⟨k, below, rfl⟩
    omega
  · rintro (⟨lower, upper⟩ | wrapped)
    · exact ⟨port - start, by omega, by omega⟩
    · exact ⟨port + 65536 - start, by omega, by omega⟩

/-- Bits of a range that are changed one after the other, the ports behind the last one counted
from 0 again. -/
theorem changesRange_iff {after : Iopb} {denied : Bool} (startPort : start < 65536)
    (short : count < 65536) (changed : ∀ port < 65536, test after port =
      if port ∈ portRange start count then denied else test iopb port) :
    ChangesRange iopb after start count denied ↔
      ∀ port, port + 65536 < start + count → test iopb port = denied := by
  constructor
  · intro exact port wrapped
    have isPort : port < 65536 := by omega
    have stays := exact port isPort
    rw [changed port isPort, if_pos ((mem_portRange startPort short isPort).mpr (.inr wrapped)),
      if_neg (by omega)] at stays
    exact stays.symm
  · intro same port isPort
    rw [changed port isPort]
    by_cases inside : start ≤ port ∧ port < start + count
    · rw [if_pos inside, if_pos ((mem_portRange startPort short isPort).mpr (.inl inside))]
    · rw [if_neg inside]
      by_cases member : port ∈ portRange start count
      · have wrapped := ((mem_portRange startPort short isPort).mp member).resolve_left inside
        rw [if_pos member, same port wrapped]
      · rw [if_neg member]

theorem allowPort_changes_iff (startPort : start < 65536) (short : count < 65536) :
    ChangesRange (s.domains i).iopb ((driverDomainAllowPort s (some i) start count).domains i).iopb
        start count false ↔
      ∀ port, port + 65536 < start + count → test (s.domains i).iopb port = false := by
  apply changesRange_iff startPort short
  intro port _
  simp only [driverDomainAllowPort, Isolation.setDomain, if_true]
  rw [foldl_clear_test]
  by_cases member : port ∈ portRange start count
  · simp [member]
  · simp [member]

theorem denyPort_changes_iff (startPort : start < 65536) (short : count < 65536) :
    ChangesRange (s.domains i).iopb ((driverDomainDenyPort s (some i) start count).domains i).iopb
        start count true ↔
      ∀ port, port + 65536 < start + count → test (s.domains i).iopb port = true := by
  apply changesRange_iff startPort short
  intro port _
  simp only [driverDomainDenyPort, Isolation.setDomain, if_true]
  rw [foldl_set_test]
  by_cases member : port ∈ portRange start count
  · simp [member]
  · simp [member]

end Ranges

/-- The services keep to the bitmap exactly where the ports behind the first one are allowed, and
a range changes exactly its bits where none of it lies behind the last port, or the ports from 0
on that it runs into have the value already. -/
theorem port_service_iff (device : Nat → Nat → Nat) (current : s.currentDomain = some i)
    (ring1 : (s.domains i).isolationLevel = driverIsolationRing1) (service : PortService)
    (arg1 arg2 arg3 : Nat) (owner : Nat) (startPort : start < 65536) (short : count < 65536) :
    (PortConfined device s (s.domains i).iopb service arg1 arg2 arg3 ↔
      (test (s.domains i).iopb (arg1 % 65536) = true ∨ service.width arg2 arg3 ∉ [1, 2, 4] ∨
        ∀ k, 0 < k → k < service.width arg2 arg3 →
          (s.domains i).iopb.Allows (arg1 % 65536 + k))) ∧
    (ChangesRange (s.domains owner).iopb
        ((driverDomainAllowPort s (some owner) start count).domains owner).iopb start count false ↔
      ∀ port, port + 65536 < start + count → test (s.domains owner).iopb port = false) ∧
    (ChangesRange (s.domains owner).iopb
        ((driverDomainDenyPort s (some owner) start count).domains owner).iopb start count true ↔
      ∀ port, port + 65536 < start + count → test (s.domains owner).iopb port = true) := by
  refine ⟨portConfined_iff device current ring1 service, ?_, ?_⟩
  · exact allowPort_changes_iff startPort short
  · exact denyPort_changes_iff startPort short

/-- A Ring-1 domain that may use the port 0x80 only. -/
def onePortDomain : Isolation :=
  [IsolationCall.create (some "uart") driverIsolationRing1 0x1000, .allowPort (some 0) 0x80 1,
    .activate (some 0)].foldl Isolation.call isolationBoot

theorem onePortDomain_bits : onePortDomain.currentDomain = some 0 ∧
    (onePortDomain.domains 0).isolationLevel = driverIsolationRing1 ∧
    test (onePortDomain.domains 0).iopb 0x80 = false ∧
    test (onePortDomain.domains 0).iopb 0x81 = true := by
  decide

/-- An access of two bytes at the only port that is allowed reads the next one too; and a range
of two ports from 0xFFFF on opens the port 0. -/
theorem port_service_leaves_bitmap :
    ¬ PortConfined (fun _ _ => 0) onePortDomain (onePortDomain.domains 0).iopb .portIn 0x80 2 0 ∧
    ¬ ChangesRange (onePortDomain.domains 0).iopb
      ((driverDomainAllowPort onePortDomain (some 0) 0xFFFF 2).domains 0).iopb 0xFFFF 2 false := by
  constructor
  · intro confined
    have access : (driverKernelService (fun _ _ => 0) onePortDomain .portIn 0x80 2 0).2.2 =
        some (.input 0x80 2) := by decide
    have allowed := confined _ access 0x81 (by decide)
    rw [Iopb.Allows, onePortDomain_bits.2.2.2] at allowed
    cases allowed.2
  · intro exact
    have first := exact 0 (by decide)
    rw [if_neg (by decide)] at first
    have opened : test ((driverDomainAllowPort onePortDomain (some 0) 0xFFFF 2).domains 0).iopb 0 =
        false := by decide
    have closed : test (onePortDomain.domains 0).iopb 0 = true := by decide
    rw [opened, closed] at first
    cases first

theorem port_service_iff_byte :
    PortConfined (fun _ _ => 0) onePortDomain (onePortDomain.domains 0).iopb .portIn 0x80 1 0 ∧
    ChangesRange (onePortDomain.domains 0).iopb
      ((driverDomainAllowPort onePortDomain (some 0) 0x80 2).domains 0).iopb 0x80 2 false := by
  obtain ⟨current, ring1, _, _⟩ := onePortDomain_bits
  obtain ⟨confined, allows, _⟩ := @port_service_iff onePortDomain 0 0x80 2 (fun _ _ => 0) current
    ring1 .portIn 0x80 1 0 0 (by decide) (by decide)
  refine ⟨confined.mpr (.inr (.inr ?_)), allows.mpr ?_⟩
  · intro k positive below
    change k < 1 at below
    omega
  · intro port wrapped
    omega

end ZurichOS
