import ZurichOS.CompactArray
import ZurichOS.IsolationCore
import ZurichOS.Words

/-!
The driver framework of `kernel/drivers/pci/driver.c`.  Drivers and devices are named by
their numbers, as the kernel names them by the addresses of their structures.  What `probe`
returns is a parameter of each call.
-/

namespace ZurichOS

open Words

abbrev maxDrivers : Nat := 32
abbrev maxBindings : Nat := 64
abbrev pciAnyId : UInt16 := 0xFFFF

structure PciDeviceId where
  vendorId : UInt16
  deviceId : UInt16
  classCode : UInt32
  classMask : UInt32

structure PciDevice where
  vendorId : UInt16
  deviceId : UInt16
  classCode : UInt8
  subclass : UInt8
  progIf : UInt8

inductive DriverStatus where
  | unloaded
  | loaded
  | active
  | error
  deriving DecidableEq

/-- `probe` and `remove` say whether the driver has the callback. -/
structure PciDriver where
  name : Option String
  idTable : Option (List PciDeviceId)
  probe : Bool
  remove : Bool
  status : DriverStatus
  devicesBound : Nat
  domain : Option Nat
  isolationLevel : Int
  ioPortBase : Nat
  ioPortCount : Nat

structure PciBinding where
  device : Nat
  driver : Nat
  deriving DecidableEq

/-- `removeCalls` records the calls of `remove`. -/
structure PciFramework where
  drivers : Nat → PciDriver
  devices : Nat → PciDevice
  deviceCount : Nat
  registeredDrivers : CompactArray Nat
  deviceBindings : CompactArray PciBinding
  isolation : Isolation
  removeCalls : List PciBinding

def PciFramework.setDriver (s : PciFramework) (driver : Nat) (value : PciDriver) : PciFramework :=
  { s with drivers := Function.update s.drivers driver value }

/-! Matching. -/

def PciDevice.devClass (dev : PciDevice) : UInt32 :=
  (dev.classCode.toUInt32 <<< 16) ||| (dev.subclass.toUInt32 <<< 8) ||| dev.progIf.toUInt32

def matchId (id : PciDeviceId) (dev : PciDevice) : Bool :=
  if id.vendorId ≠ pciAnyId ∧ id.vendorId ≠ dev.vendorId then false
  else if id.deviceId ≠ pciAnyId ∧ id.deviceId ≠ dev.deviceId then false
  else if id.classMask ≠ 0 ∧ dev.devClass &&& id.classMask ≠ id.classCode &&& id.classMask then
    false
  else true

def PciDeviceId.isEnd (id : PciDeviceId) : Bool :=
  id.vendorId == 0 && id.deviceId == 0 && id.classCode == 0 && id.classMask == 0

/-- The walk over the table, which an all-zero entry ends. -/
def matchTable (dev : PciDevice) : List PciDeviceId → Option PciDeviceId
  | [] => none
  | id :: rest =>
      if id.isEnd then none
      else if matchId id dev then some id
      else matchTable dev rest

def pciMatchDevice (driver : PciDriver) (dev : PciDevice) : Option PciDeviceId :=
  match driver.idTable with
  | none => none
  | some table => matchTable dev table

/-! Probing. -/

def pciGetDeviceDriver (s : PciFramework) (dev : Nat) : Option Nat :=
  (List.range s.deviceBindings.count).findSome? fun i =>
    if (s.deviceBindings.slots i).device = dev then some (s.deviceBindings.slots i).driver
    else none

def pciBind (s : PciFramework) (driver dev : Nat) : PciFramework :=
  { s with deviceBindings := s.deviceBindings.push { device := dev, driver } }.setDriver driver
    { s.drivers driver with
      devicesBound := u32 ((s.drivers driver).devicesBound + 1)
      status := .active }

/-- One round of the loop of `pci_driver_probe_devices`. -/
def pciProbeDevice (probe : Nat → Nat → Int) (driver : Nat) (state : Int × PciFramework)
    (dev : Nat) : Int × PciFramework :=
  let s := state.2
  if (pciGetDeviceDriver s dev).isSome then state
  else
    match pciMatchDevice (s.drivers driver) (s.devices dev) with
    | none => state
    | some _ =>
        if probe driver dev = 0 ∧ s.deviceBindings.count < maxBindings then
          (state.1 + 1, pciBind s driver dev)
        else state

def pciDriverProbeDevices (s : PciFramework) (driver : Option Nat) (probe : Nat → Nat → Int) :
    Int × PciFramework :=
  match driver with
  | none => (-1, s)
  | some d =>
      if (s.drivers d).probe then
        (List.range s.deviceCount).foldl (pciProbeDevice probe d) (0, s)
      else (-1, s)

def pciProbeAllDrivers (s : PciFramework) (probe : Nat → Nat → Int) : PciFramework :=
  (List.range s.registeredDrivers.count).foldl
    (fun s i => (pciDriverProbeDevices s (some (s.registeredDrivers.slots i)) probe).2) s

/-! Registering. -/

/-- The domain of a driver that asks for one; `stack` is what `kmalloc` returns for it. -/
def pciIsolateDriver (s : PciFramework) (d stack : Nat) : PciFramework :=
  let driver := s.drivers d
  if 0 < driver.isolationLevel ∧ driver.domain = none then
    let created := driverDomainCreate s.isolation driver.name driver.isolationLevel.toNat stack
    match created.1 with
    | none => { s with isolation := created.2 }
    | some dom =>
        { s with
          isolation :=
            if 0 < driver.ioPortCount then
              driverDomainAllowPort created.2 (some dom) driver.ioPortBase driver.ioPortCount
            else created.2 }.setDriver d { driver with domain := some dom }
  else s

def pciRegisterDriver (s : PciFramework) (driver : Option Nat) (stack : Nat)
    (probe : Nat → Nat → Int) : Int × PciFramework :=
  match driver with
  | none => (-1, s)
  | some d =>
      if (s.drivers d).name = none then (-1, s)
      else if maxDrivers ≤ s.registeredDrivers.count then (-2, s)
      else if (List.range s.registeredDrivers.count).any fun i =>
          s.registeredDrivers.slots i == d then (-3, s)
      else
        let s := { s with registeredDrivers := s.registeredDrivers.push d }
        let s := s.setDriver d { s.drivers d with status := .loaded, devicesBound := 0 }
        let s := pciIsolateDriver s d stack
        (0, (pciDriverProbeDevices s (some d) probe).2)

def pciUnregisterDriver (s : PciFramework) (driver : Option Nat) : PciFramework :=
  match driver with
  | none => s
  | some d =>
      let swept := s.deviceBindings.sweep (fun binding => binding.driver == d)
        s.deviceBindings.count 0
      let s := { s with
        deviceBindings := swept.2
        removeCalls := s.removeCalls ++ if (s.drivers d).remove then swept.1 else []
        registeredDrivers := s.registeredDrivers.eraseFirst (· == d) }
      let s :=
        match (s.drivers d).domain with
        | none => s
        | some dom =>
            { s with isolation := driverDomainDestroy s.isolation (some dom) }.setDriver d
              { s.drivers d with domain := none }
      s.setDriver d { s.drivers d with status := .unloaded, devicesBound := 0 }

/-! The calls of the kernel, from the state its static variables start in. -/

inductive PciCall where
  | register (driver : Option Nat) (stack : Nat) (probe : Nat → Nat → Int)
  | unregister (driver : Option Nat)
  | probeAll (probe : Nat → Nat → Int)

def PciFramework.call (s : PciFramework) : PciCall → PciFramework
  | .register driver stack probe => (pciRegisterDriver s driver stack probe).2
  | .unregister driver => pciUnregisterDriver s driver
  | .probeAll probe => pciProbeAllDrivers s probe

def PciFramework.start (drivers : Nat → PciDriver) (devices : Nat → PciDevice)
    (deviceCount : Nat) : PciFramework :=
  { drivers, devices, deviceCount
    registeredDrivers := { slots := fun _ => 0, count := 0 }
    deviceBindings := { slots := fun _ => ⟨0, 0⟩, count := 0 }
    isolation := isolationBoot
    removeCalls := [] }

end ZurichOS
