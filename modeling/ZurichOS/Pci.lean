import Mathlib.Data.List.Nodup
import ZurichOS.PciCore
import ZurichOS.Transitions

/-!
The tables of the driver framework over whole runs.  Binding a device, registering a driver
and unregistering one each keep them consistent; probing is a sequence of bindings.
-/

namespace ZurichOS

open Words Transitions

namespace PciFramework

def bindings (s : PciFramework) : List PciBinding := s.deviceBindings.toList

def registered (s : PciFramework) : List Nat := s.registeredDrivers.toList

def boundTo (s : PciFramework) (driver : Nat) : List PciBinding :=
  s.bindings.filter fun binding => binding.driver == driver

/-- No device is bound twice and no driver registered twice; the driver of a binding is
registered and matches the device; each registered driver counts its bindings. -/
structure Sound (s : PciFramework) : Prop where
  once : (s.bindings.map (·.device)).Nodup
  distinct : s.registered.Nodup
  registered : ∀ binding ∈ s.bindings, binding.driver ∈ s.registered
  matching : ∀ binding ∈ s.bindings,
    (pciMatchDevice (s.drivers binding.driver) (s.devices binding.device)).isSome = true
  counted : ∀ d ∈ s.registered, (s.drivers d).devicesBound = (s.boundTo d).length
  room : s.registeredDrivers.count ≤ maxDrivers ∧ s.deviceBindings.count ≤ maxBindings

variable {s : PciFramework} {d dev : Nat}

theorem pciMatchDevice_congr {driver other : PciDriver} (same : driver.idTable = other.idTable)
    (dev : PciDevice) : pciMatchDevice driver dev = pciMatchDevice other dev := by
  rw [pciMatchDevice, pciMatchDevice, same]

theorem unbound_iff (s : PciFramework) (dev : Nat) :
    ¬ (pciGetDeviceDriver s dev).isSome = true ↔ ∀ binding ∈ s.bindings, binding.device ≠ dev := by
  rw [Option.not_isSome_iff_eq_none, pciGetDeviceDriver, List.findSome?_eq_none_iff]
  constructor
  · intro none binding member same
    obtain ⟨i, bound, rfl⟩ := CompactArray.mem_toList.mp member
    have hit := none i (List.mem_range.mpr bound)
    rw [if_pos same] at hit
    cases hit
  · intro others i bound
    exact if_neg (others _ (CompactArray.mem_toList.mpr ⟨i, List.mem_range.mp bound, rfl⟩))

theorem Sound.setDriver (sound : s.Sound) {value : PciDriver}
    (ids : value.idTable = (s.drivers d).idTable)
    (bound : value.devicesBound = (s.drivers d).devicesBound) : (s.setDriver d value).Sound := by
  have drivers : ∀ other, ((s.setDriver d value).drivers other).idTable =
      (s.drivers other).idTable ∧ ((s.setDriver d value).drivers other).devicesBound =
        (s.drivers other).devicesBound := by
    intro other
    by_cases own : other = d
    · subst own
      show (Function.update s.drivers other value other).idTable = _ ∧
        (Function.update s.drivers other value other).devicesBound = _
      rw [Function.update_self]
      exact ⟨ids, bound⟩
    · show (Function.update s.drivers d value other).idTable = _ ∧
        (Function.update s.drivers d value other).devicesBound = _
      rw [Function.update_of_ne own]
      exact ⟨rfl, rfl⟩
  refine ⟨sound.once, sound.distinct, sound.registered, fun binding member => ?_,
    fun other member => ?_, sound.room⟩
  · rw [pciMatchDevice_congr (drivers binding.driver).1]
    exact sound.matching binding member
  · rw [(drivers other).2]
    exact sound.counted other member

/-- A device without a binding is bound to a registered driver that matches it. -/
theorem Sound.bind (sound : s.Sound) (driver : d ∈ s.registered)
    (unbound : ∀ binding ∈ s.bindings, binding.device ≠ dev)
    (matched : (pciMatchDevice (s.drivers d) (s.devices dev)).isSome = true)
    (room : s.deviceBindings.count < maxBindings) : (pciBind s d dev).Sound := by
  have bindings : (pciBind s d dev).bindings = s.bindings ++ [⟨dev, d⟩] :=
    CompactArray.toList_push _ _
  have ids : ∀ other, ((pciBind s d dev).drivers other).idTable = (s.drivers other).idTable := by
    intro other
    show (Function.update s.drivers d _ other).idTable = _
    by_cases own : other = d
    · rw [own, Function.update_self]
    · rw [Function.update_of_ne own]
  refine ⟨?_, sound.distinct, fun binding member => ?_, fun binding member => ?_,
    fun other member => ?_, sound.room.1, room⟩
  · rw [bindings, List.map_append, List.nodup_append]
    refine ⟨sound.once, List.nodup_singleton _, ?_⟩
    rintro device bound _ own rfl
    obtain ⟨binding, member, rfl⟩ := List.mem_map.mp bound
    exact unbound binding member (List.mem_singleton.mp own)
  · rw [bindings, List.mem_append, List.mem_singleton] at member
    rcases member with earlier | rfl
    · exact sound.registered binding earlier
    · exact driver
  · rw [bindings, List.mem_append, List.mem_singleton] at member
    rw [pciMatchDevice_congr (ids _)]
    rcases member with earlier | rfl
    · exact sound.matching binding earlier
    · exact matched
  · have count := sound.counted other member
    rw [boundTo, bindings, List.filter_append, List.length_append, ← boundTo]
    show (Function.update s.drivers d _ other).devicesBound = _
    by_cases own : other = d
    · subst own
      have small : (s.boundTo other).length ≤ s.deviceBindings.count := by
        rw [← CompactArray.length_toList]
        exact List.length_filter_le _ _
      rw [Function.update_self]
      show u32 ((s.drivers other).devicesBound + 1) = _
      rw [count, List.filter_cons_of_pos (by simp), u32_eq_of_lt (by
        have limit : maxBindings < 4294967295 := by decide
        omega)]
      rfl
    · rw [Function.update_of_ne own, count, List.filter_cons_of_neg (by simpa using Ne.symm own)]
      rfl

/-! Probing. -/

/-- What a round of probing leaves: sound tables and the same drivers. -/
def Probed (s after : PciFramework) : Prop :=
  after.Sound ∧ after.registeredDrivers = s.registeredDrivers

theorem Probed.trans {middle after : PciFramework} (first : Probed s middle)
    (second : Probed middle after) : Probed s after := ⟨second.1, second.2.trans first.2⟩

variable {probe : Nat → Nat → Int}

theorem Sound.probeDevice (sound : s.Sound) (driver : d ∈ s.registered) (probed : Int) (dev : Nat) :
    Probed s (pciProbeDevice probe d (probed, s) dev).2 := by
  rw [pciProbeDevice]
  split
  · exact ⟨sound, rfl⟩
  rename_i unbound
  split
  · exact ⟨sound, rfl⟩
  rename_i id found
  split
  · rename_i accepted
    refine ⟨sound.bind driver ((unbound_iff s dev).mp unbound) ?_ accepted.2, rfl⟩
    rw [found]
    rfl
  · exact ⟨sound, rfl⟩

theorem Sound.probeDevices (sound : s.Sound) (driver : d ∈ s.registered) :
    Probed s (pciDriverProbeDevices s (some d) probe).2 := by
  rw [pciDriverProbeDevices]
  split
  · refine List.foldlRecOn (motive := fun state : Int × PciFramework => Probed s state.2) _ _
      ⟨sound, rfl⟩ fun state probed dev _ => ?_
    refine probed.trans (probed.1.probeDevice ?_ _ _)
    rw [PciFramework.registered, probed.2]
    exact driver
  · exact ⟨sound, rfl⟩

theorem Sound.probeAll (sound : s.Sound) : Probed s (pciProbeAllDrivers s probe) := by
  refine List.foldlRecOn _ _ ⟨sound, rfl⟩ fun after probed i member => ?_
  refine probed.trans (probed.1.probeDevices ?_)
  rw [PciFramework.registered, probed.2]
  exact CompactArray.mem_toList.mpr ⟨i, List.mem_range.mp member, rfl⟩

/-! Registering. -/

/-- A new driver has no bindings, as the drivers of bindings are registered. -/
theorem Sound.enroll (sound : s.Sound) (fresh : d ∉ s.registered)
    (room : s.registeredDrivers.count < maxDrivers) :
    ({ s with registeredDrivers := s.registeredDrivers.push d }.setDriver d
      { s.drivers d with status := .loaded, devicesBound := 0 }).Sound := by
  generalize afterEq : ({ s with registeredDrivers := s.registeredDrivers.push d }.setDriver d
      { s.drivers d with status := .loaded, devicesBound := 0 } : PciFramework) = after
  have drivers : after.registered = s.registered ++ [d] := by
    rw [← afterEq]
    exact CompactArray.toList_push _ _
  have bindings : after.bindings = s.bindings := by
    rw [← afterEq]
    rfl
  have old : ∀ other, other ≠ d → after.drivers other = s.drivers other := by
    intro other apart
    rw [← afterEq]
    exact Function.update_of_ne apart _ _
  have own : (after.drivers d).devicesBound = 0 := by
    rw [← afterEq]
    exact congrArg PciDriver.devicesBound (Function.update_self d _ s.drivers)
  have foreign : ∀ binding ∈ s.bindings, binding.driver ≠ d := by
    intro binding member same
    exact fresh (same ▸ sound.registered binding member)
  refine ⟨bindings ▸ sound.once, ?_, fun binding member => ?_, fun binding member => ?_,
    fun other member => ?_, ?_⟩
  · rw [drivers, List.nodup_append]
    refine ⟨sound.distinct, List.nodup_singleton _, ?_⟩
    rintro other member _ new rfl
    exact fresh (List.mem_singleton.mp new ▸ member)
  · rw [drivers]
    rw [bindings] at member
    exact List.mem_append_left _ (sound.registered binding member)
  · rw [bindings] at member
    rw [old _ (foreign binding member), ← afterEq]
    exact sound.matching binding member
  · rw [boundTo, bindings, ← boundTo]
    by_cases new : other = d
    · have none : s.boundTo d = [] :=
        List.filter_eq_nil_iff.mpr fun binding held => by simpa using foreign binding held
      rw [new, own, none]
      rfl
    · rw [drivers, List.mem_append, List.mem_singleton] at member
      rw [old other new]
      exact sound.counted other (member.resolve_right new)
  · rw [← afterEq]
    exact ⟨room, sound.room.2⟩

theorem Sound.isolate (sound : s.Sound) (d stack : Nat) :
    Probed s (pciIsolateDriver s d stack) := by
  have withIsolation : ∀ isolation, ({ s with isolation } : PciFramework).Sound := fun _ =>
    ⟨sound.once, sound.distinct, sound.registered, sound.matching, sound.counted, sound.room⟩
  unfold pciIsolateDriver
  dsimp only
  split
  · split
    · exact ⟨withIsolation _, rfl⟩
    · exact ⟨(withIsolation _).setDriver rfl rfl, rfl⟩
  · exact ⟨sound, rfl⟩

theorem Sound.register (sound : s.Sound) (driver : Option Nat) (stack : Nat) :
    (pciRegisterDriver s driver stack probe).2.Sound := by
  unfold pciRegisterDriver
  split
  · exact sound
  rename_i d
  split
  · exact sound
  split
  · exact sound
  rename_i room
  split
  · exact sound
  rename_i absent
  have fresh : d ∉ s.registered := by
    intro member
    obtain ⟨i, bound, same⟩ := CompactArray.mem_toList.mp member
    exact absent (List.any_eq_true.mpr ⟨i, List.mem_range.mpr bound, by simpa using same⟩)
  have enrolled := sound.enroll fresh (Nat.lt_of_not_le room)
  dsimp only
  generalize afterEq : ({ s with registeredDrivers := s.registeredDrivers.push d }.setDriver d
      { s.drivers d with status := .loaded, devicesBound := 0 } : PciFramework) = after
    at enrolled
  have isolated := enrolled.isolate d stack
  have member : d ∈ (pciIsolateDriver after d stack).registered := by
    rw [PciFramework.registered, isolated.2, ← afterEq]
    exact (CompactArray.toList_push _ _) ▸ List.mem_append_right _ (List.mem_singleton_self d)
  exact (isolated.1.probeDevices member).1

/-! Unregistering. -/

/-- `remove` was called once for each device of the driver, if it has the callback; the
other bindings and drivers stay in order. -/
structure Dismissed (s after : PciFramework) (driver : Nat) : Prop where
  called : (s.drivers driver).remove = true → ∃ calls,
    after.removeCalls = s.removeCalls ++ calls ∧
      ∀ binding, calls.count binding =
        if binding ∈ s.bindings ∧ binding.driver = driver then 1 else 0
  silent : (s.drivers driver).remove = false → after.removeCalls = s.removeCalls
  bindings : after.bindings = s.bindings.filter fun binding => binding.driver ≠ driver
  registered : after.registered = s.registered.erase driver

/-- The driver's own status and domain aside, the tables and the calls of `remove`. -/
theorem unregister_eq (s : PciFramework) (d : Nat) :
    ∃ (isolation : Isolation) (value : PciDriver),
      pciUnregisterDriver s (some d) = { s with
        deviceBindings := (s.deviceBindings.sweep (fun binding : PciBinding => binding.driver == d)
          s.deviceBindings.count 0).2
        removeCalls := s.removeCalls ++ if (s.drivers d).remove then s.boundTo d else []
        registeredDrivers := s.registeredDrivers.eraseFirst (· == d)
        isolation }.setDriver d value := by
  have removed := (s.deviceBindings.sweep_all fun binding => binding.driver == d).1
  unfold pciUnregisterDriver
  dsimp only
  rw [removed]
  cases domain : (s.drivers d).domain with
  | none =>
      exact ⟨s.isolation, { s.drivers d with status := .unloaded, devicesBound := 0 }, rfl⟩
  | some dom =>
      refine ⟨driverDomainDestroy s.isolation (some dom),
        { s.drivers d with domain := none, status := .unloaded, devicesBound := 0 }, ?_⟩
      simp only [setDriver, Function.update_self, Function.update_idem]
      rfl

theorem unregister_bindings (s : PciFramework) (d : Nat) :
    (pciUnregisterDriver s (some d)).bindings =
      s.bindings.filter fun binding => binding.driver ≠ d := by
  obtain ⟨isolation, value, after⟩ := unregister_eq s d
  rw [after]
  refine (s.deviceBindings.sweep_all fun binding => binding.driver == d).2.trans ?_
  exact List.filter_congr fun binding _ => by rw [Bool.eq_iff_iff]; simp

theorem unregister_registered (s : PciFramework) (d : Nat) :
    (pciUnregisterDriver s (some d)).registered = s.registered.erase d := by
  obtain ⟨isolation, value, after⟩ := unregister_eq s d
  rw [after, List.erase_eq_eraseP']
  exact CompactArray.toList_eraseFirst s.registeredDrivers (· == d)

theorem unregister_removeCalls (s : PciFramework) (d : Nat) :
    (pciUnregisterDriver s (some d)).removeCalls =
      s.removeCalls ++ if (s.drivers d).remove then s.boundTo d else [] := by
  obtain ⟨isolation, value, after⟩ := unregister_eq s d
  rw [after]
  rfl

theorem Sound.dismissed (sound : s.Sound) (d : Nat) :
    Dismissed s (pciUnregisterDriver s (some d)) d := by
  have calls := unregister_removeCalls s d
  refine ⟨fun callback => ⟨s.boundTo d, by rwa [if_pos callback] at calls, fun binding => ?_⟩,
    fun none => ?_, unregister_bindings s d, unregister_registered s d⟩
  · have once : (s.boundTo d).Nodup := (List.Nodup.of_map _ sound.once).filter _
    rw [once.count]
    refine if_congr ?_ rfl rfl
    simp [boundTo]
  · rw [calls, none]
    exact List.append_nil _

theorem Sound.unregister (sound : s.Sound) (driver : Option Nat) :
    (pciUnregisterDriver s driver).Sound := by
  cases driver with
  | none => exact sound
  | some d =>
      have bindings := unregister_bindings s d
      have drivers := unregister_registered s d
      obtain ⟨isolation, value, after⟩ := unregister_eq s d
      have kept : ∀ other, other ≠ d → (pciUnregisterDriver s (some d)).drivers other =
          s.drivers other := by
        intro other apart
        rw [after]
        exact Function.update_of_ne apart _ _
      have devices : (pciUnregisterDriver s (some d)).devices = s.devices := by
        rw [after]
        rfl
      have held : ∀ binding, binding ∈ (pciUnregisterDriver s (some d)).bindings →
          binding ∈ s.bindings ∧ binding.driver ≠ d := by
        intro binding member
        rw [bindings, List.mem_filter] at member
        exact ⟨member.1, by simpa using member.2⟩
      refine ⟨?_, ?_, fun binding member => ?_, fun binding member => ?_, fun other member => ?_, ?_⟩
      · rw [bindings]
        exact sound.once.sublist (List.filter_sublist.map _)
      · rw [drivers]
        exact sound.distinct.erase d
      · obtain ⟨member, apart⟩ := held binding member
        rw [drivers, sound.distinct.mem_erase_iff]
        exact ⟨apart, sound.registered binding member⟩
      · obtain ⟨member, apart⟩ := held binding member
        rw [kept _ apart, devices]
        exact sound.matching binding member
      · rw [drivers, sound.distinct.mem_erase_iff] at member
        obtain ⟨apart, member⟩ := member
        rw [kept other apart, sound.counted other member, boundTo, boundTo, bindings,
          List.filter_filter]
        congr 1
        refine List.filter_congr fun binding _ => ?_
        by_cases own : binding.driver = other
        · simp [own, apart]
        · simp [own]
      · constructor
        · rw [← CompactArray.length_toList, ← PciFramework.registered, drivers]
          exact Nat.le_trans (List.length_erase_le) (s.registeredDrivers.length_toList ▸ sound.room.1)
        · rw [← CompactArray.length_toList, ← PciFramework.bindings, bindings]
          exact Nat.le_trans (List.length_filter_le _ _)
            (s.deviceBindings.length_toList ▸ sound.room.2)

/-! Runs. -/

theorem Sound.call (sound : s.Sound) (call : PciCall) : (s.call call).Sound := by
  cases call with
  | register driver stack probe => exact sound.register driver stack
  | unregister driver => exact sound.unregister driver
  | probeAll probe => exact sound.probeAll.1

theorem sound_start (drivers : Nat → PciDriver) (devices : Nat → PciDevice) (deviceCount : Nat) :
    (PciFramework.start drivers devices deviceCount).Sound := by
  have noBinding : (PciFramework.start drivers devices deviceCount).bindings = [] := rfl
  have noDriver : (PciFramework.start drivers devices deviceCount).registered = [] := rfl
  refine ⟨?_, ?_, ?_, ?_, ?_, Nat.zero_le _, Nat.zero_le _⟩
  all_goals simp [noBinding, noDriver]

end PciFramework

open PciFramework

def PciStep (s : PciFramework) (call : PciCall) (after : PciFramework) : Prop :=
  after = s.call call

def PciStart (s : PciFramework) : Prop :=
  ∃ drivers devices deviceCount, s = PciFramework.start drivers devices deviceCount

/-- After any registrations, removals and probes the tables are consistent, and a driver
unregistered then is dismissed from all its devices and from nothing else. -/
theorem pci_bindings_sound {s : PciFramework} (reached : Reachable PciStart PciStep s) :
    s.Sound ∧ ∀ driver, Dismissed s (s.call (.unregister (some driver))) driver := by
  have sound : s.Sound := by
    refine reached.invariant PciFramework.Sound ?_ ?_
    · rintro s ⟨drivers, devices, deviceCount, rfl⟩
      exact sound_start drivers devices deviceCount
    · rintro s call after sound rfl
      exact sound.call call
  exact ⟨sound, fun driver => sound.dismissed driver⟩

def anyCardDriver (name : String) : PciDriver :=
  { name := some name, idTable := some [⟨pciAnyId, pciAnyId, 0, 0⟩, ⟨0, 0, 0, 0⟩]
    probe := true, remove := true, status := .unloaded, devicesBound := 0, domain := none
    isolationLevel := 0, ioPortBase := 0, ioPortCount := 0 }

/-- The first driver declines the second card. -/
def twoCardsProbe (driver dev : Nat) : Int := if driver = 1 ∧ dev = 1 then -1 else 0

def twoCards : PciFramework :=
  ((PciFramework.start (fun d => anyCardDriver (if d = 1 then "first" else "second"))
    (fun _ => ⟨0x8086, 0x100E, 2, 0, 0⟩) 2).call (.register (some 1) 0 twoCardsProbe)).call
      (.register (some 2) 0 twoCardsProbe)

theorem pci_bindings_sound_twoCards :
    twoCards.Sound ∧ (twoCards.call (.unregister (some 1))).bindings = [⟨1, 2⟩] := by
  have step : ∀ {s : PciFramework} (call : PciCall), Reachable PciStart PciStep s →
      Reachable PciStart PciStep (s.call call) := fun call reached => reached.next rfl
  have reached : Reachable PciStart PciStep twoCards := step _ (step _ (.start ⟨_, _, _, rfl⟩))
  obtain ⟨sound, dismissed⟩ := pci_bindings_sound reached
  exact ⟨sound, (dismissed 1).bindings.trans (by decide)⟩

end ZurichOS
