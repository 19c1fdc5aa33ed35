import Mathlib.Data.List.Range
import Mathlib.Logic.Function.Basic

/-!
The cache of `services/net/arp.c`: no address has two entries, so a lookup gives the newest one.
-/

namespace ZurichOS

abbrev arpCacheSize : Nat := 32

structure ArpEntry where
  ip : Nat
  mac : Nat → UInt8
  valid : Bool

abbrev ArpCache := Nat → ArpEntry

def arpGetEntry (cache : Nat → ArpEntry) (index : Nat) : Option ArpEntry :=
  if arpCacheSize ≤ index then none
  else if !(cache index).valid then none
  else some (cache index)

def arpInit : ArpCache := fun _ => ⟨0, fun _ => 0, false⟩

/-- The loop of `arp_add_entry`, with the first free slot so far. -/
def arpFindSlot (cache : ArpCache) (ip : Nat) : List Nat → Option Nat → Option Nat
  | [], slot => slot
  | i :: rest, slot =>
      if (cache i).valid ∧ (cache i).ip = ip then some i
      else if (cache i).valid = false ∧ slot = none then arpFindSlot cache ip rest (some i)
      else arpFindSlot cache ip rest slot

/-- `memcpy` of the six bytes of an address. -/
def copyMac (old mac : Nat → UInt8) : Nat → UInt8 := fun i => if i < 6 then mac i else old i

def macBytes (mac : Nat → UInt8) : List UInt8 := (List.range 6).map mac

def arpAddEntry (cache : ArpCache) (ip : Nat) (mac : Nat → UInt8) : ArpCache :=
  let slot := (arpFindSlot cache ip (List.range arpCacheSize) none).getD 0
  Function.update cache slot ⟨ip, copyMac (cache slot).mac mac, true⟩

/-- What `arp_lookup` copies to `mac`, where it returns 0. -/
def arpLookup (cache : ArpCache) (ip : Nat) : Option (List UInt8) :=
  ((List.range arpCacheSize).find? fun i => (cache i).valid ∧ (cache i).ip = ip).map fun i =>
    macBytes (cache i).mac

def arpRun (calls : List (Nat × (Nat → UInt8))) : ArpCache :=
  calls.foldl (fun cache call => arpAddEntry cache call.1 call.2) arpInit

/-- No two slots hold one address. -/
def ArpCache.Unique (cache : ArpCache) : Prop :=
  ∀ i < arpCacheSize, ∀ j < arpCacheSize, (cache i).valid = true → (cache j).valid = true →
    (cache i).ip = (cache j).ip → i = j

def ArpCache.Holds (cache : ArpCache) (i ip : Nat) : Prop :=
  i < arpCacheSize ∧ (cache i).valid = true ∧ (cache i).ip = ip

/-- All slots hold addresses other than this one. -/
def ArpCache.FullOfOthers (cache : ArpCache) (ip : Nat) : Prop :=
  ∀ i < arpCacheSize, (cache i).valid = true ∧ (cache i).ip ≠ ip

variable {cache : ArpCache} {ip other i : Nat} {mac : Nat → UInt8}

theorem macBytes_copyMac (old mac : Nat → UInt8) : macBytes (copyMac old mac) = macBytes mac := by
  apply List.map_congr_left
  intro i member
  exact if_pos (List.mem_range.mp member)

/-- The loop ends at a slot of the address, or at the first free one, or has found neither. -/
theorem arpFindSlot_cases (slots : List Nat) (slot : Option Nat) :
    (∃ i ∈ slots, (cache i).valid = true ∧ (cache i).ip = ip ∧
      arpFindSlot cache ip slots slot = some i) ∨
    (∀ i ∈ slots, ¬ ((cache i).valid = true ∧ (cache i).ip = ip)) ∧
      ((arpFindSlot cache ip slots slot = slot ∧
          (slot = none → ∀ i ∈ slots, (cache i).valid = true)) ∨
        ∃ i ∈ slots, (cache i).valid = false ∧ arpFindSlot cache ip slots slot = some i) := by
  induction slots generalizing slot with
  | nil =>
      right
      refine ⟨fun i member => ?_, .inl ⟨rfl, fun _ i member => ?_⟩⟩
      · cases member
      · cases member
  | cons first rest ih =>
      rw [arpFindSlot]
      by_cases found : (cache first).valid = true ∧ (cache first).ip = ip
      · rw [if_pos found]
        exact .inl ⟨first, List.mem_cons_self, found.1, found.2, rfl⟩
      · rw [if_neg found]
        by_cases free : (cache first).valid = false ∧ slot = none
        · rw [if_pos free]
          rcases ih (some first) with ⟨i, member, later⟩ | ⟨absent, ⟨is, -⟩ | ⟨i, member, later⟩⟩
          · exact .inl ⟨i, List.mem_cons_of_mem _ member, later⟩
          · exact .inr ⟨List.forall_mem_cons.mpr ⟨found, absent⟩,
              .inr ⟨first, List.mem_cons_self, free.1, is⟩⟩
          · exact .inr ⟨List.forall_mem_cons.mpr ⟨found, absent⟩,
              .inr ⟨i, List.mem_cons_of_mem _ member, later⟩⟩
        · rw [if_neg free]
          rcases ih slot with ⟨i, member, later⟩ | ⟨absent, ⟨is, all⟩ | ⟨i, member, later⟩⟩
          · exact .inl ⟨i, List.mem_cons_of_mem _ member, later⟩
          · refine .inr ⟨List.forall_mem_cons.mpr ⟨found, absent⟩, .inl ⟨is, fun noSlot => ?_⟩⟩
            refine List.forall_mem_cons.mpr ⟨?_, all noSlot⟩
            by_contra invalid
            exact free ⟨Bool.eq_false_iff.mpr invalid, noSlot⟩
          · exact .inr ⟨List.forall_mem_cons.mpr ⟨found, absent⟩,
              .inr ⟨i, List.mem_cons_of_mem _ member, later⟩⟩

/-- An entry goes to the slot of its address; where there is none, to a free one, or to slot 0
when all are taken. -/
theorem arpAddEntry_cases (cache : ArpCache) (ip : Nat) (mac : Nat → UInt8) :
    ∃ slot < arpCacheSize, arpAddEntry cache ip mac =
        Function.update cache slot ⟨ip, copyMac (cache slot).mac mac, true⟩ ∧
      (cache.Holds slot ip ∨ (∀ i, ¬ cache.Holds i ip) ∧
        ((cache slot).valid = false ∨ slot = 0 ∧ cache.FullOfOthers ip)) := by
  rcases @arpFindSlot_cases cache ip (List.range arpCacheSize) none with
    ⟨i, member, valid, same, is⟩ | ⟨absent, ⟨is, all⟩ | ⟨i, member, invalid, is⟩⟩
  · have inside := List.mem_range.mp member
    exact ⟨i, inside, by rw [arpAddEntry, is]; rfl, .inl ⟨inside, valid, same⟩⟩
  · refine ⟨0, by decide, by rw [arpAddEntry, is]; rfl,
      .inr ⟨fun i holds => ?_, .inr ⟨rfl, fun i inside => ?_⟩⟩⟩
    · exact absent i (List.mem_range.mpr holds.1) holds.2
    · have valid := all rfl i (List.mem_range.mpr inside)
      exact ⟨valid, fun same => absent i (List.mem_range.mpr inside) ⟨valid, same⟩⟩
  · have inside := List.mem_range.mp member
    refine ⟨i, inside, by rw [arpAddEntry, is]; rfl, .inr ⟨fun i holds => ?_, .inl invalid⟩⟩
    exact absent i (List.mem_range.mpr holds.1) holds.2

theorem ArpCache.Unique.add (unique : cache.Unique) (ip : Nat) (mac : Nat → UInt8) :
    (arpAddEntry cache ip mac).Unique := by
  obtain ⟨slot, within, added, place⟩ := arpAddEntry_cases cache ip mac
  -- A slot that holds the address is the one that is written.
  have own : ∀ i < arpCacheSize, (cache i).valid = true → (cache i).ip = ip → i = slot := by
    intro i inside valid same
    rcases place with holds | ⟨absent, -⟩
    · exact unique i inside slot within valid holds.2.1 (same.trans holds.2.2.symm)
    · exact absurd ⟨inside, valid, same⟩ (absent i)
  rw [added]
  intro i insideI j insideJ validI validJ same
  by_cases ownI : i = slot
  · by_cases ownJ : j = slot
    · rw [ownI, ownJ]
    · rw [ownI, Function.update_self, Function.update_of_ne ownJ] at same
      rw [Function.update_of_ne ownJ] at validJ
      exact absurd (own j insideJ validJ same.symm) ownJ
  · rw [Function.update_of_ne ownI] at validI same
    by_cases ownJ : j = slot
    · rw [ownJ, Function.update_self] at same
      exact absurd (own i insideI validI same) ownI
    · rw [Function.update_of_ne ownJ] at validJ same
      exact unique i insideI j insideJ validI validJ same

theorem arpRun_unique (calls : List (Nat × (Nat → UInt8))) : (arpRun calls).Unique := by
  unfold arpRun
  induction calls using List.reverseRecOn with
  | nil =>
      intro i _ j _ valid
      cases valid
  | append_singleton calls call ih =>
      rw [List.foldl_append]
      exact ih.add call.1 call.2

/-- With one entry an address at most, a lookup gives that of the slot that holds it. -/
theorem ArpCache.Unique.lookup (unique : cache.Unique) (holds : cache.Holds i ip) :
    arpLookup cache ip = some (macBytes (cache i).mac) := by
  obtain ⟨inside, valid, same⟩ := holds
  rw [arpLookup, Option.map_eq_some_iff]
  have some : ((List.range arpCacheSize).find? fun j =>
      (cache j).valid ∧ (cache j).ip = ip).isSome := by
    rw [List.find?_isSome]
    exact ⟨i, List.mem_range.mpr inside, decide_eq_true ⟨valid, same⟩⟩
  obtain ⟨j, found⟩ := Option.isSome_iff_exists.mp some
  have hit := List.find?_some found
  obtain ⟨validJ, sameJ⟩ := of_decide_eq_true hit
  have insideJ := List.mem_range.mp (List.mem_of_find?_eq_some found)
  obtain rfl := unique i inside j insideJ valid validJ (same.trans sameJ.symm)
  exact ⟨i, found, rfl⟩

theorem arpLookup_none (absent : ∀ i, ¬ cache.Holds i ip) : arpLookup cache ip = none := by
  rw [arpLookup, Option.map_eq_none_iff, List.find?_eq_none]
  intro i member found
  exact absent i ⟨List.mem_range.mp member, of_decide_eq_true found⟩

/-- A lookup of another address sees the new entry only by the one that it takes the place of. -/
theorem ArpCache.Unique.lookup_other (unique : cache.Unique) (mac : Nat → UInt8)
    (different : other ≠ ip) : (cache.FullOfOthers ip ∧ (cache 0).ip = other →
        arpLookup (arpAddEntry cache ip mac) other = none) ∧
      (¬ (cache.FullOfOthers ip ∧ (cache 0).ip = other) →
        arpLookup (arpAddEntry cache ip mac) other = arpLookup cache other) := by
  have later := unique.add ip mac
  obtain ⟨slot, within, added, place⟩ := arpAddEntry_cases cache ip mac
  have kept : ∀ i, i ≠ slot →
      ((arpAddEntry cache ip mac).Holds i other ↔ cache.Holds i other) := by
    intro i away
    rw [added, ArpCache.Holds, Function.update_of_ne away, ArpCache.Holds]
  have notSlot : ∀ i, (arpAddEntry cache ip mac).Holds i other → i ≠ slot := by
    rintro i holds rfl
    rw [added] at holds
    have same := holds.2.2
    rw [Function.update_self] at same
    exact different same.symm
  constructor
  · rintro ⟨full, first⟩
    have isZero : slot = 0 := by
      rcases place with holds | ⟨-, invalid | ⟨zero, -⟩⟩
      · exact absurd holds.2.2 (full slot within).2
      · exact absurd (full slot within).1 (Bool.eq_false_iff.mp invalid)
      · exact zero
    refine arpLookup_none fun i holds => ?_
    have away := notSlot i holds
    obtain ⟨inside, valid, same⟩ := (kept i away).mp holds
    exact away ((unique i inside 0 (by decide) valid (full 0 (by decide)).1
      (same.trans first.symm)).trans isZero.symm)
  · intro stays
    by_cases held : ∃ i, cache.Holds i other
    · obtain ⟨i, holds⟩ := held
      have away : i ≠ slot := by
        rintro rfl
        obtain ⟨-, valid, same⟩ := holds
        rcases place with own | ⟨-, invalid | ⟨rfl, full⟩⟩
        · exact different (same.symm.trans own.2.2)
        · rw [invalid] at valid
          cases valid
        · exact stays ⟨full, same⟩
      rw [unique.lookup holds, later.lookup ((kept i away).mpr holds), added,
        Function.update_of_ne away]
    · rw [arpLookup_none fun i holds => held ⟨i, holds⟩,
        arpLookup_none fun i holds => held ⟨i, (kept i (notSlot i holds)).mp holds⟩]

/-- After any calls no address has two entries, and one more call changes the lookup of its
address, and of the one that it takes the place of when all slots hold others. -/
theorem arp_newest (calls : List (Nat × (Nat → UInt8))) (ip : Nat) (mac : Nat → UInt8) :
    (arpRun calls).Unique ∧
    arpLookup (arpAddEntry (arpRun calls) ip mac) ip = some (macBytes mac) ∧
    ∀ other, other ≠ ip →
      ((arpRun calls).FullOfOthers ip ∧ ((arpRun calls) 0).ip = other →
        arpLookup (arpAddEntry (arpRun calls) ip mac) other = none) ∧
      (¬ ((arpRun calls).FullOfOthers ip ∧ ((arpRun calls) 0).ip = other) →
        arpLookup (arpAddEntry (arpRun calls) ip mac) other = arpLookup (arpRun calls) other) := by
  have unique := arpRun_unique calls
  refine ⟨unique, ?_, fun other different => unique.lookup_other mac different⟩
  obtain ⟨slot, within, added, -⟩ := arpAddEntry_cases (arpRun calls) ip mac
  have holds : (arpAddEntry (arpRun calls) ip mac).Holds slot ip := by
    rw [added]
    exact ⟨within, by rw [Function.update_self], by rw [Function.update_self]⟩
  rw [(unique.add ip mac).lookup holds, added, Function.update_self, macBytes_copyMac]

end ZurichOS
