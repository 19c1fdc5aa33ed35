import ZurichOS.FatImage
import ZurichOS.SuccessorWalk
import Mathlib.Data.Finset.Card
import Mathlib.Order.Interval.Finset.Nat

/-!
`fat32_free_cluster_chain` on any FAT: it follows the entries while it clears them, so a
cycle ends at an entry that is clear already.
-/

namespace ZurichOS

open ByteBuffer Words SuccessorWalk

variable {fs : Fat32Fs} {d : Disk} {cluster start : Nat}

/-- The cluster after this one, where its entry has one. -/
def Disk.onward (d : Disk) (fs : Fat32Fs) (cluster : Nat) : Option Nat :=
  if cluster < fat32ClusterEnd ∧ 2 ≤ d.link fs cluster then some (d.link fs cluster) else none

/-- The clusters from `start` on, along the entries up to a value below 2 or an end mark. -/
def Disk.Met (d : Disk) (fs : Fat32Fs) (start cluster : Nat) : Prop :=
  (2 ≤ start ∧ start < fat32ClusterEnd) ∧ Reaches (d.onward fs) start cluster

/-- The byte of the drive belongs to the cluster's entry. -/
def Fat32Fs.InEntry (fs : Fat32Fs) (cluster lba position : Nat) : Prop :=
  fs.entryLba cluster = lba ∧ entryOffset cluster ≤ position ∧ position < entryOffset cluster + 4

def Disk.clearEntry (d : Disk) (fs : Fat32Fs) (cluster : Nat) : Disk :=
  (fat32SetCluster fs d cluster 0).2

section Clearing

theorem clearEntry_eq (steady : d.Steady) : d.clearEntry fs cluster =
    d.put (fs.entryLba cluster) (putBytes (d.sectors (fs.entryLba cluster)) (entryOffset cluster)
      (le32 (d.entryWord fs cluster &&& 0xF0000000))) := by
  rw [Disk.clearEntry, steady.setCluster, Nat.zero_and, Nat.or_zero]

theorem clearEntry_steady (steady : d.Steady) : (d.clearEntry fs cluster).Steady := by
  rw [clearEntry_eq steady]
  exact steady.put _ _

theorem clearEntry_word (steady : d.Steady) {other : Nat} (valid : cluster < fat32ClusterEnd)
    (validOther : other < fat32ClusterEnd) : (d.clearEntry fs cluster).entryWord fs other =
      if other = cluster then d.entryWord fs cluster &&& 0xF0000000 else d.entryWord fs other := by
  have small : d.entryWord fs cluster &&& 0xF0000000 < 4294967296 :=
    Nat.lt_of_le_of_lt Nat.and_le_right (by decide)
  have below : ∀ number < fat32ClusterEnd, number < 268435456 := fun _ under =>
    Nat.lt_trans under (by decide)
  rw [clearEntry_eq steady, entryWord_put (below _ valid) (below _ validOther),
    Nat.mod_eq_of_lt small]

theorem clearEntry_outside (steady : d.Steady) {lba position : Nat}
    (outside : ¬ fs.InEntry cluster lba position) :
    (d.clearEntry fs cluster).sectors lba position = d.sectors lba position := by
  rw [clearEntry_eq steady, Disk.put]
  dsimp only
  by_cases here : lba = fs.entryLba cluster
  · rw [here, Function.update_self, putBytes_outside]
    rw [le32_length]
    by_contra inside
    exact outside ⟨here.symm, by omega, by omega⟩
  · rw [Function.update_of_ne here]

theorem clearEntry_link (steady : d.Steady) {other : Nat} (valid : cluster < fat32ClusterEnd)
    (validOther : other < fat32ClusterEnd) :
    (d.clearEntry fs cluster).link fs other = if other = cluster then 0 else d.link fs other := by
  rw [Disk.link, clearEntry_word steady valid validOther]
  by_cases same : other = cluster
  · have clear : d.entryWord fs cluster &&& (0xF0000000 &&& 0x0FFFFFFF) = 0 := Nat.and_zero _
    rw [if_pos same, if_pos same, Nat.and_assoc, clear]
    rfl
  · rw [if_neg same, if_neg same]
    rfl

theorem clearEntry_onward (steady : d.Steady) (valid : cluster < fat32ClusterEnd) :
    (d.clearEntry fs cluster).onward fs = Function.update (d.onward fs) cluster none := by
  funext other
  by_cases validOther : other < fat32ClusterEnd
  · rw [Disk.onward, clearEntry_link steady valid validOther]
    by_cases same : other = cluster
    · simp [same]
    · rw [Function.update_of_ne same, if_neg same]
      rfl
  · have different : other ≠ cluster := fun same => validOther (same ▸ valid)
    rw [Function.update_of_ne different, Disk.onward, Disk.onward, if_neg fun both => validOther both.1,
      if_neg fun both => validOther both.1]

end Clearing

/-- The clusters whose entries lead on. -/
def Disk.linked (d : Disk) (fs : Fat32Fs) : Finset Nat :=
  (Finset.range fat32ClusterEnd).filter fun cluster => (d.onward fs cluster).isSome

theorem linked_clearEntry (steady : d.Steady) (valid : cluster < fat32ClusterEnd) {next : Nat}
    (leads : d.onward fs cluster = some next) :
    ((d.clearEntry fs cluster).linked fs).card < (d.linked fs).card := by
  apply Finset.card_lt_card
  rw [Finset.ssubset_iff_of_subset]
  · refine ⟨cluster, ?_, ?_⟩
    · simp [Disk.linked, valid, leads]
    · simp [Disk.linked, clearEntry_onward steady valid]
  · intro other member
    rw [Disk.linked, Finset.mem_filter, clearEntry_onward steady valid] at member
    rw [Disk.linked, Finset.mem_filter]
    refine ⟨member.1, ?_⟩
    by_cases same : other = cluster
    · rw [same, leads]
      rfl
    · rw [Function.update_of_ne same] at member
      exact member.2

/-- What freeing has done: the entries met are clear, and every other byte is as it was. -/
structure Freed (fs : Fat32Fs) (d after : Disk) (met : Nat → Prop) : Prop where
  entries : ∀ cluster, met cluster →
    after.entryWord fs cluster = d.entryWord fs cluster &&& 0xF0000000
  others : ∀ lba position, (∀ cluster, met cluster → ¬ fs.InEntry cluster lba position) →
    after.sectors lba position = d.sectors lba position

theorem inEntry_apart {other lba position : Nat} (valid : cluster < fat32ClusterEnd)
    (validOther : other < fat32ClusterEnd) (inside : fs.InEntry cluster lba position)
    (insideOther : fs.InEntry other lba position) : other = cluster := by
  obtain ⟨place, lower, upper⟩ := inside
  obtain ⟨placeOther, lowerOther, upperOther⟩ := insideOther
  have near : fs.entryLba other = fs.entryLba cluster := placeOther.trans place.symm
  change cluster < 268435448 at valid
  change other < 268435448 at validOther
  unfold Fat32Fs.entryLba fatSector ataAddressable u32 at near
  unfold entryOffset u32 at lower upper lowerOther upperOther
  omega

theorem Freed.word {after : Disk} {met : Nat → Prop} (freed : Freed fs d after met)
    (small : ∀ other, met other → other < fat32ClusterEnd) (valid : cluster < fat32ClusterEnd)
    (unmet : ¬ met cluster) : after.entryWord fs cluster = d.entryWord fs cluster := by
  apply word32_congr
  intro i below
  apply freed.others
  intro other isMet inside
  have same := inEntry_apart (small other isMet) valid inside ⟨rfl, by omega, by omega⟩
  exact unmet (same ▸ isMet)

theorem reaches_valid (valid : start < fat32ClusterEnd)
    (reached : Reaches (d.onward fs) start cluster) : cluster < fat32ClusterEnd := by
  induction reached with
  | refl => exact valid
  | tail _ leads _ =>
      rw [Disk.onward] at leads
      split at leads
      · cases leads
        exact link_lt
      · cases leads

theorem met_valid (met : d.Met fs start cluster) : cluster < fat32ClusterEnd :=
  reaches_valid met.1.2 met.2

/-- Clearing the first entry, and then those that are met from its successor on. -/
theorem Freed.first {after : Disk} (steady : d.Steady) (valid : start < fat32ClusterEnd)
    {met : Nat → Prop} (small : ∀ other, met other → other < fat32ClusterEnd)
    (rest : Freed fs (d.clearEntry fs start) after met) :
    Freed fs d after fun cluster => cluster = start ∨ met cluster := by
  have cleared : ∀ other < fat32ClusterEnd, (d.clearEntry fs start).entryWord fs other =
      if other = start then d.entryWord fs start &&& 0xF0000000 else d.entryWord fs other :=
    fun other below => clearEntry_word steady valid below
  constructor
  · intro cluster isMet
    by_cases again : met cluster
    · rw [rest.entries cluster again, cleared cluster (small cluster again)]
      by_cases same : cluster = start
      · rw [if_pos same, Nat.and_assoc, same]
        rfl
      · rw [if_neg same]
    · obtain rfl := isMet.resolve_right again
      rw [rest.word small valid again, cleared cluster valid, if_pos rfl]
  · intro lba position outside
    rw [rest.others lba position fun cluster isMet => outside cluster (.inr isMet)]
    exact clearEntry_outside steady (outside start (.inl rfl))

theorem Freed.none : Freed fs d d fun _ => False :=
  ⟨fun _ met => met.elim, fun _ _ _ => rfl⟩

theorem Freed.congr {after : Disk} {met other : Nat → Prop} (freed : Freed fs d after met)
    (same : ∀ cluster, other cluster ↔ met cluster) : Freed fs d after other := by
  obtain rfl : other = met := funext fun cluster => propext (same cluster)
  exact freed

section Loop

theorem freeChain_stop {fuel : Nat} (outside : ¬ (2 ≤ start ∧ start < fat32ClusterEnd)) :
    fat32FreeClusterChain fs (fuel + 1) d start = some d := by
  rw [fat32FreeClusterChain, if_neg outside]

theorem freeChain_turn {fuel : Nat} (steady : d.Steady)
    (valid : 2 ≤ start ∧ start < fat32ClusterEnd) :
    fat32FreeClusterChain fs (fuel + 1) d start =
      fat32FreeClusterChain fs fuel (d.clearEntry fs start) (d.link fs start) := by
  rw [fat32FreeClusterChain, if_pos valid, steady.nextCluster]
  rfl

theorem freeChain_freed (steady : d.Steady) (valid : 2 ≤ start ∧ start < fat32ClusterEnd) :
    ∃ enough after, (∀ fuel ≥ enough, fat32FreeClusterChain fs fuel d start = some after) ∧
      Freed fs d after (Reaches (d.onward fs) start) := by
  induction bound : (d.linked fs).card using Nat.strong_induction_on generalizing d start with
  | _ count ih =>
      have cleared : (d.clearEntry fs start).Steady := clearEntry_steady steady
      cases leads : d.onward fs start with
      | none =>
          -- the entry leads nowhere: after it the loop ends
          have ends : ¬ (2 ≤ d.link fs start ∧ d.link fs start < fat32ClusterEnd) := by
            intro onward
            rw [Disk.onward, if_pos ⟨valid.2, onward.1⟩] at leads
            cases leads
          refine ⟨2, d.clearEntry fs start, fun fuel enough => ?_, ?_⟩
          · obtain ⟨more, rfl⟩ : ∃ more, fuel = more + 2 := ⟨fuel - 2, by omega⟩
            rw [freeChain_turn steady valid, freeChain_stop ends]
          · refine (Freed.first steady valid.2 (fun _ met => met.elim) Freed.none).congr ?_
            intro cluster
            rw [reaches_none leads, or_false]
      | some next =>
          have isNext : d.link fs start = next ∧ 2 ≤ next := by
            rw [Disk.onward] at leads
            split at leads
            · rename_i both
              obtain rfl := Option.some.inj leads
              exact ⟨rfl, both.2⟩
            · cases leads
          have validNext : 2 ≤ next ∧ next < fat32ClusterEnd := ⟨isNext.2, isNext.1 ▸ link_lt⟩
          have fewer := linked_clearEntry steady valid.2 leads
          rw [bound] at fewer
          obtain ⟨enough, after, ended, freed⟩ := ih _ fewer cleared validNext rfl
          refine ⟨enough + 1, after, fun fuel above => ?_, ?_⟩
          · obtain ⟨more, rfl⟩ : ∃ more, fuel = more + 1 := ⟨fuel - 1, by omega⟩
            rw [freeChain_turn steady valid, isNext.1]
            exact ended more (by omega)
          · refine (Freed.first steady valid.2 ?_ freed).congr ?_
            · exact fun other reached => reaches_valid validNext.2 reached
            · intro cluster
              rw [reaches_some leads, clearEntry_onward steady valid.2]

end Loop

/-- Freeing ends on every FAT.  It clears the entries that can be met from the start, keeps
their reserved high bits, and changes no other byte of the drive. -/
theorem free_chain_exact (steady : d.Steady) (start : Nat) :
    ∃ enough after, (∀ fuel ≥ enough, fat32FreeClusterChain fs fuel d start = some after) ∧
      Freed fs d after (d.Met fs start) ∧
      ∀ cluster < fat32ClusterEnd, ¬ d.Met fs start cluster →
        after.entryWord fs cluster = d.entryWord fs cluster := by
  by_cases valid : 2 ≤ start ∧ start < fat32ClusterEnd
  · obtain ⟨enough, after, ended, freed⟩ := @freeChain_freed fs d start steady valid
    have met : Freed fs d after (d.Met fs start) := freed.congr fun cluster => and_iff_right valid
    refine ⟨enough, after, ended, met, fun cluster below unmet => ?_⟩
    exact met.word (fun other isMet => met_valid isMet) below unmet
  · refine ⟨1, d, fun fuel enough => ?_, ?_, fun _ _ _ => rfl⟩
    · obtain ⟨more, rfl⟩ : ∃ more, fuel = more + 1 := ⟨fuel - 1, by omega⟩
      exact freeChain_stop valid
    · exact Freed.none.congr fun cluster => iff_of_false (fun met => valid met.1) id

theorem free_chain_exact_cycle :
    ∃ enough after,
      (∀ fuel ≥ enough, fat32FreeClusterChain emptyVolume fuel cyclicDisk 2 = some after) ∧
      after.entryWord emptyVolume 2 = 0 ∧ after.entryWord emptyVolume 3 = 0 := by
  obtain ⟨enough, after, ended, freed, _⟩ := @free_chain_exact emptyVolume cyclicDisk (fun _ => rfl) 2
  have valid : 2 ≤ 2 ∧ 2 < fat32ClusterEnd := by decide
  have leads : cyclicDisk.onward emptyVolume 2 = some 3 := by decide
  refine ⟨enough, after, ended, ?_, ?_⟩
  · rw [freed.entries 2 ⟨valid, .refl⟩]
    decide
  · rw [freed.entries 3 ⟨valid, .single leads⟩]
    decide

end ZurichOS
