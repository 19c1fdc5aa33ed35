import ZurichOS.FatImage
import ZurichOS.SuccessorWalk

/-!
When the loops over a directory end: they have no bound of their own, so a cycle of the FAT
in which no entry stops them holds them for ever.
-/

namespace ZurichOS

open ByteBuffer Words SuccessorWalk

variable {fs : Fat32Fs} {d : Disk} {cluster : Nat} {stop hit : Buffer → Bool}

/-- The loop does not go on behind this cluster: it is no cluster that can be read, or one of
its entries stops the scan. -/
def Disk.Ends (d : Disk) (fs : Fat32Fs) (stop : Buffer → Bool) (cluster : Nat) : Prop :=
  cluster < 2 ∨ fat32ClusterEnd ≤ cluster ∨
    ∃ i < fs.entriesPerCluster, stop (direntAt (d.loaded fs cluster) i) = true

/-- The directory runs into a cycle before the scan comes to an entry that stops it. -/
def Disk.Caught (d : Disk) (fs : Fat32Fs) (stop : Buffer → Bool) (cluster : Nat) : Prop :=
  Trapped (d.link fs) (d.Ends fs stop) cluster

def lastEntry (entry : Buffer) : Bool := entry 0 = 0

def lastOrHit (hit : Buffer → Bool) (entry : Buffer) : Bool := lastEntry entry || hit entry

def vacantEntry (entry : Buffer) : Bool := entry 0 = 0 || entry 0 = 0xE5

theorem ends_outside (outside : cluster = 0 ∨ fat32ClusterEnd ≤ cluster) :
    d.Ends fs stop cluster := by
  rcases outside with rfl | beyond
  · exact .inl (by omega)
  · exact .inr (.inl beyond)

theorem ends_iff_not_caught :
    (∃ step, d.Ends fs stop ((d.link fs)^[step] cluster)) ↔ ¬ d.Caught fs stop cluster := by
  apply stops_iff_not_trapped
  apply (Set.finite_lt_nat fat32ClusterEnd).subset
  intro number quiet
  rw [Set.mem_ofPred_eq, Disk.Ends, not_or, not_or, Nat.not_le] at quiet
  exact quiet.2.1

section Walks

theorem scanEntries_more_iff {buf : Buffer} {places : List Nat} :
    (∃ i ∈ places, lastOrHit hit (direntAt buf i) = true) ↔
      scanEntries buf hit places ≠ .more := by
  induction places with
  | nil => simp [scanEntries]
  | cons i rest ih =>
      rw [scanEntries, List.exists_mem_cons_iff, ih]
      by_cases last : buf (32 * i) = 0
      · have isLast : lastEntry (direntAt buf i) = true := decide_eq_true last
        simp [last, lastOrHit, isLast]
      · have notLast : lastEntry (direntAt buf i) = false := decide_eq_false last
        by_cases found : hit (direntAt buf i) = true
        · simp [last, lastOrHit, notLast, found]
        · simp [last, lastOrHit, notLast, found]

theorem ends_iff_scan (readable : 2 ≤ cluster ∧ cluster < fat32ClusterEnd) :
    d.Ends fs (lastOrHit hit) cluster ↔
      scanEntries (d.loaded fs cluster) hit (List.range fs.entriesPerCluster) ≠ .more := by
  rw [← scanEntries_more_iff, Disk.Ends]
  simp only [List.mem_range, Nat.not_lt.mpr readable.1, Nat.not_le.mpr readable.2, false_or]

theorem walkDirectory_turn (steady : d.Steady) (fuel : Nat) :
    (walkDirectory fs hit (fuel + 1) d cluster).isSome = true ↔
      d.Ends fs (lastOrHit hit) cluster ∨
        (walkDirectory fs hit fuel d (d.link fs cluster)).isSome = true := by
  rw [walkDirectory]
  by_cases outside : cluster = 0 ∨ fat32ClusterEnd ≤ cluster
  · rw [if_pos outside]
    simp [ends_outside outside]
  · rw [if_neg outside, steady.readCluster]
    by_cases low : cluster < 2
    · rw [if_pos low]
      simp [Disk.Ends, low]
    · have readable : 2 ≤ cluster ∧ cluster < fat32ClusterEnd := by omega
      rw [if_neg low, ends_iff_scan readable]
      dsimp only
      cases scanEntries (d.loaded fs cluster) hit (List.range fs.entriesPerCluster) with
      | found i => simp
      | last => simp
      | more => simp [steady.nextCluster]

theorem walkDirectory_ends_iff (steady : d.Steady) :
    (∃ fuel, (walkDirectory fs hit fuel d cluster).isSome = true) ↔
      ¬ d.Caught fs (lastOrHit hit) cluster := by
  rw [← ends_iff_not_caught]
  refine @loop_ends_iff _ _ _ _ (fun fuel number =>
    (walkDirectory fs hit fuel d number).isSome = true) ?_ ?_
  · intro number
    simp [walkDirectory]
  · intro fuel number
    exact walkDirectory_turn steady fuel

end Walks

section Lists

theorem listEntries_ended {buf : Buffer} {places : List Nat} :
    (listEntries buf places).2 = true ↔ ∃ i ∈ places, lastEntry (direntAt buf i) = true := by
  induction places with
  | nil => simp [listEntries]
  | cons i rest ih =>
      rw [listEntries, List.exists_mem_cons_iff, ← ih]
      by_cases last : buf (32 * i) = 0
      · have isLast : lastEntry (direntAt buf i) = true := decide_eq_true last
        simp [last, isLast]
      · have notLast : lastEntry (direntAt buf i) = false := decide_eq_false last
        rw [if_neg last, notLast]
        dsimp only
        split <;> simp

theorem listFrom_turn (steady : d.Steady) (fuel : Nat) :
    (listFrom fs (fuel + 1) d cluster).isSome = true ↔
      d.Ends fs lastEntry cluster ∨ (listFrom fs fuel d (d.link fs cluster)).isSome = true := by
  rw [listFrom]
  by_cases outside : cluster = 0 ∨ fat32ClusterEnd ≤ cluster
  · rw [if_pos outside]
    simp [ends_outside outside]
  · rw [if_neg outside, steady.readCluster]
    by_cases low : cluster < 2
    · rw [if_pos low]
      simp [Disk.Ends, low]
    · have ends : d.Ends fs lastEntry cluster ↔
          (listEntries (d.loaded fs cluster) (List.range fs.entriesPerCluster)).2 = true := by
        have beyond : ¬ fat32ClusterEnd ≤ cluster := fun beyond => outside (.inr beyond)
        rw [listEntries_ended, Disk.Ends]
        simp only [List.mem_range, low, beyond, false_or]
      rw [if_neg low, ends]
      dsimp only
      rcases listEntries (d.loaded fs cluster) (List.range fs.entriesPerCluster) with ⟨entries, last⟩
      cases last with
      | true => simp
      | false => simp [steady.nextCluster]

theorem listFrom_ends_iff (steady : d.Steady) :
    (∃ fuel, (listFrom fs fuel d cluster).isSome = true) ↔ ¬ d.Caught fs lastEntry cluster := by
  rw [← ends_iff_not_caught]
  refine @loop_ends_iff _ _ _ _ (fun fuel number =>
    (listFrom fs fuel d number).isSome = true) ?_ ?_
  · intro number
    simp [listFrom]
  · intro fuel number
    exact listFrom_turn steady fuel

end Lists

section Create

variable {name83 : List UInt8} {attr : UInt8}

theorem writeSectors_zero (steady : d.Steady) (lba left i : Nat) :
    ∃ after, writeSectors fs lba (fun _ => 0) left i d = (true, after) ∧ after.Steady ∧
      (∀ sector, after.sectors sector = d.sectors sector ∨ after.sectors sector = fun _ => 0) ∧
      ∀ part, i ≤ part → part < i + left →
        after.sectors (u32 (fs.partitionLba + lba + part) % ataAddressable) = fun _ => 0 := by
  induction left generalizing i d with
  | zero =>
      refine ⟨d, rfl, steady, fun _ => .inl rfl, ?_⟩
      intro part lower upper
      omega
  | succ left ih =>
      rw [writeSectors, steady.write]
      obtain ⟨after, result, keeps, others, zeroed⟩ := ih (steady.put _ _) (i + 1)
      have first : (d.put (u32 (fs.partitionLba + lba + i) % ataAddressable) fun _ => 0).sectors
          (u32 (fs.partitionLba + lba + i) % ataAddressable) = fun _ => 0 :=
        Function.update_self ..
      refine ⟨after, result, keeps, fun sector => ?_, fun part lower upper => ?_⟩
      · by_cases here : sector = u32 (fs.partitionLba + lba + i) % ataAddressable
        · right
          rcases others sector with same | isZero
          · rw [same, here, first]
          · exact isZero
        · rcases others sector with same | isZero
          · left
            rw [same]
            exact Function.update_of_ne here ..
          · exact .inr isZero
      · by_cases here : part = i
        · rw [here]
          rcases others (u32 (fs.partitionLba + lba + i) % ataAddressable) with same | isZero
          · rw [same, first]
          · exact isZero
        · exact zeroed part (by omega) (by omega)

theorem writeCluster_zero (steady : d.Steady) (valid : 2 ≤ cluster) :
    ∃ after, fat32WriteCluster fs d cluster (fun _ => 0) = (true, after) ∧ after.Steady ∧
      ∀ i, after.loaded fs cluster i = 0 := by
  obtain ⟨after, result, keeps, _, zeroed⟩ :=
    @writeSectors_zero fs d steady (clusterToLba fs cluster) fs.sectorsPerCluster 0
  refine ⟨after, ?_, keeps, fun i => ?_⟩
  · rw [fat32WriteCluster, if_neg (by omega), result]
  · rw [Disk.loaded, Fat32Fs.clusterSize]
    split
    · rename_i inside
      exact congrFun (zeroed (i / 512) (Nat.zero_le _) (by omega)) (i % 512)
    · rfl

theorem allocFrom_steady (steady : d.Steady) (left first : Nat) :
    ∃ new after, allocFrom fs left first d = (new, after) ∧ after.Steady ∧
      (new = 0 ∨ first ≤ new) := by
  induction left generalizing first with
  | zero => exact ⟨0, d, rfl, steady, .inl rfl⟩
  | succ left ih =>
      rw [allocFrom, fat32ReadSectorInternal, readSector_eq, if_pos (steady 0), steady.advance]
      dsimp only
      split
      · rw [fat32WriteSectorInternal, steady.write]
        exact ⟨first, _, rfl, steady.put _ _, .inr (Nat.le_refl _)⟩
      · obtain ⟨new, after, result, keeps, place⟩ := ih (first + 1)
        exact ⟨new, after, result, keeps, place.imp_right fun above => by omega⟩

theorem freeEntry_isSome {buf : Buffer} : (freeEntry fs buf).isSome = true ↔
    ∃ i < fs.entriesPerCluster, vacantEntry (direntAt buf i) = true := by
  rw [freeEntry, List.find?_isSome]
  simp only [List.mem_range]
  rfl

theorem createFrom_ends (steady : d.Steady) (fuel : Nat) (ends : d.Ends fs vacantEntry cluster) :
    (createFrom fs name83 attr (fuel + 1) d cluster).isSome = true := by
  rw [createFrom]
  by_cases outside : cluster = 0 ∨ fat32ClusterEnd ≤ cluster
  · rw [if_pos outside]
    rfl
  · rw [if_neg outside, steady.readCluster]
    by_cases low : cluster < 2
    · rw [if_pos low]
      rfl
    · have beyond : ¬ fat32ClusterEnd ≤ cluster := fun beyond => outside (.inr beyond)
      obtain ⟨i, found⟩ := Option.isSome_iff_exists.mp
        (freeEntry_isSome.mpr ((ends.resolve_left low).resolve_left beyond))
      rw [if_neg low]
      dsimp only
      rw [found]
      rfl

/-- A cluster of zeros has a free entry. -/
theorem createFrom_zero (steady : d.Steady) (positive : 0 < fs.sectorsPerCluster)
    (zero : ∀ i, d.loaded fs cluster i = 0) :
    (createFrom fs name83 attr 1 d cluster).isSome = true := by
  have room : 0 < fs.entriesPerCluster := by
    unfold Fat32Fs.entriesPerCluster Fat32Fs.clusterSize
    omega
  exact createFrom_ends steady 0 (.inr (.inr ⟨0, room, by simp [vacantEntry, direntAt, zero]⟩))

/-- A full cluster is left behind with the disk as it was. -/
theorem createFrom_full (steady : d.Steady) (fuel : Nat)
    (quiet : ¬ d.Ends fs vacantEntry cluster) :
    createFrom fs name83 attr (fuel + 1) d cluster =
      if d.link fs cluster = 0 then
        let (next, d) := fat32AllocCluster fs d
        if next = 0 then some (-2, 0, d)
        else
          let (_, d) := fat32SetCluster fs d cluster next
          let (_, d) := fat32WriteCluster fs d next (fun _ => 0)
          createFrom fs name83 attr fuel d next
      else createFrom fs name83 attr fuel d (d.link fs cluster) := by
  have full : freeEntry fs (d.loaded fs cluster) = none := by
    rw [← Option.not_isSome_iff_eq_none, freeEntry_isSome]
    exact fun vacant => quiet (.inr (.inr vacant))
  have outside : ¬ (cluster = 0 ∨ fat32ClusterEnd ≤ cluster) := fun outside =>
    quiet (ends_outside outside)
  have low : ¬ cluster < 2 := fun low => quiet (.inl low)
  rw [createFrom, if_neg outside, steady.readCluster, if_neg low]
  dsimp only
  rw [full]
  dsimp only
  rw [steady.nextCluster]

theorem createFrom_onward (steady : d.Steady) (fuel : Nat)
    (quiet : ¬ d.Ends fs vacantEntry cluster) (linked : d.link fs cluster ≠ 0) :
    createFrom fs name83 attr (fuel + 1) d cluster =
      createFrom fs name83 attr fuel d (d.link fs cluster) := by
  rw [createFrom_full steady fuel quiet, if_neg linked]

/-- At the end of its clusters the directory gets one more, or the disk is full. -/
theorem createFrom_grows (steady : d.Steady) (positive : 0 < fs.sectorsPerCluster)
    (quiet : ¬ d.Ends fs vacantEntry cluster) (last : d.link fs cluster = 0) :
    (createFrom fs name83 attr 2 d cluster).isSome = true := by
  rw [createFrom_full steady 1 quiet, if_pos last]
  obtain ⟨new, taken, allocated, keeps, place⟩ :=
    @allocFrom_steady fs d steady (u32 (fs.totalClusters + 2) - 2) 2
  rw [fat32AllocCluster, allocated]
  dsimp only
  by_cases none : new = 0
  · rw [if_pos none]
    rfl
  · rw [if_neg none, keeps.setCluster]
    obtain ⟨zeroed, wrote, still, zero⟩ := writeCluster_zero (keeps.put _ _) (place.resolve_left none)
    dsimp only
    rw [wrote]
    exact createFrom_zero still positive zero

theorem createFrom_ends_iff (steady : d.Steady) (positive : 0 < fs.sectorsPerCluster) :
    (∃ fuel, (createFrom fs name83 attr fuel d cluster).isSome = true) ↔
      ¬ d.Caught fs vacantEntry cluster := by
  rw [← ends_iff_not_caught]
  constructor
  · rintro ⟨fuel, ended⟩
    induction fuel generalizing cluster with
    | zero => exact absurd ended Bool.false_ne_true
    | succ fuel ih =>
        by_cases ends : d.Ends fs vacantEntry cluster
        · exact ⟨0, ends⟩
        · by_cases last : d.link fs cluster = 0
          · refine ⟨1, ?_⟩
            rw [Function.iterate_one, last]
            exact ends_outside (.inl rfl)
          · rw [createFrom_onward steady fuel ends last] at ended
            obtain ⟨step, later⟩ := ih ended
            exact ⟨step + 1, later⟩
  · rintro ⟨step, ended⟩
    induction step generalizing cluster with
    | zero => exact ⟨1, createFrom_ends steady 0 ended⟩
    | succ step ih =>
        by_cases ends : d.Ends fs vacantEntry cluster
        · exact ⟨1, createFrom_ends steady 0 ends⟩
        · by_cases last : d.link fs cluster = 0
          · exact ⟨2, createFrom_grows steady positive ends last⟩
          · obtain ⟨fuel, later⟩ := ih ended
            refine ⟨fuel + 1, ?_⟩
            rw [createFrom_onward steady fuel ends last]
            exact later

end Create

section Calls

variable {name : List UInt8} {attr : UInt8} {newSize newCluster : Nat}

@[simp] theorem caught_granted : d.granted.Caught fs stop cluster ↔ d.Caught fs stop cluster :=
  Iff.rfl

theorem listDir_ends_iff (steady : d.Steady) :
    (∃ fuel, (fat32ListDir fs fuel d cluster).isSome = true) ↔
      d.memory 0 = false ∨ ¬ d.Caught fs lastEntry cluster := by
  simp only [fat32ListDir, kmalloc_eq]
  cases d.memory 0 with
  | false => simp
  | true => simpa using @listFrom_ends_iff fs _ cluster steady.granted

theorem findEntry_ends_iff (steady : d.Steady) :
    (∃ fuel, (fat32FindEntry fs fuel d cluster name).isSome = true) ↔
      d.memory 0 = false ∨ ¬ d.Caught fs (lastOrHit (findsEntry name)) cluster := by
  simp only [fat32FindEntry, kmalloc_eq]
  cases d.memory 0 with
  | false => simp
  | true => simpa using @walkDirectory_ends_iff fs _ cluster (findsEntry name) steady.granted

theorem updateEntrySize_ends_iff (steady : d.Steady) :
    (∃ fuel, (fat32UpdateEntrySize fs fuel d cluster name newSize newCluster).isSome = true) ↔
      d.memory 0 = false ∨
        ¬ d.Caught fs (lastOrHit (updatesEntry (fat32NameTo83 name))) cluster := by
  simp only [fat32UpdateEntrySize, kmalloc_eq]
  cases d.memory 0 with
  | false => simp
  | true => simpa using @walkDirectory_ends_iff fs _ cluster (updatesEntry (fat32NameTo83 name)) steady.granted

theorem createEntry_ends_iff (steady : d.Steady) (positive : 0 < fs.sectorsPerCluster) :
    (∃ fuel, (fat32CreateEntry fs fuel d cluster name attr).isSome = true) ↔
      d.memory 0 = false ∨ ¬ d.Caught fs vacantEntry cluster := by
  simp only [fat32CreateEntry, kmalloc_eq]
  cases d.memory 0 with
  | false => simp
  | true =>
      simpa using @createFrom_ends_iff fs _ cluster (fat32NameTo83 name) attr steady.granted positive

/-- On every image, each scan ends exactly if there is no memory for its buffer or the
directory does not run into a cycle before an entry stops the scan. -/
theorem scans_end_iff (steady : d.Steady) (positive : 0 < fs.sectorsPerCluster) (cluster : Nat)
    (name : List UInt8) (attr : UInt8) (newSize newCluster : Nat) :
    ((∃ fuel, (fat32ListDir fs fuel d cluster).isSome = true) ↔
      d.memory 0 = false ∨ ¬ d.Caught fs lastEntry cluster) ∧
    ((∃ fuel, (fat32FindEntry fs fuel d cluster name).isSome = true) ↔
      d.memory 0 = false ∨ ¬ d.Caught fs (lastOrHit (findsEntry name)) cluster) ∧
    ((∃ fuel, (fat32CreateEntry fs fuel d cluster name attr).isSome = true) ↔
      d.memory 0 = false ∨ ¬ d.Caught fs vacantEntry cluster) ∧
    ((∃ fuel, (fat32UpdateEntrySize fs fuel d cluster name newSize newCluster).isSome = true) ↔
      d.memory 0 = false ∨
        ¬ d.Caught fs (lastOrHit (updatesEntry (fat32NameTo83 name))) cluster) :=
  ⟨listDir_ends_iff steady, findEntry_ends_iff steady, createEntry_ends_iff steady positive,
    updateEntrySize_ends_iff steady⟩

end Calls

theorem cyclicDisk_caught {stop : Buffer → Bool}
    (quiet : ∀ number ∈ [2, 3], ∀ i < 16,
      stop (direntAt (cyclicDisk.loaded emptyVolume number) i) = false) :
    cyclicDisk.Caught emptyVolume stop 2 := by
  have free : ∀ number ∈ [2, 3], ¬ cyclicDisk.Ends emptyVolume stop number := by
    rintro number member (low | beyond | ⟨i, inside, stopped⟩)
    · revert number
      decide
    · revert number
      decide
    · rw [quiet number member i inside] at stopped
      cases stopped
  refine ⟨0, 2, by omega, by decide, fun step below => ?_⟩
  have walked : (cyclicDisk.link emptyVolume)^[step] 2 ∈ [2, 3] := by
    revert step
    decide
  exact free _ walked

/-- In a root directory whose two clusters follow each other in turn, no scan ends. -/
theorem cyclic_scans_hang :
    (¬ ∃ fuel, (fat32ListDir emptyVolume fuel cyclicDisk 2).isSome = true) ∧
    (¬ ∃ fuel, (fat32FindEntry emptyVolume fuel cyclicDisk 2 [0x42]).isSome = true) ∧
    (¬ ∃ fuel, (fat32CreateEntry emptyVolume fuel cyclicDisk 2 [0x42] fat32AttrArchive).isSome =
      true) ∧
    ¬ ∃ fuel, (fat32UpdateEntrySize emptyVolume fuel cyclicDisk 2 [0x42] 1 0).isSome = true := by
  have steady : cyclicDisk.Steady := fun _ => rfl
  have memory : ¬ cyclicDisk.memory 0 = false := by decide
  refine ⟨?_, ?_, ?_, ?_⟩
  · rw [listDir_ends_iff steady]
    exact not_or.mpr ⟨memory, not_not.mpr (cyclicDisk_caught (by decide))⟩
  · rw [findEntry_ends_iff steady]
    exact not_or.mpr ⟨memory, not_not.mpr (cyclicDisk_caught (by decide))⟩
  · rw [createEntry_ends_iff steady (by decide)]
    exact not_or.mpr ⟨memory, not_not.mpr (cyclicDisk_caught (by decide))⟩
  · rw [updateEntrySize_ends_iff steady]
    exact not_or.mpr ⟨memory, not_not.mpr (cyclicDisk_caught (by decide))⟩

/-- Cluster 4 of the same disk is full as well, and has no successor. -/
theorem scans_end_iff_full :
    (∃ fuel, (fat32ListDir emptyVolume fuel cyclicDisk 4).isSome = true) ∧
    (∃ fuel, (fat32FindEntry emptyVolume fuel cyclicDisk 4 [0x42]).isSome = true) ∧
    (∃ fuel, (fat32CreateEntry emptyVolume fuel cyclicDisk 4 [0x42] fat32AttrArchive).isSome =
      true) ∧
    ∃ fuel, (fat32UpdateEntrySize emptyVolume fuel cyclicDisk 4 [0x42] 1 0).isSome = true := by
  have loose : ∀ stop : Buffer → Bool, ¬ cyclicDisk.Caught emptyVolume stop 4 := by
    intro stop
    have next : (cyclicDisk.link emptyVolume)^[1] 4 = 0 := by decide
    exact ends_iff_not_caught.mp ⟨1, ends_outside (.inl next)⟩
  obtain ⟨list, find, create, update⟩ := @scans_end_iff emptyVolume cyclicDisk (fun _ => rfl) (by decide) 4
    [0x42] fat32AttrArchive 1 0
  exact ⟨list.mpr (.inr (loose _)), find.mpr (.inr (loose _)), create.mpr (.inr (loose _)),
    update.mpr (.inr (loose _))⟩

end ZurichOS
