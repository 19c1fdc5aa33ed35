import ZurichOS.FatImage
import ZurichOS.LinkedChains

set_option linter.all false

/-!
A FAT volume as a table of entries and the contents of its clusters.  While transfers
succeed, the operations on clusters read and write exactly these.
-/

namespace ZurichOS

open ByteBuffer Words LinkedChains

/-- The 28-bit entries of the FAT and the bytes of the clusters. -/
@[ext] structure FatView where
  entry : Nat → Nat
  data : Nat → Nat → UInt8

def FatView.setEntry (w : FatView) (cluster value : Nat) : FatView :=
  { w with entry := Function.update w.entry cluster value }

def FatView.setData (w : FatView) (cluster : Nat) (bytes : Nat → UInt8) : FatView :=
  { w with data := Function.update w.data cluster bytes }

/-- All transfers and allocations to come succeed. -/
structure Disk.Reliable (d : Disk) : Prop where
  transfers : ∀ n, d.transfers n = true
  memory : ∀ n, d.memory n = true

/-- The FAT has an entry for each cluster, the data area follows it, and both lie in the
sectors that the drive's commands address. -/
structure Fat32Fs.Sound (fs : Fat32Fs) : Prop where
  sectorsPerCluster : 0 < fs.sectorsPerCluster
  entries : (fs.totalClusters + 2) * 4 ≤ fs.fatSize * 512
  data : fs.fatStartLba + fs.fatSize ≤ fs.dataStartLba
  addressable : fs.partitionLba + fs.dataStartLba + fs.totalClusters * fs.sectorsPerCluster ≤
    ataAddressable

def Fat32Fs.fatLba (fs : Fat32Fs) (cluster : Nat) : Nat :=
  fs.partitionLba + fs.fatStartLba + cluster / 128

def Fat32Fs.dataLba (fs : Fat32Fs) (cluster : Nat) : Nat :=
  fs.partitionLba + fs.dataStartLba + (cluster - 2) * fs.sectorsPerCluster

def Fat32Fs.HasCluster (fs : Fat32Fs) (cluster : Nat) : Prop :=
  2 ≤ cluster ∧ cluster < fs.totalClusters + 2

instance (fs : Fat32Fs) (cluster : Nat) : Decidable (fs.HasCluster cluster) :=
  inferInstanceAs (Decidable (_ ∧ _))

def Disk.view (d : Disk) (fs : Fat32Fs) : FatView where
  entry cluster :=
    if cluster < fs.totalClusters + 2 then
      word32 (d.sectors (fs.fatLba cluster)) (cluster % 128 * 4) % 268435456
    else 0
  data cluster i :=
    if fs.HasCluster cluster ∧ i < fs.clusterSize then
      d.sectors (fs.dataLba cluster + i / 512) (i % 512)
    else 0

section Transfers

variable {d : Disk} {lba : Nat}

theorem Disk.Reliable.transfer (reliable : d.Reliable) : d.transfer = (true, d) := by
  have later : (fun n => d.transfers (n + 1)) = d.transfers := by
    funext n
    rw [reliable.transfers, reliable.transfers]
  rw [Disk.transfer, reliable.transfers, later]

theorem Disk.Reliable.kmalloc (reliable : d.Reliable) : d.kmalloc = (true, d) := by
  have later : (fun n => d.memory (n + 1)) = d.memory := by
    funext n
    rw [reliable.memory, reliable.memory]
  rw [Disk.kmalloc, reliable.memory, later]

theorem Disk.Reliable.steady (reliable : d.Reliable) : d.Steady := reliable.transfers

theorem Disk.Reliable.put (reliable : d.Reliable) (buf : Buffer) : (d.put lba buf).Reliable :=
  ⟨reliable.transfers, reliable.memory⟩

theorem Disk.Reliable.read (reliable : d.Reliable) (inside : lba < ataAddressable) :
    ataReadSector d lba = (some (d.sectors lba), d) := by
  rw [ataReadSector, reliable.transfer, Nat.mod_eq_of_lt inside]
  rfl

theorem Disk.Reliable.write (reliable : d.Reliable) (inside : lba < ataAddressable)
    (buf : Buffer) : ataWriteSector d lba buf = (true, d.put lba buf) := by
  rw [ataWriteSector, reliable.transfer, Nat.mod_eq_of_lt inside]
  rfl

end Transfers

section Geometry

variable {fs : Fat32Fs} {cluster : Nat}

theorem Fat32Fs.Sound.fatLba_lt (sound : fs.Sound) (inside : cluster < fs.totalClusters + 2) :
    fs.fatLba cluster < fs.partitionLba + fs.dataStartLba := by
  have entries := sound.entries
  have data := sound.data
  unfold Fat32Fs.fatLba
  omega

theorem Fat32Fs.Sound.clusters_lt (sound : fs.Sound) : fs.totalClusters + 2 < 0x0FFFFFF0 := by
  have entries := sound.entries
  have data := sound.data
  have addressable : fs.partitionLba + fs.dataStartLba +
    fs.totalClusters * fs.sectorsPerCluster ≤ 268435456 := sound.addressable
  have spread : fs.totalClusters ≤ fs.totalClusters * fs.sectorsPerCluster :=
    Nat.le_mul_of_pos_right _ sound.sectorsPerCluster
  omega

theorem Fat32Fs.HasCluster.below (sound : fs.Sound) (has : fs.HasCluster cluster) :
    ¬ (cluster = 0 ∨ fat32ClusterEnd ≤ cluster) := by
  obtain ⟨lower, upper⟩ := has
  have clusters := sound.clusters_lt
  change ¬ (cluster = 0 ∨ 268435448 ≤ cluster)
  omega

theorem Fat32Fs.Sound.dataLba_lt (sound : fs.Sound) (has : fs.HasCluster cluster) {j : Nat}
    (inside : j < fs.sectorsPerCluster) : fs.dataLba cluster + j < ataAddressable := by
  obtain ⟨lower, upper⟩ := has
  have addressable := sound.addressable
  have below : (cluster - 2 + 1) * fs.sectorsPerCluster ≤
      fs.totalClusters * fs.sectorsPerCluster := Nat.mul_le_mul_right _ (by omega)
  rw [Nat.succ_mul] at below
  unfold Fat32Fs.dataLba
  omega

theorem Fat32Fs.dataLba_inj {other i j : Nat} (has : fs.HasCluster cluster)
    (hasOther : fs.HasCluster other) (inside : i < fs.sectorsPerCluster)
    (insideOther : j < fs.sectorsPerCluster)
    (same : fs.dataLba cluster + i = fs.dataLba other + j) : cluster = other ∧ i = j := by
  unfold Fat32Fs.dataLba at same
  obtain ⟨lower, _⟩ := has
  obtain ⟨lowerOther, _⟩ := hasOther
  have position : (cluster - 2) * fs.sectorsPerCluster + i =
      (other - 2) * fs.sectorsPerCluster + j := by omega
  have quotient := congrArg (· / fs.sectorsPerCluster) position
  have remainder := congrArg (· % fs.sectorsPerCluster) position
  simp only [Nat.add_comm _ i, Nat.add_comm _ j, Nat.add_mul_mod_self_right,
    Nat.mod_eq_of_lt inside, Nat.mod_eq_of_lt insideOther] at remainder
  have positive : 0 < fs.sectorsPerCluster := by omega
  simp only [Nat.add_comm _ i, Nat.add_comm _ j, Nat.add_mul_div_right _ _ positive,
    Nat.div_eq_of_lt inside, Nat.div_eq_of_lt insideOther] at quotient
  omega

theorem fatSector_lba (sound : fs.Sound) (inside : cluster < fs.totalClusters + 2) :
    u32 (fs.partitionLba + fatSector fs cluster) = fs.fatLba cluster := by
  have below := sound.fatLba_lt inside
  have clusters := sound.clusters_lt
  have addressable : fs.partitionLba + fs.dataStartLba +
    fs.totalClusters * fs.sectorsPerCluster ≤ 268435456 := sound.addressable
  unfold Fat32Fs.fatLba at below ⊢
  unfold fatSector u32
  omega

theorem entryOffset_eq (sound : fs.Sound) (inside : cluster < fs.totalClusters + 2) :
    entryOffset cluster = cluster % 128 * 4 := by
  have small : cluster < 0x0FFFFFF0 := Nat.lt_trans inside sound.clusters_lt
  unfold entryOffset u32
  omega

theorem clusterToLba_eq (sound : fs.Sound) (has : fs.HasCluster cluster) {j : Nat}
    (inside : j < fs.sectorsPerCluster) :
    u32 (fs.partitionLba + clusterToLba fs cluster + j) = fs.dataLba cluster + j := by
  have below : fs.dataLba cluster + j < 268435456 := sound.dataLba_lt has inside
  unfold Fat32Fs.dataLba at below ⊢
  unfold clusterToLba u32
  omega

end Geometry

section Entries

variable {fs : Fat32Fs} {d : Disk} {cluster : Nat}

theorem view_putEntry (sound : fs.Sound) (inside : cluster < fs.totalClusters + 2) (value : Nat) :
    (d.put (fs.fatLba cluster) (putBytes (d.sectors (fs.fatLba cluster)) (cluster % 128 * 4)
      (le32 value))).view fs = (d.view fs).setEntry cluster (value % 268435456) := by
  apply FatView.ext
  · funext other
    by_cases same : other = cluster
    · subst same
      simp only [FatView.setEntry, Function.update_self, Disk.view, Disk.put, if_pos inside]
      rw [word32_put]
      omega
    · simp only [FatView.setEntry, Function.update_of_ne same, Disk.view, Disk.put]
      by_cases below : other < fs.totalClusters + 2
      · rw [if_pos below, if_pos below]
        by_cases near : fs.fatLba other = fs.fatLba cluster
        · rw [near, Function.update_self, word32_outside]
          unfold Fat32Fs.fatLba at near
          simp only [le32_length]
          omega
        · rw [Function.update_of_ne near]
      · rw [if_neg below, if_neg below]
  · funext other i
    simp only [FatView.setEntry, Disk.view, Disk.put]
    have apart : fs.dataLba other + i / 512 ≠ fs.fatLba cluster := by
      have below := sound.fatLba_lt inside
      unfold Fat32Fs.dataLba
      omega
    rw [Function.update_of_ne apart]

theorem readEntry (sound : fs.Sound) (reliable : d.Reliable)
    (inside : cluster < fs.totalClusters + 2) :
    fat32ReadSectorInternal fs d (fatSector fs cluster) =
      (some (d.sectors (fs.fatLba cluster)), d) := by
  have below := sound.fatLba_lt inside
  have addressable := sound.addressable
  rw [fat32ReadSectorInternal, fatSector_lba sound inside, reliable.read]
  omega

theorem writeEntry (sound : fs.Sound) (reliable : d.Reliable)
    (inside : cluster < fs.totalClusters + 2) (buf : Buffer) :
    fat32WriteSectorInternal fs d (fatSector fs cluster) buf =
      (true, d.put (fs.fatLba cluster) buf) := by
  have below := sound.fatLba_lt inside
  have addressable := sound.addressable
  rw [fat32WriteSectorInternal, fatSector_lba sound inside, reliable.write]
  omega

theorem mask_eq (value : Nat) : value &&& 0x0FFFFFFF = value % 268435456 :=
  Nat.and_two_pow_sub_one_eq_mod value 28

/-- The high bits that `fat32_set_cluster` keeps do not show in the entry. -/
theorem keepHigh_mod (old value : Nat) :
    ((old &&& 0xF0000000) ||| (value &&& 0x0FFFFFFF)) % 268435456 = value % 268435456 := by
  rw [← mask_eq, Nat.and_or_distrib_right, Nat.and_assoc, Nat.and_assoc]
  simp only [Nat.reduceAnd, Nat.and_zero, Nat.zero_or]
  exact mask_eq value

def FatView.next (w : FatView) (cluster : Nat) : Nat :=
  if fat32ClusterEnd ≤ w.entry cluster then 0 else w.entry cluster

theorem nextCluster_view (sound : fs.Sound) (reliable : d.Reliable)
    (inside : cluster < fs.totalClusters + 2) :
    fat32NextCluster fs d cluster = ((d.view fs).next cluster, d) := by
  rw [fat32NextCluster, readEntry sound reliable inside]
  simp only [entryOffset_eq sound inside, mask_eq, FatView.next, Disk.view, if_pos inside]

theorem setCluster_view (sound : fs.Sound) (reliable : d.Reliable)
    (inside : cluster < fs.totalClusters + 2) (value : Nat) :
    ∃ after, fat32SetCluster fs d cluster value = (true, after) ∧ after.Reliable ∧
      after.view fs = (d.view fs).setEntry cluster (value % 268435456) := by
  rw [fat32SetCluster, readEntry sound reliable inside]
  simp only [writeEntry sound reliable inside, entryOffset_eq sound inside]
  refine ⟨_, rfl, reliable.put _, ?_⟩
  rw [view_putEntry sound inside, keepHigh_mod]

theorem allocFrom_view (sound : fs.Sound) (reliable : d.Reliable) (left cluster : Nat)
    (inside : cluster + left ≤ fs.totalClusters + 2) :
    (allocFrom fs left cluster d = (0, d) ∧
        ∀ other, cluster ≤ other → other < cluster + left → (d.view fs).entry other ≠ 0) ∨
      ∃ new after, allocFrom fs left cluster d = (new, after) ∧ cluster ≤ new ∧
        new < cluster + left ∧ (d.view fs).entry new = 0 ∧ after.Reliable ∧
        after.view fs = (d.view fs).setEntry new 0x0FFFFFFF ∧
        ∀ other, cluster ≤ other → other < new → (d.view fs).entry other ≠ 0 := by
  induction left generalizing cluster with
  | zero =>
      left
      refine ⟨rfl, ?_⟩
      omega
  | succ left ih =>
      have below : cluster < fs.totalClusters + 2 := by omega
      have entry : word32 (d.sectors (fs.fatLba cluster)) (cluster % 128 * 4) % 268435456 =
        (d.view fs).entry cluster := (if_pos below).symm
      rw [allocFrom, readEntry sound reliable below]
      simp only [entryOffset_eq sound below, mask_eq, entry]
      by_cases free : (d.view fs).entry cluster = 0
      · rw [if_pos free, writeEntry sound reliable below]
        right
        refine ⟨cluster, _, rfl, Nat.le_refl _, by omega, free, reliable.put _, ?_, by omega⟩
        exact view_putEntry sound below _
      · rw [if_neg free]
        rcases ih (cluster + 1) (by omega) with ⟨none, full⟩ | found
        · left
          refine ⟨none, fun other lower upper => ?_⟩
          by_cases own : other = cluster
          · rw [own]
            exact free
          · exact full other (by omega) (by omega)
        · right
          obtain ⟨new, after, result, lower, upper, isFree, keeps, view, passed⟩ := found
          refine ⟨new, after, result, by omega, by omega, isFree, keeps, view, ?_⟩
          intro other lowerOther upperOther
          by_cases own : other = cluster
          · rw [own]
            exact free
          · exact passed other (by omega) upperOther

def FatView.Full (w : FatView) (fs : Fat32Fs) : Prop :=
  ∀ cluster, fs.HasCluster cluster → w.entry cluster ≠ 0

theorem allocCluster_view (sound : fs.Sound) (reliable : d.Reliable) :
    (fat32AllocCluster fs d = (0, d) ∧ (d.view fs).Full fs) ∨
      ∃ new after, fat32AllocCluster fs d = (new, after) ∧ fs.HasCluster new ∧
        (d.view fs).entry new = 0 ∧ after.Reliable ∧
        after.view fs = (d.view fs).setEntry new 0x0FFFFFFF ∧
        ∀ other, 2 ≤ other → other < new → (d.view fs).entry other ≠ 0 := by
  have clusters := sound.clusters_lt
  have count : u32 (fs.totalClusters + 2) - 2 = fs.totalClusters := by
    unfold u32
    omega
  rw [fat32AllocCluster, count]
  rcases allocFrom_view sound reliable fs.totalClusters 2 (by omega) with
    ⟨none, full⟩ | ⟨new, after, result, lower, upper, rest⟩
  · left
    refine ⟨none, fun cluster has => ?_⟩
    have upper := has.2
    exact full cluster has.1 (by omega)
  · right
    exact ⟨new, after, result, ⟨lower, by omega⟩, rest⟩

end Entries

section Clusters

variable {fs : Fat32Fs} {d : Disk} {cluster : Nat}

theorem loaded_view (sound : fs.Sound) (has : fs.HasCluster cluster) :
    d.loaded fs cluster = (d.view fs).data cluster := by
  funext k
  by_cases inside : k < fs.clusterSize
  · have part : k / 512 < fs.sectorsPerCluster := by
      unfold Fat32Fs.clusterSize at inside
      omega
    rw [Disk.loaded, if_pos inside, Fat32Fs.clusterLba, clusterToLba_eq sound has part,
      Nat.mod_eq_of_lt (sound.dataLba_lt has part)]
    exact (if_pos ⟨has, inside⟩).symm
  · rw [Disk.loaded, if_neg inside]
    exact (if_neg fun both => inside both.2).symm

theorem readCluster_view (sound : fs.Sound) (reliable : d.Reliable) (has : fs.HasCluster cluster) :
    ∃ buf, fat32ReadCluster fs d cluster = (some buf, d) ∧
      ∀ i < fs.clusterSize, buf i = (d.view fs).data cluster i := by
  refine ⟨d.loaded fs cluster, ?_, fun i _ => ?_⟩
  · rw [reliable.steady.readCluster, if_neg (Nat.not_lt.mpr has.1)]
  · rw [loaded_view sound has]

/-- The sectors with the first ones of a cluster overwritten by the buffer. -/
def Fat32Fs.overwritten (fs : Fat32Fs) (cluster : Nat) (buf : Buffer) (count : Nat)
    (sectors : Nat → Buffer) : Nat → Buffer := fun sector k =>
  if fs.dataLba cluster ≤ sector ∧ sector < fs.dataLba cluster + count then
    buf ((sector - fs.dataLba cluster) * 512 + k)
  else sectors sector k

/-- The sectors are written one after the other, up to the first transfer that fails. -/
theorem writeSectors_stops (lba base : Nat) (buf : Buffer) (left i : Nat) {count : Nat}
    (steady : d.SteadyFor count) (within : count ≤ left)
    (ends : count = left ∨ d.transfers count = false)
    (place : ∀ j, i ≤ j → j < i + left →
      u32 (fs.partitionLba + lba + j) = base + j ∧ base + j < ataAddressable) :
    ∃ taken, writeSectors fs lba buf left i d = (decide (count = left),
        (d.advance taken).withSectors fun sector k =>
          if base + i ≤ sector ∧ sector < base + i + count then buf ((sector - base) * 512 + k)
          else d.sectors sector k) ∧
      (count = left → taken = left) := by
  induction left generalizing i d count with
  | zero =>
      obtain rfl : count = 0 := by omega
      refine ⟨0, ?_, fun _ => rfl⟩
      have same : (fun sector k => if base + i ≤ sector ∧ sector < base + i + 0 then
          buf ((sector - base) * 512 + k) else d.sectors sector k) = d.sectors := by
        funext sector k
        rw [if_neg (by omega)]
      rw [same]
      rfl
  | succ left ih =>
      obtain ⟨isPlace, inside⟩ := place i (Nat.le_refl _) (by omega)
      rw [writeSectors, isPlace, writeSector_eq, Nat.mod_eq_of_lt inside]
      cases count with
      | zero =>
          have fails := ends.resolve_left (by omega)
          have same : (fun sector k => if base + i ≤ sector ∧ sector < base + i + 0 then
              buf ((sector - base) * 512 + k) else d.sectors sector k) = d.sectors := by
            funext sector k
            rw [if_neg (by omega)]
          refine ⟨1, ?_, by omega⟩
          rw [same, fails]
          rfl
      | succ count =>
          rw [Nat.add_comm, steadyFor_advance] at steady
          have written : d.transfers 0 = true := steady.1 0 (by omega)
          rw [written]
          dsimp only
          obtain ⟨taken, result, all⟩ := @ih ((d.advance 1).put (base + i) fun j => buf (i * 512 + j))
            (i + 1) count steady.2 (by omega) (ends.imp (by omega) id)
            fun j lower upper => place j (by omega) (by omega)
          refine ⟨taken + 1, ?_, by omega⟩
          rw [if_pos rfl, result]
          have sameEnd : decide (count = left) = decide (count + 1 = left + 1) := by
            rw [decide_eq_decide]
            omega
          have sameSectors : (fun sector k =>
              if base + (i + 1) ≤ sector ∧ sector < base + (i + 1) + count then
                buf ((sector - base) * 512 + k)
              else ((d.advance 1).put (base + i) fun j => buf (i * 512 + j)).sectors sector k) =
              fun sector k => if base + i ≤ sector ∧ sector < base + i + (count + 1) then
                buf ((sector - base) * 512 + k) else d.sectors sector k := by
            funext sector k
            by_cases here : sector = base + i
            · subst here
              rw [if_neg (by omega), if_pos (by omega), Nat.add_sub_cancel_left]
              exact congrFun (Function.update_self (base + i) (fun j => buf (i * 512 + j)) d.sectors) k
            · by_cases later : base + (i + 1) ≤ sector ∧ sector < base + (i + 1) + count
              · rw [if_pos later, if_pos (by omega)]
              · rw [if_neg later, if_neg (by omega)]
                exact congrFun (Function.update_of_ne here ..) k
          rw [sameEnd, sameSectors]
          rfl

theorem writeCluster_stops (sound : fs.Sound) (has : fs.HasCluster cluster) (buf : Buffer)
    {count : Nat} (steady : d.SteadyFor count) (within : count ≤ fs.sectorsPerCluster)
    (ends : count = fs.sectorsPerCluster ∨ d.transfers count = false) :
    ∃ taken, fat32WriteCluster fs d cluster buf = (decide (count = fs.sectorsPerCluster),
        (d.advance taken).withSectors (fs.overwritten cluster buf count d.sectors)) ∧
      (count = fs.sectorsPerCluster → taken = fs.sectorsPerCluster) := by
  have lower := has.1
  rw [fat32WriteCluster, if_neg (by omega)]
  exact writeSectors_stops (clusterToLba fs cluster) (fs.dataLba cluster) buf
    fs.sectorsPerCluster 0 steady within ends fun j _ inside =>
      ⟨clusterToLba_eq sound has (by omega), sound.dataLba_lt has (by omega)⟩

def Fat32Fs.clip (fs : Fat32Fs) (buf : Buffer) : Buffer := fun i =>
  if i < fs.clusterSize then buf i else 0

theorem view_overwritten (sound : fs.Sound) (has : fs.HasCluster cluster) (buf : Buffer)
    {count : Nat} (within : count ≤ fs.sectorsPerCluster) :
    (d.withSectors (fs.overwritten cluster buf count d.sectors)).view fs =
      (d.view fs).setData cluster (fs.clip fun i =>
        if i < count * 512 then buf i else (d.view fs).data cluster i) := by
  apply FatView.ext
  · funext other
    simp only [FatView.setData, Disk.view, Disk.withSectors]
    by_cases inside : other < fs.totalClusters + 2
    · have entry : fs.overwritten cluster buf count d.sectors (fs.fatLba other) =
          d.sectors (fs.fatLba other) := by
        funext k
        apply if_neg
        have below := sound.fatLba_lt inside
        unfold Fat32Fs.dataLba
        omega
      rw [if_pos inside, if_pos inside, entry]
    · rw [if_neg inside, if_neg inside]
  · funext other i
    simp only [FatView.setData]
    by_cases inside : fs.HasCluster other ∧ i < fs.clusterSize
    · have small : i / 512 < fs.sectorsPerCluster := by
        have size : i < fs.sectorsPerCluster * 512 := inside.2
        omega
      by_cases own : other = cluster
      · subst own
        rw [Function.update_self]
        simp only [Disk.view, Disk.withSectors, if_pos inside, Fat32Fs.clip, if_pos inside.2,
          Fat32Fs.overwritten]
        by_cases early : i < count * 512
        · rw [if_pos early, if_pos (by omega), Nat.add_sub_cancel_left]
          congr 1
          omega
        · rw [if_neg early, if_neg (by omega)]
      · rw [Function.update_of_ne own]
        simp only [Disk.view, Disk.withSectors, if_pos inside]
        apply if_neg
        rintro ⟨above, below⟩
        have same : fs.dataLba cluster + (fs.dataLba other + i / 512 - fs.dataLba cluster) =
          fs.dataLba other + i / 512 := by omega
        exact own (Fat32Fs.dataLba_inj has inside.1 (by omega) small same).1.symm
    · by_cases own : other = cluster
      · subst own
        rw [Function.update_self]
        simp only [Disk.view, Disk.withSectors, if_neg inside, Fat32Fs.clip]
        rw [if_neg fun below => inside ⟨has, below⟩]
      · rw [Function.update_of_ne own]
        simp only [Disk.view, Disk.withSectors, if_neg inside]

theorem writeCluster_view (sound : fs.Sound) (reliable : d.Reliable)
    (has : fs.HasCluster cluster) (buf : Buffer) :
    ∃ after, fat32WriteCluster fs d cluster buf = (true, after) ∧ after.Reliable ∧
      after.view fs = (d.view fs).setData cluster (fs.clip buf) := by
  obtain ⟨taken, result, _⟩ := writeCluster_stops sound has buf
    (reliable.steady.for fs.sectorsPerCluster) (Nat.le_refl _) (.inl rfl)
  rw [reliable.steady.advance, decide_eq_true rfl] at result
  refine ⟨_, result, ⟨reliable.transfers, reliable.memory⟩, ?_⟩
  rw [view_overwritten sound has buf (Nat.le_refl _)]
  congr 1
  funext i
  unfold Fat32Fs.clip
  by_cases inside : i < fs.clusterSize
  · have early : i < fs.sectorsPerCluster * 512 := inside
    rw [if_pos inside, if_pos inside]
    exact if_pos early
  · rw [if_neg inside, if_neg inside]

end Clusters

end ZurichOS
