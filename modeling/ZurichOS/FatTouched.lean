import ZurichOS.FatPlaces

set_option linter.all false

/-!
What the driver leaves as it is, whatever transfers and allocations fail: with a set of clusters
that has the cluster it begins with and all that it can come to from there, it changes nothing
outside of the set.
-/

namespace ZurichOS

open ByteBuffer Words

variable {fs : Fat32Fs} {d middle after : Disk} {own : Nat → Prop} {cluster current next new : Nat}

/-- The sector belongs to the first FAT. -/
def Fat32Fs.InFat (fs : Fat32Fs) (lba : Nat) : Prop :=
  fs.partitionLba + fs.fatStartLba ≤ lba ∧ lba < fs.partitionLba + fs.fatStartLba + fs.fatSize

/-- The sector belongs to a cluster. -/
def Fat32Fs.InData (fs : Fat32Fs) (lba : Nat) : Prop :=
  fs.partitionLba + fs.dataStartLba ≤ lba ∧
    lba < fs.partitionLba + fs.dataStartLba + fs.totalClusters * fs.sectorsPerCluster

/-- The set has all free clusters, and the links of its clusters stay in it. -/
structure FatView.Closed (w : FatView) (fs : Fat32Fs) (own : Nat → Prop) : Prop where
  inside : ∀ cluster, own cluster → fs.HasCluster cluster
  linked : ∀ cluster, own cluster → w.next cluster = 0 ∨ own (w.next cluster)
  free : ∀ cluster, fs.HasCluster cluster → w.entry cluster = 0 → own cluster

/-- Only the clusters of the set and their FAT entries may have changed. -/
structure Touches (fs : Fat32Fs) (own : Nat → Prop) (d after : Disk) : Prop where
  closed : (after.view fs).Closed fs own
  entry : ∀ cluster, ¬ own cluster → (after.view fs).entry cluster = (d.view fs).entry cluster
  data : ∀ cluster, ¬ own cluster → (after.view fs).data cluster = (d.view fs).data cluster
  sectors : ∀ lba, ¬ fs.InFat lba → ¬ fs.InData lba → after.sectors lba = d.sectors lba

section Views

theorem view_congr (same : after.sectors = d.sectors) : after.view fs = d.view fs := by
  unfold Disk.view
  rw [same]

theorem touches_of_same (closed : (d.view fs).Closed fs own) (same : after.sectors = d.sectors) :
    Touches fs own d after := by
  have view : after.view fs = d.view fs := view_congr same
  refine ⟨view ▸ closed, fun cluster _ => ?_, fun cluster _ => ?_, fun lba _ _ => ?_⟩
  · rw [view]
  · rw [view]
  · rw [same]

theorem Touches.trans (first : Touches fs own d middle) (second : Touches fs own middle after) :
    Touches fs own d after := by
  constructor
  · exact second.closed
  · intro cluster outside
    rw [second.entry cluster outside, first.entry cluster outside]
  · intro cluster outside
    rw [second.data cluster outside, first.data cluster outside]
  · intro lba notFat notData
    rw [second.sectors lba notFat notData, first.sectors lba notFat notData]

theorem link_view (sound : fs.Sound) (inside : cluster < fs.totalClusters + 2) :
    d.link fs cluster = (d.view fs).next cluster := by
  have reliable : Disk.Reliable ⟨d.sectors, fun _ => true, fun _ => true⟩ :=
    ⟨fun _ => rfl, fun _ => rfl⟩
  have viewed := nextCluster_view sound reliable inside
  rw [reliable.steady.nextCluster] at viewed
  exact congrArg Prod.fst viewed

end Views

section Reading

variable {buf : Buffer} {hit : Buffer → Bool}

theorem fat32Mount_sectors {partitionLba : Nat} : (d.fat32Mount partitionLba).2.sectors = d.sectors := by
  rw [Disk.fat32Mount, readSector_eq]
  by_cases read : d.transfers 0 = true
  · rw [if_pos read]
    dsimp only
    rw [kmalloc_eq]
    cases (d.advance 1).memory 0 with
    | false => split_ifs <;> rfl
    | true => split_ifs <;> rfl
  · rw [if_neg read]
    rfl

theorem nextCluster_sectors : (fat32NextCluster fs d cluster).2.sectors = d.sectors := by
  rw [nextCluster_eq]
  rfl

theorem readSectors_sectors (lba left i : Nat) :
    (readSectors fs lba left i buf d).2.sectors = d.sectors := by
  induction left generalizing d i buf with
  | zero => rfl
  | succ left ih =>
      rw [readSectors, readSector_eq]
      by_cases read : d.transfers 0 = true
      · rw [if_pos read]
        exact ih _
      · rw [if_neg read]
        rfl

theorem readCluster_sectors : (fat32ReadCluster fs d cluster).2.sectors = d.sectors := by
  rw [fat32ReadCluster]
  split
  · rfl
  · exact readSectors_sectors ..

/-- The next cluster is the one that the entry has, or 0 when the entry cannot be read. -/
theorem nextCluster_own (sound : fs.Sound) (closed : (d.view fs).Closed fs own)
    (isOwn : own current) : (fat32NextCluster fs d current).1 = 0 ∨
      own (fat32NextCluster fs d current).1 := by
  rw [nextCluster_eq]
  by_cases read : d.transfers 0 = true
  · rw [if_pos read, link_view sound (closed.inside current isOwn).2]
    exact closed.linked current isOwn
  · rw [if_neg read]
    exact .inl rfl

theorem walkDirectory_sectors (fuel : Nat) {found : Option (Nat × Buffer × Nat)}
    (walked : walkDirectory fs hit fuel d current = some (found, after)) :
    after.sectors = d.sectors := by
  induction fuel generalizing d current with
  | zero => cases walked
  | succ fuel ih =>
      have kept := @readCluster_sectors fs d current
      rw [walkDirectory] at walked
      split at walked
      · cases walked
        rfl
      rcases read : fat32ReadCluster fs d current with ⟨_ | buf, loaded⟩
      · rw [read] at walked kept
        cases walked
        exact kept
      · rw [read] at walked kept
        dsimp only at walked kept
        split at walked
        · cases walked
          exact kept
        · cases walked
          exact kept
        · exact (ih walked).trans (nextCluster_sectors.trans kept)

theorem findEntry_sectors {fuel start : Nat} {name : List UInt8} {found : Option Buffer}
    (result : fat32FindEntry fs fuel d start name = some (found, after)) :
    after.sectors = d.sectors := by
  rw [fat32FindEntry, kmalloc_eq] at result
  cases memory : d.memory 0 with
  | false =>
      rw [memory] at result
      cases result
      rfl
  | true =>
      rw [memory] at result
      obtain ⟨⟨reached, last⟩, walked, same⟩ := Option.map_eq_some_iff.mp result
      have kept : last.sectors = d.granted.sectors := walkDirectory_sectors fuel walked
      cases reached with
      | none =>
          cases same
          exact kept
      | some place =>
          cases same
          exact kept

theorem walkDirectory_finds (before : List Nat) (sound : fs.Sound) (fuel : Nat)
    {rest : List Nat} {i : Nat} (chain : d.HasChain fs (before ++ current :: rest))
    (walked : walkDirectory fs hit fuel d current = some (some (cluster, buf, i), after)) :
    (d.view fs).findIn fs hit (current :: rest) = some (cluster, i) ∧
      buf = (d.view fs).data cluster := by
  induction fuel generalizing before current rest d with
  | zero => cases walked
  | succ fuel ih =>
      have has := chain.mem.1
      rw [walkDirectory, if_neg (has.below sound)] at walked
      by_cases steady : d.SteadyFor fs.sectorsPerCluster
      · rw [readCluster_steady has.1 steady, loaded_view sound has] at walked
        dsimp only at walked
        rw [FatView.findIn]
        cases scanned : scanEntries ((d.view fs).data current) hit
          (List.range fs.entriesPerCluster) with
        | found place =>
            rw [scanned] at walked
            cases walked
            exact ⟨rfl, rfl⟩
        | last =>
            rw [scanned] at walked
            cases walked
        | more =>
            rw [scanned] at walked
            dsimp only at walked ⊢
            rw [nextCluster_eq, advance_link, link_view sound has.2, chain.next_eq] at walked
            have stop : ∀ {d : Disk}, walkDirectory fs hit fuel d 0 ≠
                some (some (cluster, buf, i), after) := by
              intro d stopped
              cases fuel <;> cases stopped
            split at walked
            · cases rest with
              | nil => exact absurd walked stop
              | cons next later =>
                  have regroup : before ++ current :: next :: later =
                      (before ++ [current]) ++ next :: later := by simp
                  have moved : ((d.advance fs.sectorsPerCluster).advance 1).HasChain fs
                      ((before ++ [current]) ++ next :: later) := by
                    rw [← regroup]
                    exact ⟨chain.chained, chain.taken⟩
                  have found := ih (before ++ [current]) moved walked
                  exact found
            · exact absurd walked stop
      · obtain ⟨taken, failed⟩ := @readCluster_fails fs d current (.inr steady)
        rw [failed] at walked
        cases walked

theorem findEntry_finds (sound : fs.Sound) {xs : List Nat} {start : Nat} {name : List UInt8}
    (chain : d.HasChain fs xs) (isStart : xs.head?.getD 0 = start) {fuel : Nat} {entry : Buffer}
    (result : fat32FindEntry fs fuel d start name = some (some entry, after)) :
    ∃ place ∈ (d.view fs).findIn fs (findsEntry name) xs, entry = (d.view fs).entryAt place := by
  rw [fat32FindEntry, kmalloc_eq] at result
  cases memory : d.memory 0 with
  | false =>
      rw [memory] at result
      cases result
  | true =>
      rw [memory] at result
      obtain ⟨⟨found, last⟩, walked, same⟩ := Option.map_eq_some_iff.mp result
      rcases found with _ | ⟨cluster, buf, i⟩
      · cases same
      · cases same
        cases xs with
        | nil =>
            obtain rfl : 0 = start := isStart
            cases fuel <;> cases walked
        | cons first rest =>
            obtain rfl : first = start := isStart
            have granted : d.granted.HasChain fs ([] ++ first :: rest) :=
              ⟨chain.chained, chain.taken⟩
            obtain ⟨isPlace, rfl⟩ := walkDirectory_finds [] sound fuel granted walked
            exact ⟨(cluster, i), isPlace, rfl⟩

theorem walkDirectory_own (sound : fs.Sound) (closed : (d.view fs).Closed fs own) (fuel : Nat)
    {i : Nat} (isOwn : current = 0 ∨ own current)
    (walked : walkDirectory fs hit fuel d current = some (some (cluster, buf, i), after)) :
    own cluster := by
  induction fuel generalizing d current with
  | zero => cases walked
  | succ fuel ih =>
      rw [walkDirectory] at walked
      by_cases stops : current = 0 ∨ fat32ClusterEnd ≤ current
      · rw [if_pos stops] at walked
        cases walked
      · rw [if_neg stops] at walked
        have ownCurrent := isOwn.resolve_left fun zero => stops (.inl zero)
        have kept := @readCluster_sectors fs d current
        rcases read : fat32ReadCluster fs d current with ⟨_ | found, loaded⟩
        · rw [read] at walked
          cases walked
        · rw [read] at walked kept
          dsimp only at walked kept
          have closedLoaded : (loaded.view fs).Closed fs own := by
            rw [view_congr kept]
            exact closed
          split at walked
          · cases walked
            exact ownCurrent
          · cases walked
          · have closedNext : ((fat32NextCluster fs loaded current).2.view fs).Closed fs own := by
              rw [view_congr nextCluster_sectors]
              exact closedLoaded
            exact ih closedNext (nextCluster_own sound closedLoaded ownCurrent) walked

end Reading

section Writing

variable {buf : Buffer}

/-- A new value of an entry of the set, which ends the chain, frees the cluster or links to the
set. -/
theorem touches_entry (sound : fs.Sound) (closed : (d.view fs).Closed fs own)
    (isOwn : own cluster) {value : Nat} (stored : Nat) (same : stored % 268435456 = value)
    (links : value = 0 ∨ fat32ClusterEnd ≤ value ∨ own value)
    (sectors : after.sectors = (d.put (fs.fatLba cluster) (putBytes
      (d.sectors (fs.fatLba cluster)) (cluster % 128 * 4) (le32 stored))).sectors) :
    Touches fs own d after := by
  have has := closed.inside cluster isOwn
  have view : after.view fs = (d.view fs).setEntry cluster value := by
    rw [view_congr sectors, view_putEntry sound has.2, same]
  have other : ∀ cell, cell ≠ cluster →
      (after.view fs).entry cell = (d.view fs).entry cell := by
    intro cell different
    rw [view]
    exact Function.update_of_ne different ..
  have here : (after.view fs).entry cluster = value := by
    rw [view]
    exact Function.update_self ..
  constructor
  · constructor
    · exact closed.inside
    · intro cell inOwn
      by_cases same : cell = cluster
      · rw [same, FatView.next, here]
        rcases links with zero | isEnd | isNext
        · rw [zero]
          exact .inl (ite_self _)
        · exact .inl (if_pos isEnd)
        · split
          · exact .inl rfl
          · exact .inr isNext
      · rw [FatView.next, other cell same]
        exact closed.linked cell inOwn
    · intro cell hasCell free
      by_cases same : cell = cluster
      · rw [same]
        exact isOwn
      · rw [other cell same] at free
        exact closed.free cell hasCell free
  · intro cell outside
    exact other cell fun same => outside (same ▸ isOwn)
  · intro cell _
    rw [view]
    rfl
  · intro lba notFat _
    rw [sectors]
    apply Function.update_of_ne
    rintro rfl
    apply notFat
    have upper := has.2
    have entries := sound.entries
    unfold Fat32Fs.fatLba Fat32Fs.InFat
    omega

theorem entryLba_eq (sound : fs.Sound) (inside : cluster < fs.totalClusters + 2) :
    fs.entryLba cluster = fs.fatLba cluster := by
  have below := sound.fatLba_lt inside
  have addressable := sound.addressable
  rw [Fat32Fs.entryLba, fatSector_lba sound inside, Nat.mod_eq_of_lt (by omega)]

theorem setCluster_touches (sound : fs.Sound) (closed : (d.view fs).Closed fs own)
    (isOwn : own cluster) {value : Nat} (links : value = 0 ∨ own value) :
    Touches fs own d (fat32SetCluster fs d cluster value).2 := by
  have inside := (closed.inside cluster isOwn).2
  have small : value % 268435456 = value := by
    rcases links with rfl | linked
    · rfl
    · have upper := (closed.inside value linked).2
      have clusters := sound.clusters_lt
      exact Nat.mod_eq_of_lt (by omega)
  rw [fat32SetCluster, fat32ReadSectorInternal, readSector_eq]
  by_cases read : d.transfers 0 = true
  · rw [if_pos read]
    dsimp only
    rw [fat32WriteSectorInternal, writeSector_eq]
    by_cases written : (d.advance 1).transfers 0 = true
    · rw [if_pos written]
      refine touches_entry sound closed isOwn
        ((d.entryWord fs cluster &&& 0xF0000000) ||| (value &&& 0x0FFFFFFF))
        ((keepHigh_mod _ _).trans small) (links.imp_right .inr) ?_
      rw [← entryLba_eq sound inside, ← entryOffset_eq sound inside]
      rfl
    · rw [if_neg written]
      exact touches_of_same closed rfl
  · rw [if_neg read]
    exact touches_of_same closed rfl

theorem allocFrom_touches (sound : fs.Sound) (closed : (d.view fs).Closed fs own)
    (left first : Nat) (lower : 2 ≤ first) (inside : first + left ≤ fs.totalClusters + 2) :
    Touches fs own d (allocFrom fs left first d).2 ∧
      ((allocFrom fs left first d).1 = 0 ∨ own (allocFrom fs left first d).1) := by
  induction left generalizing d first with
  | zero => exact ⟨touches_of_same closed rfl, .inl rfl⟩
  | succ left ih =>
      have below : first < fs.totalClusters + 2 := by omega
      have tried : Touches fs own d (d.advance 1) := touches_of_same closed rfl
      have later := (ih tried.closed (first + 1) (by omega) (by omega)).imp_left tried.trans
      rw [allocFrom, fat32ReadSectorInternal, readSector_eq]
      by_cases read : d.transfers 0 = true
      · rw [if_pos read]
        dsimp only
        by_cases free : word32 (d.sectors (fs.entryLba first)) (entryOffset first) &&&
            0x0FFFFFFF = 0
        · have isFree : (d.view fs).entry first = 0 := by
            rw [mask_eq, entryLba_eq sound below, entryOffset_eq sound below] at free
            exact (if_pos below).trans free
          have isOwn := closed.free first ⟨lower, below⟩ isFree
          refine ⟨?_, .inr ?_⟩
          · rw [← Fat32Fs.entryLba, if_pos free]
            dsimp only
            rw [fat32WriteSectorInternal, writeSector_eq]
            by_cases written : (d.advance 1).transfers 0 = true
            · rw [if_pos written]
              refine touches_entry sound closed isOwn 0x0FFFFFFF rfl (.inr (.inl (by decide))) ?_
              rw [← entryLba_eq sound below, ← entryOffset_eq sound below]
              rfl
            · rw [if_neg written]
              exact touches_of_same closed rfl
          · rw [← Fat32Fs.entryLba, if_pos free]
            exact isOwn
        · rw [← Fat32Fs.entryLba, if_neg free]
          exact later
      · rw [if_neg read]
        exact later

theorem allocCluster_touches (sound : fs.Sound) (closed : (d.view fs).Closed fs own) :
    Touches fs own d (fat32AllocCluster fs d).2 ∧
      ((fat32AllocCluster fs d).1 = 0 ∨ own (fat32AllocCluster fs d).1) := by
  have clusters := sound.clusters_lt
  have count : u32 (fs.totalClusters + 2) - 2 = fs.totalClusters := by
    unfold u32
    omega
  rw [fat32AllocCluster, count]
  exact allocFrom_touches sound closed _ _ (Nat.le_refl _) (by omega)

theorem writeSectors_outside (lba left i : Nat) {sector : Nat}
    (apart : ∀ j, i ≤ j → j < i + left → u32 (fs.partitionLba + lba + j) % ataAddressable ≠ sector) :
    (writeSectors fs lba buf left i d).2.sectors sector = d.sectors sector := by
  induction left generalizing d i with
  | zero => rfl
  | succ left ih =>
      have here := apart i (Nat.le_refl _) (by omega)
      rw [writeSectors, writeSector_eq]
      cases written : d.transfers 0 with
      | false => rfl
      | true =>
          dsimp only
          rw [if_pos rfl, ih (i + 1) fun j lower upper => apart j (by omega) (by omega)]
          exact Function.update_of_ne (Ne.symm here) ..

/-- Where a transfer fails, the cluster has the new bytes in front and the old ones behind. -/
theorem writeCluster_touches (sound : fs.Sound) (closed : (d.view fs).Closed fs own)
    (isOwn : own cluster) : Touches fs own d (fat32WriteCluster fs d cluster buf).2 := by
  have has := closed.inside cluster isOwn
  have outside : ∀ sector, (∀ j < fs.sectorsPerCluster, fs.dataLba cluster + j ≠ sector) →
      (fat32WriteCluster fs d cluster buf).2.sectors sector = d.sectors sector := by
    intro sector apart
    rw [fat32WriteCluster, if_neg (Nat.not_lt.mpr has.1)]
    apply writeSectors_outside
    intro j _ upper
    have inside : j < fs.sectorsPerCluster := by omega
    rw [clusterToLba_eq sound has inside, Nat.mod_eq_of_lt (sound.dataLba_lt has inside)]
    exact apart j inside
  have entry : ∀ cell, ((fat32WriteCluster fs d cluster buf).2.view fs).entry cell =
      (d.view fs).entry cell := by
    intro cell
    simp only [Disk.view]
    by_cases inside : cell < fs.totalClusters + 2
    · have below := sound.fatLba_lt inside
      rw [if_pos inside, if_pos inside, outside]
      intro j _ same
      unfold Fat32Fs.dataLba at same
      omega
    · rw [if_neg inside, if_neg inside]
  constructor
  · constructor
    · exact closed.inside
    · intro cell inOwn
      rw [FatView.next, entry cell]
      exact closed.linked cell inOwn
    · intro cell hasCell free
      rw [entry cell] at free
      exact closed.free cell hasCell free
  · intro cell _
    exact entry cell
  · intro cell notOwn
    have different : cell ≠ cluster := fun same => notOwn (same ▸ isOwn)
    funext k
    simp only [Disk.view]
    by_cases inside : fs.HasCluster cell ∧ k < fs.clusterSize
    · have part : k / 512 < fs.sectorsPerCluster := by
        have size : k < fs.sectorsPerCluster * 512 := inside.2
        omega
      rw [if_pos inside, if_pos inside, outside]
      intro j within same
      exact different (Fat32Fs.dataLba_inj has inside.1 within part same).1.symm
    · rw [if_neg inside, if_neg inside]
  · intro lba _ notData
    apply outside
    rintro j within rfl
    apply notData
    obtain ⟨lower, upper⟩ := has
    have area : (cluster - 2 + 1) * fs.sectorsPerCluster ≤
        fs.totalClusters * fs.sectorsPerCluster := Nat.mul_le_mul_right _ (by omega)
    rw [Nat.succ_mul] at area
    unfold Fat32Fs.InData Fat32Fs.dataLba
    omega

end Writing

section Files

theorem nextOrGrow_touches (sound : fs.Sound) (closed : (d.view fs).Closed fs own)
    (isOwn : own current) : Touches fs own d (nextOrGrow fs d current).2 ∧
      ((nextOrGrow fs d current).1 = 0 ∨ own (nextOrGrow fs d current).1) := by
  have read := touches_of_same closed (@nextCluster_sectors fs d current)
  have place := nextCluster_own sound closed isOwn
  obtain ⟨allocates, isNew⟩ := allocCluster_touches sound read.closed
  rw [nextOrGrow]
  dsimp only
  split
  · split
    · exact ⟨read.trans allocates, .inl rfl⟩
    · rename_i nonzero
      have ownNew := isNew.resolve_left nonzero
      have links := setCluster_touches sound allocates.closed isOwn (.inr ownNew)
      exact ⟨(read.trans allocates).trans links, .inr ownNew⟩
  · exact ⟨read, place⟩

theorem seekWrite_touches (sound : fs.Sound) (steps : Nat) (closed : (d.view fs).Closed fs own)
    (isOwn : own current) : Touches fs own d (seekWrite fs steps d current).2 ∧
      ((seekWrite fs steps d current).1 = 0 ∨ own (seekWrite fs steps d current).1) := by
  induction steps generalizing d current with
  | zero => exact ⟨touches_of_same closed rfl, .inr isOwn⟩
  | succ steps ih =>
      obtain ⟨grows, isNext⟩ := nextOrGrow_touches sound closed isOwn
      rw [seekWrite]
      dsimp only
      split
      · exact ⟨grows, .inl rfl⟩
      · rename_i nonzero
        exact (ih grows.closed (isNext.resolve_left nonzero)).imp_left grows.trans

theorem writeLoop_touches (sound : fs.Sound) (data : List UInt8)
    (target offsetInCluster fuel written index : Nat) (closed : (d.view fs).Closed fs own)
    (isOwn : own current) : Touches fs own d
      (writeLoop fs data target offsetInCluster fuel d written current index).2.2 := by
  induction fuel generalizing d written current index with
  | zero => exact touches_of_same closed rfl
  | succ fuel ih =>
      rw [writeLoop]
      split
      · have read := touches_of_same closed (@readCluster_sectors fs d current)
        dsimp only
        generalize (if index = target then offsetInCluster else 0) = start
        generalize putBytes _ start _ = bytes
        have both := read.trans (@writeCluster_touches fs _ own current bytes sound read.closed isOwn)
        rcases wrote : fat32WriteCluster fs (fat32ReadCluster fs d current).2 current bytes with
          ⟨_ | _, stored⟩
        · rw [wrote] at both
          exact both
        · rw [wrote] at both
          dsimp only at both ⊢
          split
          · obtain ⟨grows, isNext⟩ := nextOrGrow_touches sound both.closed isOwn
            split
            · exact both.trans grows
            · rename_i nonzero
              exact (both.trans grows).trans (ih _ _ grows.closed (isNext.resolve_left nonzero))
          · exact both
      · exact touches_of_same closed rfl

theorem writeFile_touches (sound : fs.Sound) {file : FatFile} (offset : Nat) (data : List UInt8)
    (closed : (d.view fs).Closed fs own) (isOwn : file.startCluster = 0 ∨ own file.startCluster) :
    Touches fs own d (fat32WriteFile fs d file offset data).2.2 := by
  have same : ∀ {later : Disk}, later.sectors = d.sectors → Touches fs own d later :=
    touches_of_same closed
  rw [fat32WriteFile, kmalloc_eq]
  split
  · exact same rfl
  cases d.memory 0 with
  | false => exact same rfl
  | true =>
      have granted : Touches fs own d d.granted := same rfl
      obtain ⟨start, started, begun⟩ : ∃ start started,
          (if file.startCluster = 0 then fat32AllocCluster fs d.granted
            else (file.startCluster, d.granted)) = (start, started) := ⟨_, _, rfl⟩
      have starts : Touches fs own d started ∧ (start = 0 ∨ own start) := by
        split at begun
        · have allocates := allocCluster_touches sound granted.closed
          rw [begun] at allocates
          exact allocates.imp_left granted.trans
        · cases begun
          exact ⟨granted, isOwn⟩
      obtain ⟨begins, isStart⟩ := starts
      dsimp only
      rw [begun]
      dsimp only
      split
      · exact begins
      · rename_i nonzero
        have seeks := seekWrite_touches sound (offset / fs.clusterSize) begins.closed
          (isStart.resolve_left nonzero)
        rcases seek : seekWrite fs (offset / fs.clusterSize) started start with ⟨current, sought⟩
        rw [seek] at seeks
        obtain ⟨comes, isCurrent⟩ := seeks
        dsimp only at comes isCurrent ⊢
        split
        · exact begins.trans comes
        · rename_i found
          have writes := writeLoop_touches sound data (offset / fs.clusterSize)
            (offset % fs.clusterSize) data.length 0 (offset / fs.clusterSize) comes.closed
            (isCurrent.resolve_left found)
          have all := (begins.trans comes).trans writes
          rcases wrote : writeLoop fs data (offset / fs.clusterSize) (offset % fs.clusterSize)
            data.length sought 0 current (offset / fs.clusterSize) with ⟨_ | _, written, last⟩
          · rw [wrote] at all
            exact all
          · rw [wrote] at all
            exact all

theorem freeClusterChain_touches (sound : fs.Sound) (fuel : Nat)
    (closed : (d.view fs).Closed fs own) (isOwn : current = 0 ∨ own current)
    (freed : fat32FreeClusterChain fs fuel d current = some after) : Touches fs own d after := by
  induction fuel generalizing d current with
  | zero => cases freed
  | succ fuel ih =>
      rw [fat32FreeClusterChain] at freed
      split at freed
      · rename_i valid
        have ownCurrent : own current := isOwn.resolve_left (by omega)
        have read := touches_of_same closed (@nextCluster_sectors fs d current)
        have place := nextCluster_own sound closed ownCurrent
        have frees := read.trans (setCluster_touches sound read.closed ownCurrent (.inl rfl))
        exact frees.trans (ih frees.closed place freed)
      · cases freed
        exact touches_of_same closed rfl

end Files

section Directories

variable {name name83 : List UInt8} {attr : UInt8} {start : Nat}

theorem updateEntrySize_touches (sound : fs.Sound) {fuel size cluster : Nat} {code : Int}
    (closed : (d.view fs).Closed fs own) (isOwn : start = 0 ∨ own start)
    (updated : fat32UpdateEntrySize fs fuel d start name size cluster = some (code, after)) :
    Touches fs own d after := by
  rw [fat32UpdateEntrySize, kmalloc_eq] at updated
  have granted : Touches fs own d d.granted := touches_of_same closed rfl
  cases memory : d.memory 0 with
  | false =>
      rw [memory] at updated
      cases updated
      exact granted
  | true =>
      rw [memory] at updated
      obtain ⟨⟨found, reached⟩, walked, same⟩ := Option.map_eq_some_iff.mp updated
      have walks := granted.trans (touches_of_same granted.closed (walkDirectory_sectors fuel walked))
      rcases found with _ | ⟨cluster, buf, i⟩
      · cases same
        exact walks
      · cases same
        have place := walkDirectory_own sound granted.closed fuel isOwn walked
        exact walks.trans (writeCluster_touches sound walks.closed place)

theorem createAt_touches (sound : fs.Sound) (buf : Buffer) (i : Nat)
    (closed : (d.view fs).Closed fs own) (isOwn : own current) :
    Touches fs own d (createAt fs name83 attr d current buf i).2.2 := by
  unfold createAt
  dsimp only
  split
  · obtain ⟨allocates, isNew⟩ := allocCluster_touches sound closed
    split
    · exact allocates
    · rename_i nonzero
      have ownNew := isNew.resolve_left nonzero
      rw [kmalloc_eq]
      have granted : Touches fs own d (fat32AllocCluster fs d).2.granted :=
        allocates.trans (touches_of_same allocates.closed rfl)
      cases (fat32AllocCluster fs d).2.memory 0 with
      | false => exact granted.trans (writeCluster_touches sound granted.closed isOwn)
      | true =>
          have zeroes := granted.trans
            (@writeCluster_touches fs _ own _ (fun _ => 0) sound granted.closed ownNew)
          exact zeroes.trans (writeCluster_touches sound zeroes.closed isOwn)
  · exact writeCluster_touches sound closed isOwn

theorem createFrom_touches (sound : fs.Sound) (fuel : Nat) {code : Int} {out : Nat}
    (closed : (d.view fs).Closed fs own) (isOwn : current = 0 ∨ own current)
    (created : createFrom fs name83 attr fuel d current = some (code, out, after)) :
    Touches fs own d after := by
  induction fuel generalizing d current with
  | zero => cases created
  | succ fuel ih =>
      rw [createFrom] at created
      split at created
      · cases created
        exact touches_of_same closed rfl
      · rename_i going
        have ownCurrent := isOwn.resolve_left fun zero => going (.inl zero)
        have reads := touches_of_same closed (@readCluster_sectors fs d current)
        rcases read : fat32ReadCluster fs d current with ⟨_ | buf, loaded⟩
        · rw [read] at created reads
          cases created
          exact reads
        · rw [read] at created reads
          dsimp only at created reads
          cases slot : freeEntry fs buf with
          | some i =>
              rw [slot] at created
              have made := @createAt_touches fs loaded own current name83 attr sound buf i
                reads.closed ownCurrent
              rw [Option.some.inj created] at made
              exact reads.trans made
          | none =>
              rw [slot] at created
              have steps := reads.trans
                (touches_of_same reads.closed (@nextCluster_sectors fs loaded current))
              have place := nextCluster_own sound reads.closed ownCurrent
              dsimp only at created
              split at created
              · obtain ⟨allocates, isNew⟩ := allocCluster_touches sound steps.closed
                split at created
                · cases created
                  exact steps.trans allocates
                · rename_i nonzero
                  have ownNew := isNew.resolve_left nonzero
                  have grows := (steps.trans allocates).trans
                    (setCluster_touches sound allocates.closed ownCurrent (.inr ownNew))
                  have zeroes := grows.trans
                    (@writeCluster_touches fs _ own _ (fun _ => 0) sound grows.closed ownNew)
                  exact zeroes.trans (ih zeroes.closed (.inr ownNew) created)
              · exact steps.trans (ih steps.closed place created)

theorem unlinkFrom_touches (sound : fs.Sound) (fuel : Nat) {code : Int}
    (closed : (d.view fs).Closed fs own) (isOwn : current = 0 ∨ own current)
    (searched : unlinkFrom fs name83 fuel d current = some (code, after)) :
    Touches fs own d after := by
  induction fuel generalizing d current with
  | zero => cases searched
  | succ fuel ih =>
      rw [unlinkFrom] at searched
      split at searched
      · cases searched
        exact touches_of_same closed rfl
      · rename_i going
        have ownCurrent := isOwn.resolve_left fun zero => going (.inl zero)
        have reads := touches_of_same closed (@readCluster_sectors fs d current)
        rcases read : fat32ReadCluster fs d current with ⟨_ | buf, loaded⟩
        · rw [read] at searched reads
          cases searched
          exact reads
        · rw [read] at searched reads
          dsimp only at searched reads
          split at searched
          · cases searched
            exact reads.trans (writeCluster_touches sound reads.closed ownCurrent)
          · have steps := reads.trans
              (touches_of_same reads.closed (@nextCluster_sectors fs loaded current))
            have place := nextCluster_own sound reads.closed ownCurrent
            exact steps.trans (ih steps.closed place searched)

/-- With another result than 0, the second search of an unlink has written nothing. -/
theorem unlinkFrom_sectors (fuel : Nat) {code : Int}
    (searched : unlinkFrom fs name83 fuel d current = some (code, after)) (failed : code ≠ 0) :
    after.sectors = d.sectors := by
  induction fuel generalizing d current with
  | zero => cases searched
  | succ fuel ih =>
      have kept := @readCluster_sectors fs d current
      rw [unlinkFrom] at searched
      split at searched
      · cases searched
        rfl
      rcases read : fat32ReadCluster fs d current with ⟨_ | buf, loaded⟩
      · rw [read] at searched kept
        cases searched
        exact kept
      · rw [read] at searched kept
        dsimp only at searched kept
        split at searched
        · cases searched
          exact absurd rfl failed
        · exact (ih searched).trans (nextCluster_sectors.trans kept)

end Directories

section Calls

variable {node node' : FatNode} {cache cache' : DirCache} {name : List UInt8} {fuel : Nat}
  {code : Int}

theorem vfsWrite_touches {offset : Nat} {data : List UInt8} (sound : fs.Sound)
    (closed : (d.view fs).Closed fs own) (isOwn : node.cluster = 0 ∨ own node.cluster)
    (dirOwn : ∀ dir ∈ node.parentCluster, dir = 0 ∨ own dir)
    (wrote : fat32VfsWrite fs fuel d node offset data = some (code, node', after)) :
    Touches fs own d after := by
  rw [fat32VfsWrite] at wrote
  split at wrote
  · cases wrote
    exact touches_of_same closed rfl
  · have writes := @writeFile_touches fs d own sound ⟨node.cluster, node.fileSize⟩ offset data
      closed isOwn
    rcases fat32WriteFile fs d ⟨node.cluster, node.fileSize⟩ offset data with ⟨result, file, last⟩
    dsimp only at wrote writes
    split at wrote
    · cases parent : node.parentCluster with
      | none =>
          rw [parent] at wrote
          cases wrote
          exact writes
      | some dir =>
          rw [parent] at wrote
          obtain ⟨⟨_, updated⟩, isUpdated, same⟩ := Option.map_eq_some_iff.mp wrote
          cases same
          exact writes.trans
            (updateEntrySize_touches sound writes.closed (dirOwn dir parent) isUpdated)
    · cases wrote
      exact writes

theorem vfsCreate_touches {type : Nat} (sound : fs.Sound) (closed : (d.view fs).Closed fs own)
    (isOwn : node.cluster = 0 ∨ own node.cluster)
    (created : fat32VfsCreate fs fuel d cache node name type = some (code, cache', after)) :
    Touches fs own d after := by
  rw [fat32VfsCreate] at created
  split at created
  · cases created
    exact touches_of_same closed rfl
  · obtain ⟨⟨found, middle⟩, isFound, made⟩ := Option.bind_eq_some_iff.mp created
    have finds := touches_of_same closed (findEntry_sectors isFound)
    cases found with
    | some entry =>
        cases made
        exact finds
    | none =>
        obtain ⟨⟨result, out, last⟩, isMade, same⟩ := Option.map_eq_some_iff.mp made
        cases same
        rw [fat32CreateEntry, kmalloc_eq] at isMade
        have granted : Touches fs own d middle.granted :=
          finds.trans (touches_of_same finds.closed rfl)
        cases memory : middle.memory 0 with
        | false =>
            rw [memory] at isMade
            cases isMade
            exact granted
        | true =>
            rw [memory] at isMade
            exact granted.trans (createFrom_touches sound fuel granted.closed isOwn isMade)

theorem vfsUnlink_touches (sound : fs.Sound) (closed : (d.view fs).Closed fs own)
    (isOwn : node.cluster = 0 ∨ own node.cluster)
    (entryOwn : ∀ entry found, fat32FindEntry fs fuel d node.cluster name =
      some (some entry, found) → 2 ≤ direntCluster entry → own (direntCluster entry))
    (removed : fat32VfsUnlink fs fuel d cache node name = some (code, cache', after)) :
    Touches fs own d after := by
  rw [fat32VfsUnlink] at removed
  split at removed
  · cases removed
    exact touches_of_same closed rfl
  obtain ⟨⟨found, middle⟩, isFound, ended⟩ := Option.bind_eq_some_iff.mp removed
  have finds := touches_of_same closed (findEntry_sectors isFound)
  cases found with
  | none =>
      cases ended
      exact finds
  | some entry =>
      dsimp only at ended
      split at ended
      · cases ended
        exact finds
      obtain ⟨freed, isFreed, marked⟩ := Option.bind_eq_some_iff.mp ended
      have frees : Touches fs own d freed := by
        split at isFreed
        · rename_i clusters
          exact finds.trans (freeClusterChain_touches sound fuel finds.closed
            (.inr (entryOwn entry middle isFound clusters)) isFreed)
        · cases isFreed
          exact finds
      have granted : Touches fs own d freed.granted :=
        frees.trans (touches_of_same frees.closed rfl)
      rw [kmalloc_eq] at marked
      cases memory : freed.memory 0 with
      | false =>
          rw [memory] at marked
          cases marked
          exact granted
      | true =>
          rw [memory] at marked
          obtain ⟨⟨result, last⟩, searched, same⟩ := Option.map_eq_some_iff.mp marked
          cases same
          exact granted.trans (unlinkFrom_touches sound fuel granted.closed isOwn searched)

end Calls

end ZurichOS
