import ZurichOS.FatPlaces

set_option linter.all false

/-!
What `fat32_vfs_unlink` deletes and frees.  It looks the entry up by its name, frees the chain,
and then looks for the 8.3 form of the name in the directory to mark an entry deleted.
-/

namespace ZurichOS

open ByteBuffer Words LinkedChains

variable {fs : Fat32Fs} {d after : Disk} {xs zs before rest : List Nat} {current : Nat}
  {w : FatView} {place : Nat × Nat} {name name83 : List UInt8} {memory : Nat → Bool}

/-- The place of the entry that the second search comes to. -/
def FatView.unlinkIn (w : FatView) (fs : Fat32Fs) (name83 : List UInt8) :
    List Nat → Option (Nat × Nat)
  | [] => none
  | cluster :: rest =>
      match unlinkScan (w.data cluster) name83 (List.range fs.entriesPerCluster) with
      | some i => some (cluster, i)
      | none => w.unlinkIn fs name83 rest

def FatView.markDeleted (w : FatView) (place : Nat × Nat) : FatView :=
  w.setData place.1 (Function.update (w.data place.1) (32 * place.2) 0xE5)

/-- The clusters are the chain of the entry. -/
structure EntryChain (fs : Fat32Fs) (d : Disk) (entry : Buffer) (zs : List Nat) : Prop where
  chain : d.HasChain fs zs
  isStart : zs.head?.getD 0 = direntCluster entry ∨ zs = [] ∧ direntCluster entry < 2

/-- With 0, the entry that the name leads to is marked deleted and its chain is free, and that
is all; with a negative result, nothing has changed. -/
structure UnlinkExact (fs : Fat32Fs) (d after : Disk) (start : Nat) (name : List UInt8)
    (zs : List Nat) (code : Int) : Prop where
  done : code = 0 → ∃ place, d.lookupPlace fs start name = some place ∧
    after.view fs = ((d.view fs).markDeleted place).clear zs
  failed : code < 0 → after.view fs = d.view fs

/-- The name leads to nothing or to a directory, or the second search finds the same entry; for
an entry without clusters it may also find nothing. -/
def UnlinkFits (fs : Fat32Fs) (d : Disk) (xs : List Nat) (name : List UInt8) : Prop :=
  d.memory 0 = true → ∀ place ∈ (d.view fs).findIn fs (findsEntry name) xs,
    direntAttr ((d.view fs).entryAt place) &&& fat32AttrDirectory = 0 →
      if direntCluster ((d.view fs).entryAt place) < 2 then
        d.memory 1 = true → (d.view fs).unlinkIn fs (fat32NameTo83 name) xs = none ∨
          (d.view fs).unlinkIn fs (fat32NameTo83 name) xs = some place
      else
        d.memory 1 = true ∧ (d.view fs).unlinkIn fs (fat32NameTo83 name) xs = some place

section Searching

theorem unlinkScan_mem {buf : Buffer} {numbers : List Nat} {i : Nat}
    (found : unlinkScan buf name83 numbers = some i) : i ∈ numbers := by
  induction numbers with
  | nil => cases found
  | cons j rest ih =>
      rw [unlinkScan] at found
      split_ifs at found with _ _ hit
      · exact List.mem_cons_of_mem _ (ih found)
      · cases found
        exact List.mem_cons_self ..
      · exact List.mem_cons_of_mem _ (ih found)

theorem unlinkIn_mem (found : w.unlinkIn fs name83 xs = some place) :
    place.1 ∈ xs ∧ place.2 < fs.entriesPerCluster := by
  induction xs with
  | nil => cases found
  | cons cluster rest ih =>
      rw [FatView.unlinkIn] at found
      cases scanned : unlinkScan (w.data cluster) name83 (List.range fs.entriesPerCluster) with
      | some i =>
          rw [scanned] at found
          cases found
          exact ⟨List.mem_cons_self .., List.mem_range.mp (unlinkScan_mem scanned)⟩
      | none =>
          rw [scanned] at found
          obtain ⟨member, inside⟩ := ih found
          exact ⟨List.mem_cons_of_mem _ member, inside⟩

theorem unlinkFrom_chain (before : List Nat) (sound : fs.Sound) (steady : d.Steady)
    (chain : d.HasChain fs (before ++ current :: rest)) (fuel : Nat)
    (enough : rest.length + 1 < fuel) :
    unlinkFrom fs name83 fuel d current =
      some (match (d.view fs).unlinkIn fs name83 (current :: rest) with
        | some place => (0, (fat32WriteCluster fs d place.1
            (putBytes ((d.view fs).data place.1) (32 * place.2) [0xE5])).2)
        | none => (-1, d)) := by
  induction fuel generalizing before current rest with
  | zero => omega
  | succ fuel ih =>
      have has := chain.mem.1
      rw [unlinkFrom, if_neg (has.below sound), readCluster_chain sound steady chain]
      dsimp only
      rw [FatView.unlinkIn]
      cases unlinkScan ((d.view fs).data current) name83 (List.range fs.entriesPerCluster) with
      | some i => rfl
      | none =>
          dsimp only
          rw [nextCluster_steady before sound steady chain]
          cases rest with
          | nil =>
              obtain ⟨more, rfl⟩ : ∃ more, fuel = more + 1 := ⟨fuel - 1, by omega⟩
              rfl
          | cons next later =>
              rw [List.length_cons] at enough
              have regroup : before ++ current :: next :: later =
                  (before ++ [current]) ++ next :: later := by simp
              exact ih (before ++ [current]) (regroup ▸ chain) (by omega)

end Searching

section Freeing

theorem withMemory_freeClusterChain (fuel : Nat) :
    fat32FreeClusterChain fs fuel (d.withMemory memory) current =
      (fat32FreeClusterChain fs fuel d current).map (·.withMemory memory) := by
  induction fuel generalizing d current with
  | zero => rfl
  | succ fuel ih =>
      rw [fat32FreeClusterChain, fat32FreeClusterChain]
      by_cases inside : 2 ≤ current ∧ current < fat32ClusterEnd
      · rw [if_pos inside, if_pos inside, withMemory_nextCluster]
        dsimp only
        rw [withMemory_setCluster]
        exact ih
      · rw [if_neg inside, if_neg inside]
        rfl

theorem freeClusterChain_steady (sound : fs.Sound) (steady : d.Steady) (chain : d.HasChain fs zs)
    {fuel : Nat} (enough : zs.length < fuel) :
    ∃ after, fat32FreeClusterChain fs fuel d (zs.head?.getD 0) = some after ∧ after.Steady ∧
      after.memory = d.memory ∧ after.view fs = (d.view fs).clear zs := by
  obtain ⟨after, freed, reliable, view⟩ := freeClusterChain_view sound steady.reliable
    (hasChain_withMemory.mpr chain) enough
  have same := @withMemory_freeClusterChain fs (d.withMemory fun _ => true)
    (zs.head?.getD 0) d.memory fuel
  rw [freed] at same
  exact ⟨after.withMemory d.memory, same, reliable.transfers, rfl, view⟩

theorem cleared_chain (view : after.view fs = (d.view fs).clear zs) (apart : xs.Disjoint zs)
    (chain : d.HasChain fs xs) : after.HasChain fs xs := by
  apply hasChain_congr _ chain
  intro cluster member
  rw [view, FatView.clear]
  exact if_neg fun inside => apart member inside

end Freeing

section Marking

theorem markDeleted_write (sound : fs.Sound) (steady : d.Steady) (has : fs.HasCluster place.1)
    (inside : place.2 < fs.entriesPerCluster) :
    (fat32WriteCluster fs d place.1
      (putBytes ((d.view fs).data place.1) (32 * place.2) [0xE5])).2.view fs =
      (d.view fs).markDeleted place := by
  obtain ⟨written, result, reliable, view⟩ := writeCluster_view sound steady.reliable has
    (putBytes ((d.view fs).data place.1) (32 * place.2) [0xE5])
  have restored := restore_memory
    (fat32WriteCluster fs · place.1 (putBytes ((d.view fs).data place.1) (32 * place.2) [0xE5]))
    (fun _ _ => withMemory_writeCluster) result
  rw [restored]
  refine view.trans (congrArg ((d.view fs).setData place.1) (funext fun p => ?_))
  have below := entryBound inside (show 0 < 32 by decide)
  rw [Nat.add_zero] at below
  by_cases own : p = 32 * place.2
  · rw [own, Function.update_self, Fat32Fs.clip, if_pos below,
      putBytes_inside _ (Nat.le_refl _) (by rw [List.length_singleton]; omega), Nat.sub_self]
    rfl
  · rw [Function.update_of_ne own, Fat32Fs.clip, putBytes_outside _ (by
      rw [List.length_singleton]
      omega)]
    split
    · rfl
    · rename_i beyond
      exact (if_neg fun both => beyond both.2).symm

/-- Marks at different places differ, if the entry was not deleted before. -/
theorem markDeleted_inj {other : Nat × Nat} (alive : w.entryAt place 0 ≠ 0xE5)
    (same : w.markDeleted other = w.markDeleted place) : other = place := by
  by_contra different
  have byte := congrFun (congrFun (congrArg FatView.data same) place.1) (32 * place.2)
  simp only [FatView.markDeleted, FatView.setData, Function.update_self] at byte
  by_cases near : place.1 = other.1
  · rw [near, Function.update_self, Function.update_of_ne, ← near] at byte
    · exact alive byte
    · intro number
      exact different (Prod.ext near.symm (by omega))
  · rw [Function.update_of_ne near] at byte
    exact alive byte

theorem findIn_alive (found : w.findIn fs (findsEntry name) xs = some place) :
    w.entryAt place 0 ≠ 0xE5 := by
  rw [findIn_eq] at found
  have finds := List.find?_some found
  simp only [findsEntry, Bool.and_eq_true, decide_eq_true_iff] at finds
  exact finds.1.1.1

end Marking

section Unlink

variable {node : FatNode} {cache cache' : DirCache} {fuel start : Nat} {code : Int}

theorem findEntry_chain (sound : fs.Sound) (steady : d.Steady) (chain : d.HasChain fs xs)
    (isStart : xs.head?.getD 0 = start) (enough : fs.turns ≤ fuel) :
    fat32FindEntry fs fuel d start name =
      some (if d.memory 0 = true then
        ((d.view fs).findIn fs (findsEntry name) xs).map (d.view fs).entryAt else none,
        d.granted) := by
  have short := chain.length_le
  rw [fat32FindEntry, kmalloc_eq]
  cases d.memory 0 with
  | false => rfl
  | true =>
      unfold Fat32Fs.turns at enough
      dsimp only
      cases xs with
      | nil =>
          obtain rfl : 0 = start := isStart
          obtain ⟨more, rfl⟩ : ∃ more, fuel = more + 1 := ⟨fuel - 1, by omega⟩
          rfl
      | cons first rest =>
          obtain rfl : first = start := isStart
          rw [List.length_cons] at short
          have granted : d.granted.HasChain fs (first :: rest) := ⟨chain.chained, chain.taken⟩
          rw [walkDirectory_chain [] sound steady.granted fuel granted (by omega)]
          change Option.map _ (some (((d.view fs).findIn fs (findsEntry name) (first :: rest)).map
            _, _)) = _
          cases (d.view fs).findIn fs (findsEntry name) (first :: rest) <;> rfl

/-- A chain that is freed changes the FAT, unless it has no clusters. -/
theorem clear_eq_iff (chain : d.HasChain fs zs) :
    ((d.view fs).clear zs = d.view fs) ↔ zs = [] := by
  constructor
  · intro same
    cases zs with
    | nil => rfl
    | cons cluster rest =>
        have cleared : ((d.view fs).clear (cluster :: rest)).entry cluster = 0 :=
          if_pos (List.mem_cons_self ..)
        rw [same] at cleared
        exact absurd cleared chain.head.2
  · rintro rfl
    rfl

theorem entry_nil_iff {entry : Buffer} (own : EntryChain fs d entry zs) :
    zs = [] ↔ direntCluster entry < 2 := by
  rcases own.isStart with isHead | ⟨none, low⟩
  · cases zs with
    | nil => exact iff_of_true rfl (isHead ▸ Nat.zero_lt_two)
    | cons cluster rest =>
        have lower := own.chain.head.1.1
        rw [List.head?_cons, Option.getD_some] at isHead
        exact iff_of_false (List.cons_ne_nil _ _) (by omega)
  · exact iff_of_true none low

/-- The chain of the entry is freed, if it has one. -/
theorem unlink_frees (sound : fs.Sound) (steady : d.Steady) (chain : d.HasChain fs xs)
    (enough : fs.turns ≤ fuel) {entry : Buffer} (own : EntryChain fs d entry zs)
    (apart : xs.Disjoint zs) :
    ∃ freed : Disk,
      (if 2 ≤ direntCluster entry then
        fat32FreeClusterChain fs fuel d.granted (direntCluster entry)
        else some d.granted) = some freed ∧ freed.Steady ∧
      freed.view fs = (d.view fs).clear zs ∧ freed.HasChain fs xs ∧
      freed.kmalloc = (d.memory 1, freed.granted) := by
  have short := own.chain.length_le
  unfold Fat32Fs.turns at enough
  have isNil := entry_nil_iff own
  by_cases clusters : 2 ≤ direntCluster entry
  · rw [if_pos clusters]
    have isHead : zs.head?.getD 0 = direntCluster entry :=
      own.isStart.resolve_right fun none => absurd none.2 (Nat.not_lt.mpr clusters)
    have granted : d.granted.HasChain fs zs := ⟨own.chain.chained, own.chain.taken⟩
    have grantedDir : d.granted.HasChain fs xs := ⟨chain.chained, chain.taken⟩
    obtain ⟨freed, isFreed, steadyFreed, memory, view⟩ :=
      freeClusterChain_steady sound steady.granted granted (show zs.length < fuel by omega)
    rw [isHead] at isFreed
    refine ⟨freed, isFreed, steadyFreed, view, cleared_chain view apart grantedDir, ?_⟩
    rw [kmalloc_eq, memory]
    rfl
  · rw [if_neg clusters]
    obtain rfl := isNil.mpr (Nat.not_le.mp clusters)
    exact ⟨d.granted, rfl, steady.granted, rfl, ⟨chain.chained, chain.taken⟩, rfl⟩

/-- How the search for the 8.3 name ends once the chain is free. -/
theorem unlink_marks {freed : Disk} (sound : fs.Sound) (steady : freed.Steady)
    (chain : freed.HasChain fs xs) (isStart : xs.head?.getD 0 = start) (enough : fs.turns ≤ fuel)
    (view : freed.view fs = (d.view fs).clear zs) :
    ∃ code after, unlinkFrom fs name83 fuel freed start = some (code, after) ∧
      match (d.view fs).unlinkIn fs name83 xs with
      | some place => code = 0 ∧ after.view fs = ((d.view fs).markDeleted place).clear zs
      | none => code = -1 ∧ after.view fs = (d.view fs).clear zs := by
  have short := chain.length_le
  unfold Fat32Fs.turns at enough
  have sameScan : ∀ xs, (freed.view fs).unlinkIn fs name83 xs =
      (d.view fs).unlinkIn fs name83 xs := by
    intro xs
    induction xs with
    | nil => rfl
    | cons cluster rest ih =>
        rw [FatView.unlinkIn, FatView.unlinkIn, ih, view]
        rfl
  cases xs with
  | nil =>
      obtain rfl : 0 = start := isStart
      obtain ⟨more, rfl⟩ : ∃ more, fuel = more + 1 := ⟨fuel - 1, by omega⟩
      exact ⟨-1, freed, rfl, rfl, view⟩
  | cons first rest =>
      obtain rfl : first = start := isStart
      rw [List.length_cons] at short
      rw [unlinkFrom_chain [] sound steady chain fuel (by omega), sameScan]
      cases found : (d.view fs).unlinkIn fs name83 (first :: rest) with
      | none => exact ⟨-1, freed, rfl, rfl, view⟩
      | some place =>
          obtain ⟨member, inside⟩ := unlinkIn_mem found
          refine ⟨0, _, rfl, rfl, ?_⟩
          rw [markDeleted_write sound steady (chain.taken _ member).1 inside, view]
          rfl

theorem unlinkExact_failed (negative : code < 0) :
    UnlinkExact fs d after start name zs code ↔ after.view fs = d.view fs :=
  ⟨fun exact => exact.failed negative,
    fun same => ⟨fun zero => absurd zero (Int.ne_of_lt negative), fun _ => same⟩⟩

theorem unlinkExact_done {other : Nat × Nat} (lookup : d.lookupPlace fs start name = some place)
    (alive : (d.view fs).entryAt place 0 ≠ 0xE5)
    (view : after.view fs = ((d.view fs).markDeleted other).clear zs) :
    UnlinkExact fs d after start name zs 0 ↔ other = place := by
  constructor
  · intro exact
    obtain ⟨found, isFound, same⟩ := exact.done rfl
    rw [lookup] at isFound
    obtain rfl := Option.some.inj isFound
    apply markDeleted_inj alive
    rw [view] at same
    have sameData := congrArg FatView.data same
    exact FatView.ext rfl sameData
  · rintro rfl
    exact ⟨fun _ => ⟨other, lookup, view⟩, fun negative => absurd negative (by decide)⟩

end Unlink

def entryBytes (letter attr cluster : UInt8) : List UInt8 :=
  letter :: List.replicate 10 0x20 ++ attr :: List.replicate 14 0 ++ [cluster, 0, 0, 0, 0, 0]

/-- A volume whose label is the given letter, with the file `F` in cluster 3. -/
def labelledDisk (label : UInt8) : Disk :=
  { sectors := fun lba =>
      if lba = 1 then putBytes (fun _ => 0) 8 (le32 0x0FFFFFFF ++ le32 0x0FFFFFFF)
      else if lba = 2 then
        putBytes (fun _ => 0) 0 (entryBytes label fat32AttrVolumeId 0 ++
          entryBytes 0x46 fat32AttrArchive 3)
      else fun _ => 0
    transfers := fun _ => true
    memory := fun _ => true }

theorem labelledDisk_chains :
    (labelledDisk 0x47).HasChain emptyVolume [2] ∧ (labelledDisk 0x47).HasChain emptyVolume [3] := by
  refine ⟨⟨⟨by decide, trivial⟩, fun cluster member => ?_⟩,
    ⟨⟨by decide, trivial⟩, fun cluster member => ?_⟩⟩
  · obtain rfl := List.mem_singleton.mp member
    exact ⟨by decide, by decide⟩
  · obtain rfl := List.mem_singleton.mp member
    exact ⟨by decide, by decide⟩

end ZurichOS
