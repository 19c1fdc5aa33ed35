import ZurichOS.FatTouched
import ZurichOS.FatUnlink
import ZurichOS.Transitions

set_option linter.all false

/-!
What `fat32_vfs_readdir` enumerates.  One cache of 64 entries is filled from the listing of a
directory, and serves the calls until another directory is read or an operation invalidates it.
-/

namespace ZurichOS

open ByteBuffer Words LinkedChains Transitions

variable {fs : Fat32Fs} {d after : Disk} {xs zs before rest : List Nat} {current : Nat}
  {w w' : FatView}

/-- The listing of a directory: its live visible entries. -/
def FatView.listing (w : FatView) (fs : Fat32Fs) (xs : List Nat) : List DirListing :=
  ((w.listed fs xs).filter fun place => listsEntry (w.entryAt place)).map fun place =>
    direntListing (w.entryAt place)

/-- The transfers that a listing cannot do without: of the clusters up to the end mark, and of
the FAT entries that lead from one to the next. -/
def FatView.listingTransfers (w : FatView) (fs : Fat32Fs) : List Nat → Nat
  | [] => 0
  | cluster :: rest =>
      fs.sectorsPerCluster +
        if (listEntries (w.data cluster) (List.range fs.entriesPerCluster)).2 ∨ rest = [] then 0
        else 1 + w.listingTransfers fs rest

/-- The listing is read to its end, and fits into the cache. -/
structure Disk.ListsWhole (d : Disk) (fs : Fat32Fs) (xs : List Nat) : Prop where
  memory : d.memory 0 = true
  transfers : d.SteadyFor ((d.view fs).listingTransfers fs xs)
  fits : ((d.view fs).listing fs xs).length ≤ fat32DirCacheSize

section Listing

theorem listEntries_places (cluster : Nat) (numbers : List Nat) (later : List (Nat × Nat)) :
    ((((numbers.map (fun i => (cluster, i)) ++ later).takeWhile
      fun place => w.entryAt place 0 ≠ 0).filter fun place => listsEntry (w.entryAt place)).map
        fun place => direntListing (w.entryAt place)) =
      (listEntries (w.data cluster) numbers).1 ++
        if (listEntries (w.data cluster) numbers).2 then []
        else ((later.takeWhile fun place => w.entryAt place 0 ≠ 0).filter
          fun place => listsEntry (w.entryAt place)).map fun place =>
            direntListing (w.entryAt place) := by
  induction numbers with
  | nil => rfl
  | cons i rest ih =>
      rw [listEntries, List.map_cons, List.cons_append, List.takeWhile_cons]
      by_cases ended : w.data cluster (32 * i) = 0
      · have isEnd : ¬ decide (w.entryAt (cluster, i) 0 ≠ 0) = true := by
          rw [decide_eq_true_iff]
          exact not_not.mpr ended
        rw [if_pos ended, if_neg isEnd]
        rfl
      · have isEntry : decide (w.entryAt (cluster, i) 0 ≠ 0) = true := decide_eq_true ended
        rw [if_neg ended, if_pos isEntry, List.filter_cons]
        dsimp only
        by_cases lists : listsEntry (direntAt (w.data cluster) i) = true
        · have isListed : listsEntry (w.entryAt (cluster, i)) = true := lists
          simp only [if_pos lists, if_pos isListed, List.map_cons, ih, List.cons_append]
          rfl
        · have notListed : ¬ listsEntry (w.entryAt (cluster, i)) = true := lists
          simp only [if_neg lists, if_neg notListed, ih]

theorem listing_cons (cluster : Nat) : w.listing fs (cluster :: rest) =
    (listEntries (w.data cluster) (List.range fs.entriesPerCluster)).1 ++
      if (listEntries (w.data cluster) (List.range fs.entriesPerCluster)).2 then []
      else w.listing fs rest := by
  rw [FatView.listing, FatView.listed, places_cons, listEntries_places]
  rfl

theorem listing_congr (same : ∀ cluster ∈ xs, w'.data cluster = w.data cluster) :
    w'.listing fs xs = w.listing fs xs := by
  induction xs with
  | nil => rfl
  | cons cluster rest ih =>
      rw [listing_cons, listing_cons, same cluster (List.mem_cons_self ..),
        ih fun other member => same other (List.mem_cons_of_mem _ member)]

theorem hasChain_sectors (same : after.sectors = d.sectors) (chain : d.HasChain fs xs) :
    after.HasChain fs xs := by
  apply hasChain_congr _ chain
  intro cluster _
  rw [view_congr same]

theorem listFrom_chain (before : List Nat) (sound : fs.Sound) (fuel : Nat)
    (chain : d.HasChain fs (before ++ current :: rest)) (enough : rest.length + 1 < fuel)
    (steady : d.SteadyFor ((d.view fs).listingTransfers fs (current :: rest))) :
    ∃ after, listFrom fs fuel d current =
        some (true, (d.view fs).listing fs (current :: rest), after) ∧
      after.sectors = d.sectors := by
  induction fuel generalizing before current rest d with
  | zero => omega
  | succ fuel ih =>
      have has := chain.mem.1
      rw [FatView.listingTransfers, steadyFor_advance] at steady
      rw [listFrom, if_neg (has.below sound), readCluster_steady has.1 steady.1,
        loaded_view sound has, listing_cons]
      dsimp only
      generalize listEntries ((d.view fs).data current) (List.range fs.entriesPerCluster) =
        entries at steady ⊢
      rcases entries with ⟨entries, _ | _⟩
      · rw [if_neg Bool.false_ne_true]
        dsimp only
        rw [nextCluster_eq]
        cases rest with
        | nil =>
            obtain ⟨more, rfl⟩ : ∃ more, fuel = more + 1 := ⟨fuel - 1, by omega⟩
            have next : (if (d.advance fs.sectorsPerCluster).transfers 0 = true then
                (d.advance fs.sectorsPerCluster).link fs current else 0) = 0 := by
              rw [advance_link, link_view sound has.2, chain.next_eq]
              exact ite_self _
            dsimp only
            rw [next]
            exact ⟨_, rfl, rfl⟩
        | cons next later =>
            have going : ¬ (false = true ∨ next :: later = []) := by simp
            rw [if_neg going, steadyFor_advance] at steady
            obtain ⟨_, moves, lists⟩ := steady
            rw [if_pos (moves 0 Nat.one_pos), advance_link, link_view sound has.2, chain.next_eq]
            have regroup : before ++ current :: next :: later =
                (before ++ [current]) ++ next :: later := by simp
            rw [List.length_cons] at enough
            have chained : ((d.advance fs.sectorsPerCluster).advance 1).HasChain fs
                ((before ++ [current]) ++ next :: later) := by
              rw [← regroup]
              exact ⟨chain.chained, chain.taken⟩
            obtain ⟨after, listed, same⟩ := ih (before ++ [current]) chained (by omega) lists
            refine ⟨after, ?_, same⟩
            dsimp only [List.head?_cons, Option.getD_some]
            rw [listed]
            rfl
      · refine ⟨d.advance fs.sectorsPerCluster, ?_, rfl⟩
        rw [if_pos rfl, List.append_nil]

end Listing

section Cache

variable {cache : DirCache} {listings : List DirListing} {node : FatNode} {volume fuel : Nat}

/-- What the cache keeps of an entry. -/
def DirListing.cached (listing : DirListing) : DirListing :=
  { listing with name := (cString listing.name).take 12 }

/-- What `readdir` answers for an index in a listing. -/
def readdirEntry (listings : List DirListing) (index : Nat) : Option (List UInt8 × Nat) :=
  listings[index]?.map fun listing => (cString listing.name, index)

theorem fill_eq (small : cache.entries.length ≤ fat32DirCacheSize) :
    listings.foldl dirCacheCallback cache = { cache with
      entries := (cache.entries ++ listings.map DirListing.cached).take fat32DirCacheSize } := by
  induction listings generalizing cache with
  | nil =>
      rw [List.foldl_nil, List.map_nil, List.append_nil, List.take_of_length_le small]
  | cons listing rest ih =>
      rw [List.foldl_cons, dirCacheCallback]
      by_cases room : cache.entries.length < fat32DirCacheSize
      · rw [if_pos room, ih]
        · rw [List.map_cons, List.append_assoc]
          rfl
        · rw [List.length_append, List.length_singleton]
          exact room
      · have full : cache.entries.length = fat32DirCacheSize := by omega
        rw [if_neg room, ih small, List.take_append_of_le_length (Nat.le_of_eq full.symm),
          List.take_append_of_le_length (Nat.le_of_eq full.symm)]

theorem format83Name_length (entry : Buffer) : (format83Name entry).length ≤ 12 := by
  have base := (List.takeWhile_sublist (· ≠ 0x20) (l := bytesAt entry 0 8)).length_le
  have ext := (List.takeWhile_sublist (· ≠ 0x20) (l := bytesAt entry 8 3)).length_le
  rw [bytesAt_length] at base ext
  rw [format83Name, List.length_append]
  split
  · rw [List.length_cons]
    omega
  · rw [List.length_nil]
    omega

/-- The buffers are long enough for the name of an entry. -/
theorem cached_entry (index : Nat) :
    (((w.listing fs xs).map DirListing.cached)[index]?.map fun listing =>
      (listing.name.take (vfsMaxName - 1), index)) = readdirEntry (w.listing fs xs) index := by
  rw [List.getElem?_map, Option.map_map, readdirEntry]
  apply Option.map_congr
  intro listing member
  obtain ⟨place, _, rfl⟩ := List.mem_map.mp (List.mem_of_getElem? member)
  have name := (List.takeWhile_sublist (· ≠ 0) (l := format83Name (w.entryAt place))).length_le
  have short : (cString (format83Name (w.entryAt place))).length ≤ 12 :=
    Nat.le_trans name (format83Name_length _)
  have wide : (cString (format83Name (w.entryAt place))).length ≤ vfsMaxName - 1 :=
    Nat.le_trans short (by decide)
  change (((cString (format83Name (w.entryAt place))).take 12).take (vfsMaxName - 1), index) =
    (cString (format83Name (w.entryAt place)), index)
  rw [List.take_of_length_le short, List.take_of_length_le wide]

/-- A directory that is read to its end gives its listing. -/
theorem listDir_whole (sound : fs.Sound) (chain : d.HasChain fs xs) {start : Nat}
    (isStart : xs.head?.getD 0 = start) (memory : d.memory 0 = true)
    (transfers : d.SteadyFor ((d.view fs).listingTransfers fs xs)) (enough : fs.turns ≤ fuel) :
    ∃ code after, fat32ListDir fs fuel d start =
        some (code, (d.view fs).listing fs xs, after) ∧ after.sectors = d.sectors := by
  have short := chain.length_le
  unfold Fat32Fs.turns at enough
  rw [fat32ListDir, kmalloc_eq, memory]
  dsimp only
  cases xs with
  | nil =>
      obtain rfl : 0 = start := isStart
      obtain ⟨more, rfl⟩ : ∃ more, fuel = more + 1 := ⟨fuel - 1, by omega⟩
      exact ⟨0, d.granted, rfl, rfl⟩
  | cons first rest =>
      obtain rfl : first = start := isStart
      rw [List.length_cons] at short
      have granted : d.granted.HasChain fs ([] ++ first :: rest) := ⟨chain.chained, chain.taken⟩
      obtain ⟨after, listed, same⟩ := listFrom_chain [] sound fuel granted (by omega)
        transfers
      rw [listed]
      exact ⟨_, after, rfl, same⟩

theorem readdir_fills (sound : fs.Sound) (chain : d.HasChain fs xs)
    (isStart : xs.head?.getD 0 = node.cluster) (whole : d.ListsWhole fs xs)
    (directory : node.attr &&& fat32AttrDirectory ≠ 0)
    (stale : cache.fs ≠ some volume ∨ cache.cluster ≠ node.cluster) (index : Nat) :
    ∃ after, fat32VfsReaddir fs volume fs.turns d cache node index =
        some (readdirEntry ((d.view fs).listing fs xs) index,
          ⟨some volume, node.cluster, ((d.view fs).listing fs xs).map DirListing.cached⟩, after) ∧
      after.sectors = d.sectors := by
  obtain ⟨code, after, listed, same⟩ := listDir_whole sound chain isStart whole.memory
    whole.transfers (Nat.le_refl _)
  refine ⟨after, ?_, same⟩
  have fits := whole.fits
  rw [fat32VfsReaddir, if_neg directory, if_pos stale, listed, Option.map_some, Option.map_some]
  dsimp only
  rw [fill_eq (Nat.zero_le _), List.nil_append,
    List.take_of_length_le (by rwa [List.length_map])]
  dsimp only
  rw [cached_entry]

/-- What the cache has is not read again. -/
theorem readdir_kept (directory : node.attr &&& fat32AttrDirectory ≠ 0)
    (isVolume : cache.fs = some volume) (isCluster : cache.cluster = node.cluster) (index : Nat) :
    fat32VfsReaddir fs volume fuel d cache node index =
      some (cache.entries[index]?.map fun listing => (listing.name.take (vfsMaxName - 1), index),
        cache, d) := by
  have fresh : ¬ (cache.fs ≠ some volume ∨ cache.cluster ≠ node.cluster) := by
    rintro (other | other)
    · exact other isVolume
    · exact other isCluster
  rw [fat32VfsReaddir, if_neg directory, if_neg fresh, Option.map_some]

end Cache

/-- The mounted volumes by their addresses, each with its drive, and the cache. -/
structure DirSystem where
  volumes : Nat → Option (Nat × Fat32Fs)
  drives : Nat → Disk
  cache : DirCache

inductive DirCall where
  | mount (volume drive partitionLba : Nat)
  | unmount (volume : Nat)
  | readdir (volume : Nat) (node : FatNode) (index : Nat)
  | create (volume : Nat) (node : FatNode) (name : List UInt8) (type : Nat)
  | write (volume : Nat) (node : FatNode) (offset : Nat) (data : List UInt8)
  | unlink (volume : Nat) (node : FatNode) (name : List UInt8)

def DirSystem.onVolume {α : Type} (s : DirSystem) (volume : Nat)
    (op : Fat32Fs → Disk → Option (α × DirCache × Disk)) : Option (α × DirSystem) :=
  (s.volumes volume).bind fun (drive, fs) =>
    (op fs (s.drives drive)).map fun (result, cache, d) =>
      (result, { s with drives := Function.update s.drives drive d, cache })

def DirSystem.readdir (s : DirSystem) (volume : Nat) (node : FatNode) (index : Nat) :
    Option (Option (List UInt8 × Nat) × DirSystem) :=
  s.onVolume volume fun fs d => fat32VfsReaddir fs volume fs.turns d s.cache node index

/-- The step of a call; `kmalloc` gives a new volume an address that no other has. -/
def dirStep (s : DirSystem) : DirCall → Option DirSystem
  | .mount volume drive partitionLba =>
      if s.volumes volume = none then
        match (s.drives drive).fat32Mount partitionLba with
        | (.mounted fs, d) =>
            some { s with
              volumes := Function.update s.volumes volume (some (drive, fs))
              drives := Function.update s.drives drive d }
        | (_, d) => some { s with drives := Function.update s.drives drive d }
      else none
  | .unmount volume => some { s with volumes := Function.update s.volumes volume none }
  | .readdir volume node index => (s.readdir volume node index).map Prod.snd
  | .create volume node name type =>
      (s.onVolume volume fun fs d =>
        fat32VfsCreate fs fs.turns d s.cache node name type).map Prod.snd
  | .write volume node offset data =>
      (s.onVolume volume fun fs d =>
        (fat32VfsWrite fs fs.turns d node offset data).map fun (result, _, d) =>
          (result, if 0 < result then s.cache.invalidate else s.cache, d)).map Prod.snd
  | .unlink volume node name =>
      (s.onVolume volume fun fs d =>
        fat32VfsUnlink fs fs.turns d s.cache node name).map Prod.snd

/-- The answers for that many indices from `index` on, with no other call in between. -/
def DirSystem.readAll (volume : Nat) (node : FatNode) :
    (count : Nat) → DirSystem → (index : Nat) → Option (List (Option (List UInt8 × Nat)))
  | 0, _, _ => some []
  | count + 1, s, index =>
      (s.readdir volume node index).bind fun (entry, s) =>
        (readAll volume node count s (index + 1)).map (entry :: ·)

/-- A directory of the drive that the cache has is of the same volume geometry, and the chain from
the cluster on is not of its clusters. -/
def DirSystem.Spares (s : DirSystem) (drive : Nat) (fs : Fat32Fs) (start : Nat) : Prop :=
  ∀ volume fs', s.cache.fs = some volume → s.volumes volume = some (drive, fs') → fs' = fs ∧
    ∃ xs zs, (s.drives drive).HasChain fs xs ∧ xs.head?.getD 0 = s.cache.cluster ∧
      (s.drives drive).HasChain fs zs ∧ zs.head?.getD 0 = start ∧ xs.Disjoint zs

/-- The calls after which the cache still agrees with the drives.  A volume is not mounted where
the cache has the directory of an unmounted one; a directory that has to be read is read to its
end and fits; and files do not share clusters with directories. -/
def DirSystem.Careful (s : DirSystem) : DirCall → Prop
  | .mount volume _ _ => s.cache.fs ≠ some volume
  | .unmount _ => True
  | .readdir volume node _ => ∀ drive fs, s.volumes volume = some (drive, fs) →
      node.attr &&& fat32AttrDirectory ≠ 0 →
      s.cache.fs ≠ some volume ∨ s.cache.cluster ≠ node.cluster →
        fs.Sound ∧ ∃ xs, (s.drives drive).HasChain fs xs ∧ xs.head?.getD 0 = node.cluster ∧
          (s.drives drive).ListsWhole fs xs
  | .create .. => True
  | .write volume node _ _ => ∀ drive fs, s.volumes volume = some (drive, fs) →
      s.Spares drive fs node.cluster
  | .unlink volume node name => ∀ drive fs, s.volumes volume = some (drive, fs) →
      fs.Sound ∧ ∃ xs, (s.drives drive).HasChain fs xs ∧ xs.head?.getD 0 = node.cluster ∧
        ∀ place ∈ ((s.drives drive).view fs).findIn fs (findsEntry name) xs,
          2 ≤ direntCluster (((s.drives drive).view fs).entryAt place) →
            s.Spares drive fs (direntCluster (((s.drives drive).view fs).entryAt place))

/-- What the cache has of a mounted volume is the whole listing of the directory. -/
def DirSystem.Fresh (s : DirSystem) : Prop :=
  ∀ volume drive fs, s.cache.fs = some volume → s.volumes volume = some (drive, fs) →
    fs.Sound ∧ ∃ xs, (s.drives drive).HasChain fs xs ∧ xs.head?.getD 0 = s.cache.cluster ∧
      s.cache.entries =
        (((s.drives drive).view fs).listing fs xs).map DirListing.cached

section Kept

variable {s s' : DirSystem} {drive start : Nat} {name : List UInt8} {hit : Buffer → Bool}

/-- The clusters of the chain, and all free ones. -/
def Disk.Within (d : Disk) (fs : Fat32Fs) (zs : List Nat) (cluster : Nat) : Prop :=
  cluster ∈ zs ∨ fs.HasCluster cluster ∧ (d.view fs).entry cluster = 0

theorem closed_of_chain (chain : d.HasChain fs zs) : (d.view fs).Closed fs (d.Within fs zs) := by
  constructor
  · rintro cluster (member | ⟨has, _⟩)
    · exact (chain.taken cluster member).1
    · exact has
  · rintro cluster (member | ⟨_, free⟩)
    · obtain ⟨front, later, rfl⟩ := List.append_of_mem member
      rw [chain.next_eq]
      cases later with
      | nil => exact .inl rfl
      | cons next later => exact .inr (.inl (by simp))
    · rw [FatView.next, free]
      exact .inl (ite_self _)
  · exact fun cluster has free => .inr ⟨has, free⟩

theorem within_start (isStart : zs.head?.getD 0 = start) : start = 0 ∨ d.Within fs zs start := by
  cases zs with
  | nil => exact .inl isStart.symm
  | cons first rest =>
      obtain rfl : first = start := isStart
      exact .inr (.inl (List.mem_cons_self ..))

theorem fresh_sectors (fresh : s.Fresh) (same : after.sectors = (s.drives drive).sectors) :
    DirSystem.Fresh { s with drives := Function.update s.drives drive after } := by
  intro volume other fs isCache isVolume
  obtain ⟨sound, xs, chain, isStart, entries⟩ := fresh volume other fs isCache isVolume
  refine ⟨sound, xs, ?_⟩
  dsimp only
  by_cases own : other = drive
  · subst own
    rw [Function.update_self, view_congr same]
    exact ⟨hasChain_sectors same chain, isStart, entries⟩
  · rw [Function.update_of_ne own]
    exact ⟨chain, isStart, entries⟩

/-- An operation on a chain that the cached directory shares no cluster with. -/
theorem fresh_touched (fresh : s.Fresh) (spares : s.Spares drive fs start)
    (touches : fs.Sound → ∀ zs, (s.drives drive).HasChain fs zs → zs.head?.getD 0 = start →
      Touches fs ((s.drives drive).Within fs zs) (s.drives drive) after) :
    DirSystem.Fresh { s with drives := Function.update s.drives drive after } := by
  intro volume other fs' isCache isVolume
  obtain ⟨sound, xs, chain, isStart, entries⟩ := fresh volume other fs' isCache isVolume
  refine ⟨sound, xs, ?_⟩
  dsimp only
  by_cases own : other = drive
  · subst own
    obtain ⟨rfl, ys, zs, chainYs, isStartYs, chainZs, isStartZs, apart⟩ :=
      spares volume fs' isCache isVolume
    obtain rfl := chain.unique chainYs (isStart.trans isStartYs.symm)
    have touched := touches sound zs chainZs isStartZs
    have outside : ∀ cluster ∈ xs, ¬ (s.drives other).Within fs' zs cluster := by
      rintro cluster member (inside | ⟨_, free⟩)
      · exact apart member inside
      · exact (chain.taken cluster member).2 free
    rw [Function.update_self]
    refine ⟨hasChain_congr (fun cluster member => touched.entry _ (outside cluster member)) chain,
      isStart, ?_⟩
    rw [entries, listing_congr fun cluster member => touched.data _ (outside cluster member)]
  · rw [Function.update_of_ne own]
    exact ⟨chain, isStart, entries⟩

theorem fresh_invalid (none : s.cache.fs = none) : s.Fresh := by
  intro volume drive fs isCache
  rw [none] at isCache
  cases isCache

end Kept

section Steps

variable {s s' : DirSystem} {volume drive partitionLba : Nat} {node : FatNode}

theorem onVolume_eq {α : Type} {op : Fat32Fs → Disk → Option (α × DirCache × Disk)} {result : α}
    (done : s.onVolume volume op = some (result, s')) :
    ∃ drive fs cache d, s.volumes volume = some (drive, fs) ∧
      op fs (s.drives drive) = some (result, cache, d) ∧
      s' = { s with drives := Function.update s.drives drive d, cache } := by
  obtain ⟨⟨drive, fs⟩, isVolume, ran⟩ := Option.bind_eq_some_iff.mp done
  obtain ⟨⟨same, cache, d⟩, isRun, outcome⟩ := Option.map_eq_some_iff.mp ran
  cases outcome
  exact ⟨drive, fs, cache, d, isVolume, isRun, rfl⟩

theorem fresh_mount (fresh : s.Fresh) (careful : s.Careful (.mount volume drive partitionLba))
    (step : dirStep s (.mount volume drive partitionLba) = some s') : s'.Fresh := by
  have kept := fresh_sectors fresh (@fat32Mount_sectors (s.drives drive) partitionLba)
  rw [dirStep] at step
  split at step
  · split at step
    · rename_i fs d mounted
      rw [mounted] at kept
      cases step
      intro other drive' fs' isCache isVolume
      have different : other ≠ volume := by
        rintro rfl
        exact careful isCache
      dsimp only at isVolume
      rw [Function.update_of_ne different] at isVolume
      exact kept other drive' fs' isCache isVolume
    · rename_i outcome d _ mounted
      rw [mounted] at kept
      cases step
      exact kept
  · cases step

theorem fresh_unmount (fresh : s.Fresh) :
    DirSystem.Fresh { s with volumes := Function.update s.volumes volume none } := by
  intro other drive fs isCache isVolume
  dsimp only at isVolume
  by_cases own : other = volume
  · rw [own, Function.update_self] at isVolume
    cases isVolume
  · rw [Function.update_of_ne own] at isVolume
    exact fresh other drive fs isCache isVolume

theorem fresh_readdir {index : Nat} {entry : Option (List UInt8 × Nat)} (fresh : s.Fresh)
    (careful : s.Careful (.readdir volume node index))
    (read : s.readdir volume node index = some (entry, s')) : s'.Fresh := by
  obtain ⟨drive, fs, cache, d, isVolume, ran, rfl⟩ := onVolume_eq read
  by_cases plain : node.attr &&& fat32AttrDirectory = 0
  · rw [fat32VfsReaddir, if_pos plain] at ran
    cases ran
    exact fresh_sectors fresh rfl
  · by_cases stale : s.cache.fs ≠ some volume ∨ s.cache.cluster ≠ node.cluster
    · obtain ⟨sound, xs, chain, isStart, whole⟩ := careful drive fs isVolume plain stale
      obtain ⟨after, filled, same⟩ := readdir_fills sound chain isStart whole plain stale index
      rw [filled] at ran
      cases ran
      intro other drive' fs' isCache isVolume'
      obtain rfl := Option.some.inj isCache
      obtain ⟨rfl, rfl⟩ := Prod.mk.inj (Option.some.inj (isVolume'.symm.trans isVolume))
      dsimp only
      rw [Function.update_self, view_congr same]
      exact ⟨sound, xs, hasChain_sectors same chain, isStart, rfl⟩
    · rw [fat32VfsReaddir, if_neg plain, if_neg stale] at ran
      cases ran
      exact fresh_sectors fresh rfl

/-- A create that writes to the drive invalidates the cache. -/
theorem vfsCreate_cases {fuel type : Nat} {name : List UInt8} {code : Int}
    {cache cache' : DirCache}
    (result : fat32VfsCreate fs fuel d cache node name type = some (code, cache', after)) :
    cache'.fs = none ∨ cache' = cache ∧ after.sectors = d.sectors := by
  rw [fat32VfsCreate] at result
  split at result
  · cases result
    exact .inr ⟨rfl, rfl⟩
  · obtain ⟨⟨found, middle⟩, isFound, created⟩ := Option.bind_eq_some_iff.mp result
    have kept := findEntry_sectors isFound
    cases found with
    | some entry =>
        cases created
        exact .inr ⟨rfl, kept⟩
    | none =>
        obtain ⟨_, _, same⟩ := Option.map_eq_some_iff.mp created
        cases same
        exact .inl rfl

/-- A write that leaves the cache changes the clusters of the file at most. -/
theorem vfsWrite_kept {fuel offset : Nat} {data : List UInt8} {code : Int} {node' : FatNode}
    (sound : fs.Sound) (chain : d.HasChain fs zs) (isStart : zs.head?.getD 0 = node.cluster)
    (result : fat32VfsWrite fs fuel d node offset data = some (code, node', after))
    (failed : ¬ 0 < code) : Touches fs (d.Within fs zs) d after := by
  have closed := closed_of_chain chain
  rw [fat32VfsWrite] at result
  split at result
  · cases result
    exact touches_of_same closed rfl
  · have writes := @writeFile_touches fs d (d.Within fs zs) sound ⟨node.cluster, node.fileSize⟩
      offset data closed (within_start isStart)
    rcases fat32WriteFile fs d ⟨node.cluster, node.fileSize⟩ offset data with ⟨code', file, last⟩
    dsimp only at result writes
    split at result
    · rename_i wrote
      split at result
      · cases result
        exact absurd wrote failed
      · obtain ⟨_, _, same⟩ := Option.map_eq_some_iff.mp result
        cases same
        exact absurd wrote failed
    · cases result
      exact writes

/-- An unlink that leaves the cache changes the FAT entries of the file at most. -/
theorem vfsUnlink_kept {fuel : Nat} {name : List UInt8} {code : Int} {cache cache' : DirCache}
    (chain : d.HasChain fs xs) (isStart : xs.head?.getD 0 = node.cluster) (sound : fs.Sound)
    (result : fat32VfsUnlink fs fuel d cache node name = some (code, cache', after)) :
    cache'.fs = none ∨ cache' = cache ∧ (after.sectors = d.sectors ∨
      ∃ place ∈ (d.view fs).findIn fs (findsEntry name) xs,
        2 ≤ direntCluster ((d.view fs).entryAt place) ∧
        ∀ zs, d.HasChain fs zs →
          zs.head?.getD 0 = direntCluster ((d.view fs).entryAt place) →
            Touches fs (d.Within fs zs) d after) := by
  rw [fat32VfsUnlink] at result
  split at result
  · cases result
    exact .inr ⟨rfl, .inl rfl⟩
  obtain ⟨⟨found, middle⟩, isFound, removed⟩ := Option.bind_eq_some_iff.mp result
  have kept := findEntry_sectors isFound
  cases found with
  | none =>
      cases removed
      exact .inr ⟨rfl, .inl kept⟩
  | some entry =>
      obtain ⟨place, isPlace, rfl⟩ := findEntry_finds sound chain isStart isFound
      dsimp only at removed
      split at removed
      · cases removed
        exact .inr ⟨rfl, .inl kept⟩
      obtain ⟨freed, isFreed, ended⟩ := Option.bind_eq_some_iff.mp removed
      have outcome : cache'.fs = none ∨ cache' = cache ∧ after.sectors = freed.sectors := by
        rw [kmalloc_eq] at ended
        cases memory : freed.memory 0 with
        | false =>
            rw [memory] at ended
            cases ended
            exact .inr ⟨rfl, rfl⟩
        | true =>
            rw [memory] at ended
            obtain ⟨⟨code', last⟩, searched, same⟩ := Option.map_eq_some_iff.mp ended
            cases same
            by_cases done : code' = 0
            · left
              dsimp only
              rw [if_pos done]
              rfl
            · have unwritten := unlinkFrom_sectors fuel searched done
              right
              dsimp only
              rw [if_neg done]
              exact ⟨rfl, unwritten⟩
      refine outcome.imp_right fun rest => ⟨rest.1, ?_⟩
      have sectors := rest.2
      split at isFreed
      · rename_i clusters
        refine .inr ⟨place, isPlace, clusters, fun zs chainZs isStartZs => ?_⟩
        have closed := closed_of_chain chainZs
        have finds := touches_of_same closed kept
        have frees := finds.trans
          (freeClusterChain_touches sound fuel finds.closed (within_start isStartZs) isFreed)
        exact frees.trans (touches_of_same frees.closed sectors)
      · cases isFreed
        exact .inl (sectors.trans kept)

theorem step_fresh (fresh : s.Fresh) (call : DirCall) (careful : s.Careful call)
    (step : dirStep s call = some s') : s'.Fresh := by
  cases call with
  | mount volume drive partitionLba => exact fresh_mount fresh careful step
  | unmount volume =>
      cases step
      exact fresh_unmount fresh
  | readdir volume node index =>
      obtain ⟨⟨entry, last⟩, read, same⟩ := Option.map_eq_some_iff.mp step
      cases same
      exact fresh_readdir fresh careful read
  | create volume node name type =>
      obtain ⟨⟨code, last⟩, created, same⟩ := Option.map_eq_some_iff.mp step
      cases same
      obtain ⟨drive, fs, cache, d, isVolume, ran, rfl⟩ := onVolume_eq created
      rcases vfsCreate_cases ran with invalid | ⟨rfl, sectors⟩
      · exact fresh_invalid invalid
      · exact fresh_sectors fresh sectors
  | write volume node offset data =>
      obtain ⟨⟨code, last⟩, wrote, same⟩ := Option.map_eq_some_iff.mp step
      cases same
      obtain ⟨drive, fs, cache, d, isVolume, ran, rfl⟩ := onVolume_eq wrote
      obtain ⟨⟨result, node', d'⟩, written, same⟩ := Option.map_eq_some_iff.mp ran
      cases same
      by_cases done : 0 < code
      · apply fresh_invalid
        dsimp only
        rw [if_pos done]
        rfl
      · rw [if_neg done]
        refine fresh_touched fresh (careful drive fs isVolume) fun sound zs chain isStart => ?_
        exact vfsWrite_kept sound chain isStart written done
  | unlink volume node name =>
      obtain ⟨⟨code, last⟩, removed, same⟩ := Option.map_eq_some_iff.mp step
      cases same
      obtain ⟨drive, fs, cache, d, isVolume, ran, rfl⟩ := onVolume_eq removed
      obtain ⟨sound, xs, chain, isStart, spares⟩ := careful drive fs isVolume
      rcases vfsUnlink_kept chain isStart sound ran with
        invalid | ⟨rfl, sectors | ⟨place, isPlace, clusters, touches⟩⟩
      · exact fresh_invalid invalid
      · exact fresh_sectors fresh sectors
      · exact fresh_touched fresh (spares place isPlace clusters) fun _ => touches

end Steps

section Enumeration

variable {s : DirSystem} {volume drive : Nat} {node : FatNode}

theorem reached_fresh (reached : Reachable (fun s : DirSystem => s.cache.fs = none)
    (Restricted DirSystem.Careful fun s call s' => dirStep s call = some s') s) : s.Fresh := by
  apply reached.invariant
  · intro state
    exact fresh_invalid
  · rintro state call after fresh ⟨careful, step⟩
    exact step_fresh fresh call careful step

theorem readdir_eq (isVolume : s.volumes volume = some (drive, fs)) (index : Nat) :
    s.readdir volume node index =
      (fat32VfsReaddir fs volume fs.turns (s.drives drive) s.cache node index).map
        fun (entry, cache, d) =>
          (entry, { s with drives := Function.update s.drives drive d, cache }) := by
  rw [DirSystem.readdir, DirSystem.onVolume, isVolume]
  rfl

/-- Once the directory is in the cache, no call changes anything. -/
theorem readAll_kept (isVolume : s.volumes volume = some (drive, fs))
    (directory : node.attr &&& fat32AttrDirectory ≠ 0) (isCache : s.cache.fs = some volume)
    (isCluster : s.cache.cluster = node.cluster) (count index : Nat) :
    DirSystem.readAll volume node count s index = some ((List.range' index count).map fun i =>
      s.cache.entries[i]?.map fun listing => (listing.name.take (vfsMaxName - 1), i)) := by
  induction count generalizing index with
  | zero => rfl
  | succ count ih =>
      have kept : Function.update s.drives drive (s.drives drive) = s.drives :=
        Function.update_eq_self ..
      rw [DirSystem.readAll, readdir_eq isVolume, readdir_kept directory isCache isCluster,
        Option.map_some, Option.bind_some]
      dsimp only
      rw [kept, ih (index + 1)]
      rfl

theorem readAll_cached (isVolume : s.volumes volume = some (drive, fs))
    (directory : node.attr &&& fat32AttrDirectory ≠ 0) (isCache : s.cache.fs = some volume)
    (isCluster : s.cache.cluster = node.cluster)
    (entries : s.cache.entries = (w.listing fs xs).map DirListing.cached) (count index : Nat) :
    DirSystem.readAll volume node count s index =
      some ((List.range' index count).map (readdirEntry (w.listing fs xs))) := by
  rw [readAll_kept isVolume directory isCache isCluster, entries]
  simp only [cached_entry]

/-- The cache has no place for an entry behind its size. -/
theorem readAll_short {code : Int} {listings : List DirListing} {after : Disk}
    (isVolume : s.volumes volume = some (drive, fs))
    (directory : node.attr &&& fat32AttrDirectory ≠ 0) (empty : s.cache.fs = none)
    (listed : fat32ListDir fs fs.turns (s.drives drive) node.cluster =
      some (code, listings, after)) :
    (DirSystem.readAll volume node (fat32DirCacheSize + 1) s 0).map
      (fun answers => answers[fat32DirCacheSize]?) = some (some none) := by
  have stale : s.cache.fs ≠ some volume ∨ s.cache.cluster ≠ node.cluster :=
    .inl (by rw [empty]; exact nofun)
  let filled : DirCache := listings.foldl dirCacheCallback ⟨some volume, node.cluster, []⟩
  have isFilled : filled =
      ⟨some volume, node.cluster, (listings.map DirListing.cached).take fat32DirCacheSize⟩ :=
    fill_eq (Nat.zero_le _)
  have missing : filled.entries[fat32DirCacheSize]? = none := by
    rw [isFilled]
    exact List.getElem?_eq_none (List.length_take_le _ _)
  have later := @readAll_kept fs
    { s with drives := Function.update s.drives drive after, cache := filled } volume drive node
    isVolume directory (by rw [isFilled]) (by rw [isFilled]) fat32DirCacheSize 1
  rw [DirSystem.readAll, readdir_eq isVolume, fat32VfsReaddir, if_neg directory, if_pos stale,
    listed, Option.map_some, Option.map_some, Option.map_some, Option.bind_some]
  dsimp only
  rw [later, Option.map_some, Option.map_some, Option.some.injEq, List.getElem?_cons,
    if_neg (by decide), List.getElem?_map, List.getElem?_range' (by decide), Option.map_some,
    Option.some.injEq]
  dsimp only
  rw [show 1 + 1 * (fat32DirCacheSize - 1) = fat32DirCacheSize from rfl, missing, Option.map_none]

/-- In a run of careful calls, reading a directory gives each of its visible entries once, in
their order, and then nothing. -/
theorem directory_enumerated (reached : Reachable (fun s : DirSystem => s.cache.fs = none)
      (Restricted DirSystem.Careful fun s call s' => dirStep s call = some s') s)
    (isVolume : s.volumes volume = some (drive, fs))
    (directory : node.attr &&& fat32AttrDirectory ≠ 0)
    (chain : (s.drives drive).HasChain fs xs) (isStart : xs.head?.getD 0 = node.cluster)
    (careful : s.Careful (.readdir volume node 0)) (count : Nat) :
    DirSystem.readAll volume node count s 0 = some ((List.range count).map
      (readdirEntry (((s.drives drive).view fs).listing fs xs))) := by
  rw [List.range_eq_range']
  by_cases stale : s.cache.fs ≠ some volume ∨ s.cache.cluster ≠ node.cluster
  · cases count with
    | zero => rfl
    | succ count =>
        obtain ⟨sound, ys, chainYs, isStartYs, whole⟩ :=
          careful drive fs isVolume directory stale
        obtain rfl := chainYs.unique chain (isStartYs.trans isStart.symm)
        obtain ⟨after, filled, _⟩ := readdir_fills sound chain isStart whole directory stale 0
        have later := @readAll_cached fs ys ((s.drives drive).view fs)
          { s with
            drives := Function.update s.drives drive after
            cache := ⟨some volume, node.cluster,
              (((s.drives drive).view fs).listing fs ys).map DirListing.cached⟩ }
          volume drive node isVolume directory rfl rfl rfl count 1
        rw [DirSystem.readAll, readdir_eq isVolume, filled, Option.map_some, Option.bind_some]
        dsimp only
        rw [later]
        rfl
  · obtain ⟨isCache, isCluster⟩ := not_or.mp stale
    rw [not_not] at isCache isCluster
    obtain ⟨_, ys, chainYs, isStartYs, entries⟩ :=
      reached_fresh reached volume drive fs isCache isVolume
    obtain rfl := chainYs.unique chain (isStartYs.trans (isCluster.trans isStart.symm))
    exact readAll_cached isVolume directory isCache isCluster entries count 0

end Enumeration

theorem directory_enumerated_labelled :
    DirSystem.readAll 1 emptyRoot 2
      ⟨fun _ => some (0, emptyVolume), fun _ => labelledDisk 0x47, emptyCache⟩ 0 =
        some [some ([0x46], 0), none] := by
  have whole : (labelledDisk 0x47).ListsWhole emptyVolume [2] :=
    ⟨rfl, fun _ _ => rfl, by decide⟩
  rw [@directory_enumerated emptyVolume [2] _ 1 0 emptyRoot (.start rfl) rfl (by decide)
    labelledDisk_chains.1 rfl (by
      intro drive fs isVolume _ _
      cases isVolume
      exact ⟨emptyVolume_sound, [2], labelledDisk_chains.1, rfl, whole⟩) 2]
  decide

/-- A volume with clusters of eight sectors, one of them for the root directory. -/
def crowdedVolume : Fat32Fs :=
  { partitionLba := 0, sectorsPerCluster := 8, fatStartLba := 1, fatSize := 1, dataStartLba := 2
    rootCluster := 2, totalClusters := 1 }

/-- All 128 entries of the root directory are in use. -/
def crowdedDisk : Disk :=
  { sectors := fun lba =>
      if lba = 1 then putBytes (fun _ => 0) 8 (le32 0x0FFFFFFF) else fun _ => 0x41
    transfers := fun _ => true
    memory := fun _ => true }

theorem crowdedDisk_root : crowdedDisk.HasChain crowdedVolume [2] := by
  refine ⟨⟨by decide, trivial⟩, fun cluster member => ?_⟩
  obtain rfl := List.mem_singleton.mp member
  exact ⟨by decide, by decide⟩

/-- The directory has an entry number 64, which `readdir` does not give. -/
theorem crowded_not_enumerated : ∃ s : DirSystem, s.cache.fs = none ∧
    s.volumes 1 = some (0, crowdedVolume) ∧ crowdedVolume.Sound ∧ (s.drives 0).Reliable ∧
    (s.drives 0).HasChain crowdedVolume [2] ∧
    DirSystem.readAll 1 emptyRoot 65 s 0 ≠ some ((List.range 65).map
      (readdirEntry (((s.drives 0).view crowdedVolume).listing crowdedVolume [2]))) := by
  have sound : crowdedVolume.Sound := by constructor <;> decide
  refine ⟨⟨fun _ => some (0, crowdedVolume), fun _ => crowdedDisk, emptyCache⟩, rfl, rfl, sound,
    ⟨fun _ => rfl, fun _ => rfl⟩, crowdedDisk_root, fun same => ?_⟩
  obtain ⟨code, after, listed, -⟩ := @listDir_whole crowdedVolume _ _ _ sound crowdedDisk_root 2 rfl
    rfl (fun _ _ => rfl) (Nat.le_refl _)
  have answers := @readAll_short crowdedVolume
    ⟨fun _ => some (0, crowdedVolume), fun _ => crowdedDisk, emptyCache⟩ 1 0 emptyRoot code _ after
    rfl (by decide) rfl listed
  have entry : (readdirEntry ((crowdedDisk.view crowdedVolume).listing crowdedVolume [2]) 64).isSome
      = true := by decide
  dsimp only at same
  generalize (crowdedDisk.view crowdedVolume).listing crowdedVolume [2] = listing at same entry
  rw [same, Option.map_some, Option.some.injEq, List.getElem?_map,
    List.getElem?_range (by decide), Option.map_some, Option.some.injEq] at answers
  change readdirEntry listing 64 = none at answers
  rw [answers] at entry
  cases entry

end ZurichOS
