import ZurichOS.FatChains
import ZurichOS.FatVfsCore

/-!
Directories: `fat32_find_entry` and `fat32_update_entry_size` on the chain of a directory.
-/

namespace ZurichOS

open ByteBuffer Words LinkedChains

variable {fs : Fat32Fs} {d after : Disk} {xs before rest : List Nat} {current c i : Nat}
  {hit : Buffer → Bool}

/-- The name and the attributes of an entry decide. -/
def NameOnly (hit : Buffer → Bool) : Prop :=
  ∀ entry other : Buffer, (∀ k < 12, other k = entry k) → hit other = hit entry

def FatView.dirent (w : FatView) (cluster i : Nat) : Buffer := direntAt (w.data cluster) i

/-- The place of the first entry that fits, in the clusters of a directory. -/
def FatView.findIn (w : FatView) (fs : Fat32Fs) (hit : Buffer → Bool) :
    List Nat → Option (Nat × Nat)
  | [] => none
  | cluster :: rest =>
      match scanEntries (w.data cluster) hit (List.range fs.entriesPerCluster) with
      | .found i => some (cluster, i)
      | .last => none
      | .more => w.findIn fs hit rest

section Entries

variable {entry other : Buffer} {buf : Buffer}

theorem format83Name_congr (same : ∀ k < 11, other k = entry k) :
    format83Name other = format83Name entry := by
  have base : bytesAt other 0 8 = bytesAt entry 0 8 :=
    bytesAt_congr fun k small => same (0 + k) (by omega)
  have ext : bytesAt other 8 3 = bytesAt entry 8 3 :=
    bytesAt_congr fun k small => same (8 + k) (by omega)
  rw [format83Name, format83Name, base, ext, same 8 (by omega)]

theorem findsEntry_nameOnly (name : List UInt8) : NameOnly (findsEntry name) := by
  intro entry other same
  rw [findsEntry, findsEntry, nameMatch, nameMatch, direntAttr, direntAttr,
    format83Name_congr fun k small => same k (by omega), same 0 (by omega), same 11 (by omega)]

theorem updatesEntry_nameOnly (name83 : List UInt8) : NameOnly (updatesEntry name83) := by
  intro entry other same
  have name : bytesAt other 0 11 = bytesAt entry 0 11 :=
    bytesAt_congr fun k small => same (0 + k) (by omega)
  rw [updatesEntry, updatesEntry, direntAttr, direntAttr, name, same 0 (by omega),
    same 11 (by omega)]

theorem entryBound (inside : i < fs.entriesPerCluster) {k : Nat} (small : k < 32) :
    32 * i + k < fs.clusterSize := by
  unfold Fat32Fs.entriesPerCluster at inside
  omega

theorem scanEntries_congr (nameOnly : NameOnly hit) {places : List Nat} {buf' : Buffer}
    (same : ∀ i ∈ places, ∀ k < 12, buf' (32 * i + k) = buf (32 * i + k)) :
    scanEntries buf' hit places = scanEntries buf hit places := by
  induction places with
  | nil => rfl
  | cons i rest ih =>
      have here := same i (List.mem_cons_self ..)
      have later := ih fun j member => same j (List.mem_cons_of_mem _ member)
      have first : buf' (32 * i) = buf (32 * i) := here 0 (by omega)
      have fits : hit (direntAt buf' i) = hit (direntAt buf i) := nameOnly _ _ here
      rw [scanEntries, scanEntries, first, fits, later]

theorem scanEntries_mem {places : List Nat} (found : scanEntries buf hit places = .found i) :
    i ∈ places := by
  induction places with
  | nil => cases found
  | cons j rest ih =>
      rw [scanEntries] at found
      split at found
      · cases found
      · split at found
        · cases found
          exact List.mem_cons_self ..
        · exact List.mem_cons_of_mem _ (ih found)

theorem findIn_congr {w w' : FatView} (nameOnly : NameOnly hit)
    (same : ∀ cluster ∈ xs, ∀ i < fs.entriesPerCluster, ∀ k < 12,
      w'.data cluster (32 * i + k) = w.data cluster (32 * i + k)) :
    w'.findIn fs hit xs = w.findIn fs hit xs := by
  induction xs with
  | nil => rfl
  | cons cluster rest ih =>
      rw [FatView.findIn, FatView.findIn,
        ih fun other member => same other (List.mem_cons_of_mem _ member)]
      rw [scanEntries_congr nameOnly fun i member =>
        same cluster (List.mem_cons_self ..) i (List.mem_range.mp member)]

theorem findIn_mem {w : FatView} (found : w.findIn fs hit xs = some (c, i)) :
    c ∈ xs ∧ i < fs.entriesPerCluster := by
  induction xs with
  | nil => cases found
  | cons cluster rest ih =>
      rw [FatView.findIn] at found
      split at found
      · rename_i place isFound
        cases found
        exact ⟨List.mem_cons_self .., List.mem_range.mp (scanEntries_mem isFound)⟩
      · cases found
      · obtain ⟨member, inside⟩ := ih found
        exact ⟨List.mem_cons_of_mem _ member, inside⟩

end Entries

section Walking

/-- The walk over a directory comes to the place of the first entry that fits. -/
theorem walkDirectory_found (before : List Nat) (sound : fs.Sound) (reliable : d.Reliable)
    (nameOnly : NameOnly hit) (fuel : Nat) (chain : d.HasChain fs (before ++ current :: rest))
    (found : (d.view fs).findIn fs hit (current :: rest) = some (c, i))
    (enough : rest.length < fuel) :
    ∃ buf, walkDirectory fs hit fuel d current = some (some (c, buf, i), d) ∧
      ∀ p < fs.clusterSize, buf p = (d.view fs).data c p := by
  induction fuel generalizing before current rest with
  | zero => omega
  | succ fuel ih =>
      have has := chain.mem.1
      obtain ⟨buf, read, loaded⟩ := readCluster_view sound reliable has
      have scan : scanEntries buf hit (List.range fs.entriesPerCluster) =
          scanEntries ((d.view fs).data current) hit (List.range fs.entriesPerCluster) := by
        apply scanEntries_congr nameOnly
        intro j member k small
        exact loaded _ (entryBound (List.mem_range.mp member) (by omega))
      rw [walkDirectory, if_neg (has.below sound), read]
      dsimp only
      rw [scan]
      rw [FatView.findIn] at found
      cases isScan : scanEntries ((d.view fs).data current) hit
        (List.range fs.entriesPerCluster) with
      | found place =>
          rw [isScan] at found
          cases found
          exact ⟨buf, rfl, loaded⟩
      | last =>
          rw [isScan] at found
          cases found
      | more =>
          rw [isScan] at found
          dsimp only
          rw [nextCluster_chain before sound reliable chain]
          cases rest with
          | nil => cases found
          | cons next later =>
              rw [List.length_cons] at enough
              have regroup : before ++ current :: next :: later =
                  (before ++ [current]) ++ next :: later := by simp
              exact ih (before ++ [current]) (regroup ▸ chain) found (by omega)

theorem walkDirectory_start (sound : fs.Sound) (reliable : d.Reliable) (nameOnly : NameOnly hit)
    (chain : d.HasChain fs xs) {start : Nat} (isStart : xs.head?.getD 0 = start)
    (found : (d.view fs).findIn fs hit xs = some (c, i)) {fuel : Nat}
    (enough : fs.totalClusters ≤ fuel) :
    ∃ buf, walkDirectory fs hit fuel d start = some (some (c, buf, i), d) ∧
      ∀ p < fs.clusterSize, buf p = (d.view fs).data c p := by
  have short := chain.length_le
  cases xs with
  | nil => cases found
  | cons first rest =>
      obtain rfl : first = start := isStart
      rw [List.length_cons] at short
      exact walkDirectory_found [] sound reliable nameOnly fuel chain found (by omega)

def direntNode (entry : Buffer) (dir : Nat) : FatNode :=
  { name := (cString (format83Name entry)).take (vfsMaxName - 1)
    flags := if direntAttr entry &&& fat32AttrDirectory ≠ 0 then vfsDirectory else vfsFile
    length := direntSize entry, inode := direntCluster entry, parent := none, ptr := none
    cluster := direntCluster entry, fileSize := direntSize entry, attr := direntAttr entry
    parentCluster := some dir }

theorem finddir_found (sound : fs.Sound) (reliable : d.Reliable) {node : FatNode}
    (directory : node.attr &&& fat32AttrDirectory ≠ 0) (chain : d.HasChain fs xs)
    (isStart : xs.head?.getD 0 = node.cluster) {name : List UInt8}
    (found : (d.view fs).findIn fs (findsEntry name) xs = some (c, i)) {fuel : Nat}
    (enough : fs.totalClusters ≤ fuel) :
    fat32VfsFinddir fs fuel d node name =
      some (some (direntNode ((d.view fs).dirent c i) node.cluster), d) := by
  obtain ⟨buf, walked, loaded⟩ := walkDirectory_start sound reliable (findsEntry_nameOnly name)
    chain isStart found enough
  have bytes : ∀ k < 32, direntAt buf i k = (d.view fs).dirent c i k := by
    intro k small
    exact loaded _ (entryBound (findIn_mem found).2 small)
  have high : word16 (direntAt buf i) 20 = word16 ((d.view fs).dirent c i) 20 :=
    word16_congr (bytes 20 (by omega)) (bytes 21 (by omega))
  have low : word16 (direntAt buf i) 26 = word16 ((d.view fs).dirent c i) 26 :=
    word16_congr (bytes 26 (by omega)) (bytes 27 (by omega))
  have size : word32 (direntAt buf i) 28 = word32 ((d.view fs).dirent c i) 28 :=
    word32_congr fun k small => bytes (28 + k) (by omega)
  have name83 := format83Name_congr fun k small => bytes k (Nat.lt_trans small (by decide))
  rw [fat32VfsFinddir, if_neg directory, fat32FindEntry, reliable.kmalloc]
  dsimp only
  rw [walked]
  simp only [Option.map_some, fat32CreateVfsNode, reliable.kmalloc, direntNode, direntCluster,
    direntSize, direntAttr, high, low, size, name83, bytes 11 (by omega)]
  rfl

end Walking

section Updating

variable {cluster size : Nat}

theorem joinCluster (small : cluster < 4294967296) :
    ((cluster >>> 16 &&& 0xFFFF) % 65536) <<< 16 ||| (cluster &&& 0xFFFF) % 65536 = cluster := by
  have mask : ∀ value, value &&& 0xFFFF = value % 65536 := fun value =>
    Nat.and_two_pow_sub_one_eq_mod value 16
  rw [mask, mask, Nat.shiftRight_eq_div_pow, Nat.mod_mod, Nat.mod_mod,
    ← Nat.shiftLeft_add_eq_or_of_lt (show cluster % 65536 < 2 ^ 16 by omega),
    Nat.shiftLeft_eq]
  omega

theorem putCluster_outside (buf : Buffer) {p : Nat}
    (outside : p < 32 * i + 20 ∨ 32 * i + 22 ≤ p ∧ p < 32 * i + 26 ∨ 32 * i + 28 ≤ p) :
    putCluster buf i cluster p = buf p := by
  rw [putCluster, putBytes_outside _ (by rw [le16_length]; omega),
    putBytes_outside _ (by rw [le16_length]; omega)]

/-- The entry gets its size and its cluster, and nothing else in the directory changes. -/
theorem updateEntry_found (sound : fs.Sound) (reliable : d.Reliable) (chain : d.HasChain fs xs)
    {start : Nat} (isStart : xs.head?.getD 0 = start) {name : List UInt8}
    (found : (d.view fs).findIn fs (updatesEntry (fat32NameTo83 name)) xs = some (c, i)) {fuel : Nat}
    (enough : fs.totalClusters ≤ fuel) (nonzero : cluster ≠ 0) (small : cluster < 4294967296)
    (smallSize : size < 4294967296) :
    ∃ after, fat32UpdateEntrySize fs fuel d start name size cluster = some (0, after) ∧
      Extends fs d after xs [] ∧ direntSize ((after.view fs).dirent c i) = size ∧
      direntCluster ((after.view fs).dirent c i) = cluster ∧
      ∀ other p, p < fs.clusterSize → (other ≠ c ∨ p < 32 * i + 12 ∨ 32 * i + 32 ≤ p) →
        (after.view fs).data other p = (d.view fs).data other p := by
  obtain ⟨member, inside⟩ := findIn_mem found
  obtain ⟨buf, walked, loaded⟩ := walkDirectory_start sound reliable (updatesEntry_nameOnly _)
    chain isStart found enough
  generalize isNew : putCluster (putBytes buf (32 * i + 28) (le32 size)) i cluster = new
  obtain ⟨after, wrote, longer, view⟩ := writeCluster_chain sound reliable chain member new
  have data : ∀ p < fs.clusterSize, (after.view fs).data c p = new p := by
    intro p below
    rw [view]
    simp only [FatView.setData, Function.update_self, Fat32Fs.clip, if_pos below]
  have bytes : ∀ k < 32, (after.view fs).dirent c i k = new (32 * i + k) := by
    intro k below
    exact data _ (entryBound inside below)
  refine ⟨after, ?_, longer, ?_, ?_, ?_⟩
  · rw [fat32UpdateEntrySize, reliable.kmalloc]
    dsimp only
    rw [walked]
    simp only [Option.map_some, if_pos nonzero, isNew, wrote]
  · have word : direntSize ((after.view fs).dirent c i) = word32 new (32 * i + 28) := by
      rw [direntSize, word32, word32, word16, word16, word16, word16, bytes 28 (by omega),
        bytes (28 + 1) (by omega), bytes (28 + 2) (by omega), bytes (28 + 2 + 1) (by omega)]
    have kept : word32 new (32 * i + 28) =
        word32 (putBytes buf (32 * i + 28) (le32 size)) (32 * i + 28) := by
      apply word32_congr
      intro k _
      rw [← isNew, putCluster_outside _ (by omega)]
    rw [word, kept, word32_put, Nat.mod_eq_of_lt smallSize]
  · have high : word16 ((after.view fs).dirent c i) 20 = word16 new (32 * i + 20) := by
      rw [word16, word16, bytes 20 (by omega), bytes (20 + 1) (by omega)]
    have low : word16 ((after.view fs).dirent c i) 26 = word16 new (32 * i + 26) := by
      rw [word16, word16, bytes 26 (by omega), bytes (26 + 1) (by omega)]
    rw [direntCluster, high, low, ← isNew, putCluster, word16_put,
      word16_outside _ (by rw [le16_length]; omega), word16_put, joinCluster small]
  · intro other p below apart
    by_cases own : other = c
    · subst own
      rw [data p below, ← isNew, putCluster_outside _ (by omega),
        putBytes_outside _ (by rw [le32_length]; omega), loaded p below]
    · rw [view]
      exact congrFun (Function.update_of_ne own ..) p

end Updating

end ZurichOS
