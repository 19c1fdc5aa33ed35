import ZurichOS.FatHandles
import ZurichOS.FatStops
import ZurichOS.FatTree

set_option linter.all false

/-!
What a write that stops early leaves behind: the file, its directory entry, and the clusters.
-/

namespace ZurichOS

open ByteBuffer FileContents Words LinkedChains

variable {fs : Fat32Fs} {d after : Disk} {xs ys before rest : List Nat} {place : Nat × Nat}
  {cluster current c i start size : Nat} {hit : Buffer → Bool}

section Bytes

theorem le16_word16 (buf : Buffer) {k : Nat} (small : k < 2) :
    (le16 (word16 buf start)).getD k 0 = buf (start + k) := by
  have low := UInt8.toNat_lt (buf start)
  have high := UInt8.toNat_lt (buf (start + 1))
  apply UInt8.toNat_inj.mp
  obtain rfl | rfl : k = 0 ∨ k = 1 := by omega
  · change (UInt8.ofNat (word16 buf start)).toNat = (buf start).toNat
    rw [UInt8.toNat_ofNat', word16]
    omega
  · change (UInt8.ofNat (word16 buf start / 256)).toNat = _
    rw [UInt8.toNat_ofNat', word16]
    omega

theorem le32_word32 (buf : Buffer) {k : Nat} (small : k < 4) :
    (le32 (word32 buf start)).getD k 0 = buf (start + k) := by
  have low := @word16_lt buf start
  have high := @word16_lt buf (start + 2)
  have lower : le16 (word32 buf start) = le16 (word16 buf start) := by
    rw [le16, le16]
    congr 1
    · apply UInt8.toNat_inj.mp
      rw [UInt8.toNat_ofNat', UInt8.toNat_ofNat', word32]
      omega
    · congr 1
      apply UInt8.toNat_inj.mp
      rw [UInt8.toNat_ofNat', UInt8.toNat_ofNat', word32]
      omega
  have upper : word32 buf start / 65536 = word16 buf (start + 2) := by
    rw [word32]
    omega
  rw [le32, lower, upper]
  by_cases first : k < 2
  · rw [List.getD_append _ _ _ _ first, le16_word16 buf first]
  · obtain ⟨j, rfl⟩ : ∃ j, k = 2 + j := ⟨k - 2, by omega⟩
    rw [List.getD_append_right _ _ _ _ (Nat.le_add_right 2 j)]
    change (le16 (word16 buf (start + 2))).getD (2 + j - 2) 0 = _
    rw [Nat.add_sub_cancel_left, le16_word16 buf (by omega), Nat.add_assoc]

theorem putBytes_same {buf : Buffer} {bytes : List UInt8}
    (same : ∀ k < bytes.length, bytes.getD k 0 = buf (start + k)) :
    putBytes buf start bytes = buf := by
  funext p
  by_cases inside : start ≤ p ∧ p < start + bytes.length
  · rw [putBytes_inside buf inside.1 inside.2, same _ (by omega)]
    congr 1
    omega
  · rw [putBytes_outside buf (by omega)]

theorem putEntry_same {buf : Buffer} :
    putCluster (putBytes buf (32 * i + 28) (le32 (direntSize (direntAt buf i)))) i
      (direntCluster (direntAt buf i)) = buf := by
  have size : putBytes buf (32 * i + 28) (le32 (direntSize (direntAt buf i))) = buf := by
    apply putBytes_same
    intro k small
    rw [Nat.add_assoc]
    exact @le32_word32 28 (direntAt buf i) k small
  have high := @word16_lt (direntAt buf i) 20
  have low := @word16_lt (direntAt buf i) 26
  have joined : direntCluster (direntAt buf i) =
      word16 (direntAt buf i) 20 * 65536 + word16 (direntAt buf i) 26 := by
    rw [direntCluster, ← Nat.shiftLeft_add_eq_or_of_lt (show _ < 2 ^ 16 from low), Nat.shiftLeft_eq]
  have mask : ∀ value, value &&& 0xFFFF = value % 65536 := fun value =>
    Nat.and_two_pow_sub_one_eq_mod value 16
  have upper : direntCluster (direntAt buf i) >>> 16 &&& 0xFFFF = word16 (direntAt buf i) 20 := by
    rw [mask, Nat.shiftRight_eq_div_pow, joined]
    omega
  have lower : direntCluster (direntAt buf i) &&& 0xFFFF = word16 (direntAt buf i) 26 := by
    rw [mask, joined]
    omega
  rw [size, putCluster, upper, lower]
  have first : putBytes buf (32 * i + 20) (le16 (word16 (direntAt buf i) 20)) = buf := by
    apply putBytes_same
    intro k small
    rw [Nat.add_assoc]
    exact @le16_word16 20 (direntAt buf i) k small
  rw [first]
  apply putBytes_same
  intro k small
  rw [Nat.add_assoc]
  exact @le16_word16 26 (direntAt buf i) k small

end Bytes

section Updates

theorem steady_up_to (d : Disk) (left : Nat) :
    ∃ count ≤ left, d.SteadyFor count ∧ (count = left ∨ d.transfers count = false) := by
  induction left with
  | zero => exact ⟨0, Nat.le_refl 0, fun n below => absurd below (Nat.not_lt_zero n), .inl rfl⟩
  | succ left ih =>
      obtain ⟨count, within, steady, ends⟩ := ih
      rcases ends with rfl | fails
      · cases next : d.transfers count with
        | false => exact ⟨count, Nat.le_succ count, steady, .inr next⟩
        | true =>
            refine ⟨count + 1, Nat.le_refl _, fun n below => ?_, .inl rfl⟩
            rcases Nat.lt_succ_iff_lt_or_eq.mp below with early | rfl
            · exact steady n early
            · exact next
      · exact ⟨count, Nat.le_succ_of_le within, steady, .inr fails⟩

/-- To write a cluster back as it is leaves the volume as it is, at whatever sector it stops. -/
theorem writeCluster_same (sound : fs.Sound) (has : fs.HasCluster cluster) :
    (fat32WriteCluster fs d cluster ((d.view fs).data cluster)).2.view fs = d.view fs := by
  obtain ⟨count, within, steady, ends⟩ := steady_up_to d fs.sectorsPerCluster
  obtain ⟨taken, wrote, -⟩ :=
    writeCluster_stops sound has ((d.view fs).data cluster) steady within ends
  rw [wrote]
  change (d.withSectors (fs.overwritten cluster _ count d.sectors)).view fs = _
  rw [view_overwritten sound has _ within]
  apply FatView.ext
  · rfl
  · funext other
    by_cases own : other = cluster
    · subst own
      change Function.update (d.view fs).data other _ other = _
      rw [Function.update_self]
      funext p
      rw [Fat32Fs.clip, ite_self]
      by_cases inside : p < fs.clusterSize
      · rw [if_pos inside]
      · rw [if_neg inside]
        exact (if_neg fun both => inside both.2).symm
    · exact Function.update_of_ne own ..

/-- The walk over a directory comes to the entry, or does not get there for a transfer that
fails. -/
theorem walkDirectory_any (before : List Nat) (sound : fs.Sound) (fuel : Nat)
    (chain : d.HasChain fs (before ++ current :: rest))
    (found : (d.view fs).findIn fs hit (current :: rest) = some (c, i))
    (enough : rest.length < fuel) :
    ∃ result taken, walkDirectory fs hit fuel d current = some (result, d.advance taken) ∧
      ∀ place buf j, result = some (place, buf, j) →
        place = c ∧ j = i ∧ buf = (d.view fs).data c := by
  induction fuel generalizing d before current rest with
  | zero => omega
  | succ fuel ih =>
      have has := chain.mem.1
      rw [walkDirectory, if_neg (has.below sound)]
      by_cases steady : d.SteadyFor fs.sectorsPerCluster
      · rw [readCluster_steady has.1 steady, loaded_view sound has]
        dsimp only
        rw [FatView.findIn] at found
        cases scan : scanEntries ((d.view fs).data current) hit (List.range fs.entriesPerCluster) with
        | found j =>
            rw [scan] at found
            cases found
            refine ⟨_, _, rfl, fun place buf j same => ?_⟩
            cases same
            exact ⟨rfl, rfl, rfl⟩
        | last =>
            rw [scan] at found
            cases found
        | more =>
            rw [scan] at found
            dsimp only at found ⊢
            have linked : d.link fs current = rest.head?.getD 0 := by
              have kept : d.repaired.HasChain fs (before ++ current :: rest) :=
                ⟨chain.chained, chain.taken⟩
              have next := nextCluster_chain before sound repaired_reliable kept
              rw [nextCluster_eq, if_pos (repaired_reliable.transfers 0)] at next
              exact (Prod.mk.inj next).1
            rw [nextCluster_eq]
            dsimp only
            cases rest with
            | nil => cases found
            | cons next later =>
                rw [List.length_cons] at enough
                split
                · rw [show (d.advance fs.sectorsPerCluster).link fs current = _ from linked]
                  have regroup : before ++ current :: next :: later =
                      (before ++ [current]) ++ next :: later := by simp
                  rw [regroup] at chain
                  obtain ⟨result, taken, walked, is⟩ := @ih
                    ((d.advance fs.sectorsPerCluster).advance 1) later next (before ++ [current])
                    ⟨chain.chained, chain.taken⟩ found (by omega)
                  exact ⟨result, fs.sectorsPerCluster + 1 + taken, by
                    rw [← advance_advance, ← advance_advance]
                    exact walked, is⟩
                · obtain ⟨fuel, rfl⟩ := Nat.exists_eq_succ_of_ne_zero (show fuel ≠ 0 by omega)
                  rw [walkDirectory, if_pos (.inl rfl)]
                  refine ⟨none, fs.sectorsPerCluster + 1, by rw [← advance_advance], ?_⟩
                  intro place buf j same
                  cases same
      · obtain ⟨taken, failed⟩ := readCluster_fails (.inr steady)
        rw [failed]
        refine ⟨none, taken, rfl, fun place buf j same => ?_⟩
        cases same

/-- An update of the entry ends, whichever transfers fail; with the size and the cluster that the
entry has, it leaves the volume as it is. -/
theorem updateEntry_ends (sound : fs.Sound) (chain : d.HasChain fs xs)
    (isStart : xs.head?.getD 0 = start) {name : List UInt8}
    (found : (d.view fs).findIn fs (updatesEntry (fat32NameTo83 name)) xs = some place)
    {fuel : Nat} (enough : fs.totalClusters ≤ fuel) :
    ∃ code after, fat32UpdateEntrySize fs fuel d start name size cluster = some (code, after) ∧
      (direntSize ((d.view fs).entryAt place) = size →
        direntCluster ((d.view fs).entryAt place) = cluster → after.view fs = d.view fs) := by
  have short := chain.length_le
  rw [fat32UpdateEntrySize, kmalloc_eq]
  cases d.memory 0 with
  | false => exact ⟨-1, d.granted, rfl, fun _ _ => rfl⟩
  | true =>
      dsimp only
      cases xs with
      | nil => cases found
      | cons first rest =>
          obtain rfl : first = start := isStart
          rw [List.length_cons] at short
          have kept : d.granted.HasChain fs ([] ++ first :: rest) := ⟨chain.chained, chain.taken⟩
          obtain ⟨result, taken, walked, is⟩ := @walkDirectory_any fs d.granted rest first place.1
            place.2 _ [] sound fuel kept found (by omega)
          rw [walked]
          cases result with
          | none => exact ⟨-1, _, rfl, fun _ _ => rfl⟩
          | some hit =>
              obtain ⟨at', buf, j⟩ := hit
              obtain ⟨rfl, rfl, isBuf⟩ := is _ _ _ rfl
              have buffered : buf = (d.view fs).data place.1 := isBuf
              rw [Option.map_some]
              dsimp only
              refine ⟨0, _, rfl, fun isSize isCluster => ?_⟩
              have has := (chain.taken place.1 (findIn_mem found).1).1
              have same : (if cluster ≠ 0 then
                  putCluster (putBytes buf (32 * place.2 + 28) (le32 size)) place.2 cluster
                  else putBytes buf (32 * place.2 + 28) (le32 size)) = buf := by
                have entry : (d.view fs).entryAt place = direntAt buf place.2 := by
                  rw [buffered]
                  rfl
                rw [entry] at isSize isCluster
                have whole := @putEntry_same place.2 buf
                rw [isSize, isCluster] at whole
                by_cases none : cluster = 0
                · rw [if_neg (not_not.mpr none), ← isSize]
                  apply putBytes_same
                  intro k small
                  rw [Nat.add_assoc]
                  exact @le32_word32 28 (direntAt buf place.2) k small
                · rw [if_pos none, whole]
              rw [same, buffered]
              exact @writeCluster_same fs (d.granted.advance taken) place.1 sound has

end Updates

section Writes

/-- What a read of the whole file gives when nothing fails. -/
def Disk.contents (d : Disk) (fs : Fat32Fs) (node : FatNode) : List UInt8 :=
  (fat32ReadFile fs d.repaired ⟨node.cluster, node.fileSize⟩ 0 4294967295).2.1

/-- A node of the file at the place, in a volume whose clusters all belong to entries; `dirs` are
the clusters of its directory, where the name of the node leads to the place. -/
structure Disk.Opened (d : Disk) (fs : Fat32Fs) (place : Nat × Nat) (xs dirs : List Nat)
    (node : FatNode) : Prop where
  sound : fs.Sound
  entered : (d.view fs).AllEntered fs
  owned : (d.view fs).OwnedBy fs place xs
  covers : node.fileSize ≤ xs.length * fs.clusterSize
  start : node.cluster = (d.view fs).startOf fs (some place)
  size : node.fileSize = direntSize ((d.view fs).entryAt place)
  attr : node.attr = direntAttr ((d.view fs).entryAt place)
  directory : ∃ owner, (d.view fs).Reaches fs owner ∧ (d.view fs).IsDirectory owner ∧
    (d.view fs).ChainOf fs owner dirs ∧
    node.parentCluster = some ((d.view fs).startOf fs owner)
  updates : (d.view fs).findIn fs (updatesEntry (fat32NameTo83 node.name)) dirs = some place

/-- What is asked of a write: the bytes that it reports can be read back and the file has its
others, or nothing of the file has changed; the entry has the size and the cluster of the node;
and every cluster in use belongs to an entry. -/
structure WriteConsistent (d after : Disk) (fs : Fat32Fs) (place : Nat × Nat)
    (node last : FatNode) (offset : Nat) (data : List UInt8) (result : Int) : Prop where
  stored : 0 < result → offset + result.toNat ≤ (after.contents fs last).length ∧
    (∀ p, offset ≤ p → p < offset + result.toNat →
      (after.contents fs last).getD p 0 = data.getD (p - offset) 0) ∧
    ∀ p < (d.contents fs node).length, ¬ (offset ≤ p ∧ p < offset + result.toNat) →
      (after.contents fs last).getD p 0 = (d.contents fs node).getD p 0
  kept : result ≤ 0 → after.contents fs last = d.contents fs node
  listed : last.cluster = (after.view fs).startOf fs (some place) ∧
    last.fileSize = direntSize ((after.view fs).entryAt place)
  entered : (after.view fs).AllEntered fs

/-- A file without clusters on a full volume; or a file whose size covers the reported bytes, and
which has the further bytes already that the write stores and does not report. -/
def PartialSafe (d : Disk) (fs : Fat32Fs) (xs : List Nat) (node : FatNode) (stop : WriteStop)
    (offset : Nat) (data : List UInt8) : Prop :=
  let count := (xs ++ d.freeList fs).length
  let written := stop.written fs count offset
  if xs = [] then d.freeList fs = []
  else (0 < int32 written → offset + written ≤ node.fileSize) ∧
    ∀ p, offset + (if 0 < int32 written then written else 0) ≤ p →
      p < min (offset + data.length) (stop.reach fs count) → p < node.fileSize →
      data.getD (p - offset) 0 = (d.contents fs node).getD p 0

variable {dirs : List Nat} {node : FatNode} {offset : Nat} {data : List UInt8} {stop : WriteStop}
  {fuel : Nat}

theorem contents_chain (sound : fs.Sound) (chain : d.HasChain fs xs)
    (isStart : xs.head?.getD 0 = node.cluster) (word : node.fileSize < 4294967296) :
    d.contents fs node = d.fileBytes fs xs node.fileSize := by
  have kept : d.repaired.HasChain fs xs := ⟨chain.chained, chain.taken⟩
  have length : (d.fileBytes fs xs node.fileSize).length ≤ 4294967295 := by
    rw [Disk.fileBytes, length_image]
    omega
  rw [Disk.contents, @readFile_chain fs d.repaired xs ⟨node.cluster, node.fileSize⟩ sound
    repaired_reliable kept isStart 0 4294967295 (by decide)]
  change readAt (d.fileBytes fs xs node.fileSize) 0 4294967295 = _
  rw [readAt, List.drop_zero, List.take_of_length_le length]

theorem contents_empty (none : node.fileSize = 0) : d.contents fs node = [] := by
  rw [Disk.contents, fat32ReadFile, none, if_pos (Nat.le_refl 0)]

namespace Disk.Opened

variable (opened : d.Opened fs place xs dirs node)

include opened

theorem word : node.fileSize < 4294967296 := by
  rw [opened.size]
  exact word32_lt _

theorem isStart : xs.head?.getD 0 = node.cluster := opened.owned.own.isStart.trans opened.start.symm

theorem old : d.contents fs node = d.fileBytes fs xs node.fileSize :=
  contents_chain opened.sound opened.owned.own.chain opened.isStart opened.word

theorem old_length : (d.contents fs node).length = node.fileSize := by
  rw [opened.old, Disk.fileBytes, length_image, Nat.min_eq_left opened.covers]

theorem entry (longer : Extends fs d.repaired after xs ys) :
    (after.view fs).entryAt place = (d.view fs).entryAt place := by
  obtain ⟨owner, reached, directory, of, -⟩ := opened.directory
  exact longer.entryAt ⟨of.chained, of.taken⟩ (opened.owned.directory reached directory of)
    (mem_places.mpr (findIn_mem opened.updates))

/-- The update of the entry ends, and leaves the volume as it is if the entry has the values. -/
theorem update (longer : Extends fs d.repaired after xs ys) {reached : Disk}
    (same : reached.sectors = after.sectors) (enough : fs.totalClusters ≤ fuel) (size cluster : Nat) :
    ∃ dir code final, node.parentCluster = some dir ∧
      fat32UpdateEntrySize fs fuel reached dir node.name size cluster = some (code, final) ∧
      (node.fileSize = size → node.cluster = cluster → final.view fs = after.view fs) := by
  obtain ⟨owner, found, directory, of, isDir⟩ := opened.directory
  have apart := opened.owned.directory found directory of
  have chain : d.repaired.HasChain fs dirs := ⟨of.chained, of.taken⟩
  obtain ⟨chained, taken⟩ := (longer.other chain apart 0).1
  have view : reached.view fs = after.view fs := by
    unfold Disk.view
    rw [same]
  have kept : reached.HasChain fs dirs := by
    refine ⟨?_, ?_⟩
    · rw [Disk.table, view]
      exact chained
    · rw [Disk.table, view]
      exact taken
  have hits : (reached.view fs).findIn fs (updatesEntry (fat32NameTo83 node.name)) dirs =
      some place := by
    rw [view, ← opened.updates]
    apply findIn_congr (updatesEntry_nameOnly _)
    intro cluster member j _ k _
    rw [longer.data cluster (longer.apart chain apart member)]
    rfl
  obtain ⟨code, final, ended, keeps⟩ := @updateEntry_ends fs reached dirs place cluster _ size
    opened.sound kept of.isStart _ hits _ enough
  refine ⟨_, code, final, isDir, ended, fun isSize isCluster => ?_⟩
  rw [view, opened.entry longer] at keeps
  exact keeps (opened.size.symm.trans isSize) (opened.start.symm.trans isCluster)

theorem plain : node.attr &&& fat32AttrDirectory = 0 := by
  rw [opened.attr]
  exact not_not.mp opened.owned.plain

/-- What a write through the node has done when it stops.  The size of the file stays the same,
and so does its entry, but for one of a file that had no clusters. -/
theorem write_stops (stop : WriteStop) (granted : d.memory 0 = true) (some' : 0 < data.length)
    (happens : stop.Happens fs d xs offset data.length) (enough : fs.totalClusters ≤ fuel) :
    ∃ result last final after ys,
      fat32VfsWrite fs fuel d node offset data = some (result, last, final) ∧
      result = (if xs ++ d.freeList fs = [] then -1
        else int32 (stop.written fs (xs ++ d.freeList fs).length offset)) ∧
      Stopped fs d.repaired after xs ys offset data
        (stop.reach fs (xs ++ d.freeList fs).length) ∧
      (xs ++ ys = [] → xs ++ d.freeList fs = []) ∧ d.freeList fs = ys ++ after.freeList fs ∧
      last.fileSize = node.fileSize ∧
      (xs ≠ [] ∨ result ≤ 0 → last.cluster = node.cluster ∧ final.view fs = after.view fs) := by
  obtain ⟨start, reached, after, ys, ran, isFirst, stopped, free, empty⟩ :=
    @writeFile_stops fs d xs offset data opened.sound stop ⟨node.cluster, node.fileSize⟩ granted
      opened.owned.own.chain opened.isStart some' happens
  generalize isResult : (if xs ++ d.freeList fs = [] then (-1 : Int)
    else int32 (stop.written fs (xs ++ d.freeList fs).length offset)) = result at ran
  have same : (reached.withSectors after.sectors).view fs = after.view fs := rfl
  rw [fat32VfsWrite, if_neg (not_not.mpr opened.plain), ran]
  dsimp only
  by_cases positive : 0 < result
  · rw [if_pos positive]
    obtain ⟨dir, code, final, isDir, ended, keeps⟩ := @update fs d after xs ys place dirs node
      fuel opened stopped.longer (reached.withSectors after.sectors) rfl enough node.fileSize start
    rw [isDir]
    dsimp only
    rw [ended]
    refine ⟨result, _, final, after, ys, rfl, rfl, stopped, empty, free, rfl, fun some => ?_⟩
    obtain ⟨first, rest, isRest⟩ :=
      List.exists_cons_of_ne_nil (some.resolve_right (Int.not_le.mpr positive))
    have isStart := opened.isStart
    rw [isRest] at isStart isFirst
    have first : node.cluster = start := isStart.symm.trans isFirst
    exact ⟨first.symm, keeps rfl first⟩
  · rw [if_neg positive]
    exact ⟨result, node, _, after, ys, rfl, rfl, stopped, empty, free, rfl, fun _ => ⟨rfl, same⟩⟩

theorem new_getD {last : FatNode} {final : Disk} {reach : Nat}
    (stopped : Stopped fs d.repaired after xs ys offset data reach) (some : xs ≠ [])
    (isLast : last.cluster = node.cluster) (isSize : last.fileSize = node.fileSize)
    (same : final.view fs = after.view fs) :
    (final.contents fs last).length = node.fileSize ∧ ∀ p < node.fileSize,
      (final.contents fs last).getD p 0 =
        if offset ≤ p ∧ p < min (offset + data.length) reach then data.getD (p - offset) 0
        else (d.contents fs node).getD p 0 := by
  obtain ⟨first, rest, isRest⟩ := List.exists_cons_of_ne_nil some
  have chain := stopped.longer.chain
  have kept : final.HasChain fs (xs ++ ys) := by
    refine ⟨?_, ?_⟩
    · rw [Disk.table, same]
      exact chain.chained
    · rw [Disk.table, same]
      exact chain.taken
  have isStart : (xs ++ ys).head?.getD 0 = last.cluster := by
    rw [isLast, ← opened.isStart, isRest]
    rfl
  have covered : node.fileSize ≤ (xs ++ ys).length * fs.clusterSize := by
    refine opened.covers.trans (Nat.mul_le_mul_right _ ?_)
    rw [List.length_append]
    exact Nat.le_add_right ..
  have contents := contents_chain opened.sound kept isStart (by rw [isSize]; exact opened.word)
  rw [isSize, Disk.fileBytes, Nat.min_eq_left covered] at contents
  rw [contents]
  refine ⟨length_image, fun p inside => ?_⟩
  rw [getD_image inside, fileByte_congr (congrArg FatView.data same),
    stopped.bytes p (Nat.lt_of_lt_of_le inside covered), opened.old, Disk.fileBytes,
    Nat.min_eq_left opened.covers, getD_image inside]
  split
  · rfl
  · exact fileByte_append (Nat.lt_of_lt_of_le inside opened.covers)

theorem entered_iff {final : Disk} {reach : Nat}
    (stopped : Stopped fs d.repaired after xs ys offset data reach)
    (same : final.view fs = after.view fs) :
    ((final.view fs).AllEntered fs ↔ xs ≠ [] ∨ ys = []) ∧
      (final.view fs).startOf fs (some place) = node.cluster ∧
      direntSize ((final.view fs).entryAt place) = node.fileSize := by
  have entry := opened.entry stopped.longer
  rw [same]
  refine ⟨stopped.longer.allEntered_iff opened.owned opened.entered, ?_, ?_⟩
  · rw [FatView.startOf, entry]
    exact opened.start.symm
  · rw [entry]
    exact opened.size.symm

end Disk.Opened

theorem int32_pos {value : Nat} (small : value < 4294967296) (positive : 0 < int32 value) :
    (int32 value).toNat = value := by
  rw [int32, u32_eq_of_lt small] at positive ⊢
  split at positive
  · rename_i below
    rw [if_pos below]
    exact Int.toNat_natCast value
  · omega

theorem oneFileDisk_rootChain :
    (oneFileDisk.view emptyVolume).ChainOf emptyVolume none [2] :=
  ⟨oneFileDisk_root.chained, oneFileDisk_root.taken, rfl⟩

theorem oneFileDisk_reaches {owner : Option (Nat × Nat)}
    (reached : (oneFileDisk.view emptyVolume).Reaches emptyVolume owner) :
    owner = none ∨ owner = some (2, 0) := by
  induction reached with
  | root => exact .inl rfl
  | @entry owner zs place _ directory of listed _ ih =>
      rcases ih with rfl | rfl
      · obtain rfl := of.unique oneFileDisk_rootChain
        have only : (oneFileDisk.view emptyVolume).listed emptyVolume [2] = [(2, 0)] := by
          decide
        rw [only] at listed
        exact .inr (congrArg some (List.mem_singleton.mp listed))
      · exact absurd directory (by
          change ¬ direntAttr _ &&& fat32AttrDirectory ≠ 0
          decide)

theorem oneFileDisk_opened :
    oneFileDisk.Opened emptyVolume (2, 0) [] [2] (placeF.lookup emptyVolume oneFileDisk) := by
  have listed : (2, 0) ∈ (oneFileDisk.view emptyVolume).listed emptyVolume [2] := by
    decide
  have file : (oneFileDisk.view emptyVolume).ChainOf emptyVolume (some (2, 0)) [] :=
    ⟨trivial, fun cluster member => absurd member List.not_mem_nil, by
      change 0 = direntCluster _
      decide⟩
  refine ⟨emptyVolume_sound, ?_, ⟨?_, ?_, file, ?_, ?_⟩, ?_, rfl, rfl, rfl, ?_, ?_⟩
  · rintro cluster ⟨⟨lower, upper⟩, used⟩
    have small : ∀ cluster < 10, 3 ≤ cluster → (oneFileDisk.view emptyVolume).entry cluster = 0 := by
      decide
    have isRoot : cluster = 2 := by
      by_contra other
      exact used (small cluster upper (by omega))
    exact ⟨none, [2], .root, oneFileDisk_rootChain, List.mem_singleton.mpr isRoot⟩
  · intro owner reached
    rcases oneFileDisk_reaches reached with rfl | rfl
    · exact ⟨[2], oneFileDisk_rootChain⟩
    · exact ⟨[], file⟩
  · exact .entry .root trivial oneFileDisk_rootChain listed (by decide)
  · change ¬ direntAttr _ &&& fat32AttrDirectory ≠ 0
    decide
  · intro owner zs _ _ _
    exact List.disjoint_nil_right zs
  · decide
  · exact ⟨none, .root, trivial, oneFileDisk_rootChain, rfl⟩
  · decide

theorem oneFileDisk_full : WriteStop.full.Happens emptyVolume oneFileDisk [] 3583 2 :=
  ⟨by decide, fun _ _ => rfl, trivial⟩

end Writes

end ZurichOS
