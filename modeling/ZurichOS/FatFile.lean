import ZurichOS.FatWrite
import ZurichOS.FileContents

set_option linter.all false

/-!
Reading after writing: a file of the volume is a list of bytes, `fat32_read_file` gives
slices of it and `fat32_write_file` overwrites it.
-/

namespace ZurichOS

open ByteBuffer Words LinkedChains FileContents

variable {fs : Fat32Fs} {d after : Disk} {xs ys zs rest : List Nat} {file : FatFile}

/-- The bytes of a file: its size, as far as the clusters reach. -/
def Disk.fileBytes (d : Disk) (fs : Fat32Fs) (xs : List Nat) (size : Nat) : List UInt8 :=
  image (d.fileByte fs xs) (min size (xs.length * fs.clusterSize))

section Reading

variable {current : Nat}

theorem fileByte_at (before : List Nat) {k : Nat} (inside : k < fs.clusterSize) :
    d.fileByte fs (before ++ current :: rest) (before.length * fs.clusterSize + k) =
      (d.view fs).data current k := by
  have positive : 0 < fs.clusterSize := Nat.lt_of_le_of_lt (Nat.zero_le _) inside
  have quotient : (before.length * fs.clusterSize + k) / fs.clusterSize = before.length := by
    rw [Nat.add_comm, Nat.add_mul_div_right _ _ positive, Nat.div_eq_of_lt inside, Nat.zero_add]
  have remainder : (before.length * fs.clusterSize + k) % fs.clusterSize = k := by
    rw [Nat.add_comm, Nat.add_mul_mod_self_right, Nat.mod_eq_of_lt inside]
  rw [Disk.fileByte, quotient, remainder, List.getD_append_right _ _ _ _ (Nat.le_refl _),
    Nat.sub_self]
  rfl

/-- The loop over the clusters before the offset ends at the cluster of the offset, or
with 0 behind the end of the chain. -/
theorem seekRead_chain (sound : fs.Sound) (reliable : d.Reliable) (steps index : Nat)
    (before : List Nat) (chain : d.HasChain fs (before ++ current :: rest)) :
    (rest.length < steps ∧ ∃ stopped, seekRead fs steps d current index = (0, stopped, d)) ∨
      ∃ front next later, seekRead fs steps d current index = (next, index + steps, d) ∧
        before ++ current :: rest = front ++ next :: later ∧
        front.length = before.length + steps := by
  induction steps generalizing before current rest index with
  | zero => exact .inr ⟨before, current, rest, rfl, rfl, rfl⟩
  | succ steps ih =>
      have nonzero : current ≠ 0 := by
        have lower := chain.mem.1.1
        omega
      rw [seekRead, if_pos nonzero, nextCluster_chain before sound reliable chain]
      cases rest with
      | nil =>
          left
          refine ⟨Nat.succ_pos _, ?_⟩
          cases steps with
          | zero => exact ⟨_, rfl⟩
          | succ steps => exact ⟨_, if_neg (not_not.mpr rfl)⟩
      | cons next later =>
          have regroup : before ++ current :: next :: later = (before ++ [current]) ++ next :: later := by
            simp
          rw [regroup] at chain ⊢
          dsimp only [List.head?_cons, Option.getD_some]
          rcases ih (index + 1) _ chain with ⟨short, stopped⟩ | ⟨front, found, last, sought, split, size⟩
          · left
            refine ⟨?_, stopped⟩
            rw [List.length_cons]
            omega
          · right
            refine ⟨front, found, last, ?_, split, ?_⟩
            · rw [sought]
              congr 2
              omega
            · rw [size, List.length_append, List.length_singleton]
              omega

theorem readLoop_end {size first offsetInCluster : Nat} (fuel : Nat) {out : List UInt8}
    {index : Nat} (ends : size ≤ out.length ∨ current = 0) :
    readLoop fs size first offsetInCluster fuel d out current index =
      (int32 out.length, out, d) := by
  cases fuel with
  | zero => rfl
  | succ fuel =>
      rw [readLoop, if_neg]
      rintro ⟨more, nonzero, _⟩
      omega

theorem bytesAt_cluster {buf : Buffer} {start count position : Nat}
    (loaded : ∀ i < fs.clusterSize, buf i = (d.view fs).data current i)
    (place : before.length * fs.clusterSize + start = position)
    (fits : start + count ≤ fs.clusterSize) : bytesAt buf start count =
      bytesAt (d.fileByte fs (before ++ current :: rest)) position count := by
  apply List.map_congr_left
  intro i member
  have below : start + i < fs.clusterSize := by
    have small := List.mem_range.mp member
    omega
  rw [loaded _ below, ← place, Nat.add_assoc, fileByte_at before below]

/-- A round copies what the cluster holds of the range, and goes on at the next cluster. -/
theorem readLoop_step (sound : fs.Sound) (reliable : d.Reliable)
    {first offsetInCluster offset size start : Nat} (fuel : Nat) {out : List UInt8}
    {before : List Nat} (chain : d.HasChain fs (before ++ current :: rest))
    (isStart : (if before.length = first then offsetInCluster else 0) = start)
    (within : start < fs.clusterSize)
    (place : before.length * fs.clusterSize + start = offset + out.length)
    (more : out.length < size) :
    readLoop fs size first offsetInCluster (fuel + 1) d out current before.length =
      readLoop fs size first offsetInCluster fuel d
        (out ++ bytesAt (d.fileByte fs (before ++ current :: rest)) (offset + out.length)
          (min (fs.clusterSize - start) (size - out.length)))
        (rest.head?.getD 0) (before.length + 1) := by
  have has := chain.mem.1
  obtain ⟨positive, small⟩ := not_or.mp (has.below sound)
  have going : out.length < size ∧ current ≠ 0 ∧ current < fat32ClusterEnd :=
    ⟨more, positive, Nat.lt_of_not_le small⟩
  obtain ⟨buf, read, loaded⟩ := readCluster_view sound reliable has
  have part : bytesAt buf start (min (fs.clusterSize - start) (size - out.length)) =
      bytesAt (d.fileByte fs (before ++ current :: rest)) (offset + out.length)
        (min (fs.clusterSize - start) (size - out.length)) :=
    bytesAt_cluster loaded place (by omega)
  rw [readLoop, if_pos going, read]
  dsimp only
  rw [isStart, part, nextCluster_chain before sound reliable chain]

theorem readLoop_chain (sound : fs.Sound) (reliable : d.Reliable) {first offsetInCluster : Nat}
    (offset size : Nat) (inCluster : offsetInCluster < fs.clusterSize) (fuel index : Nat)
    (out : List UInt8) (before : List Nat)
    (chain : d.HasChain fs (before ++ current :: rest)) (isIndex : before.length = index)
    (ordered : first ≤ index)
    (place : index * fs.clusterSize + (if index = first then offsetInCluster else 0) =
      offset + out.length) (notMore : out.length ≤ size) (enough : size ≤ out.length + fuel) :
    readLoop fs size first offsetInCluster fuel d out current index =
      let bytes := out ++ bytesAt (d.fileByte fs (before ++ current :: rest)) (offset + out.length)
        (min size ((before ++ current :: rest).length * fs.clusterSize - offset) - out.length)
      (int32 bytes.length, bytes, d) := by
  induction fuel generalizing before current rest index out with
  | zero =>
      have none : min size ((before ++ current :: rest).length * fs.clusterSize - offset) -
        out.length = 0 := by omega
      rw [none]
      simp [readLoop, bytesAt]
  | succ fuel ih =>
      by_cases more : out.length < size
      · subst isIndex
        generalize isStart : (if before.length = first then offsetInCluster else 0) = start at place
        have within : start < fs.clusterSize := by
          have positive := sound.clusterSize_pos
          split at isStart <;> omega
        rw [readLoop_step sound reliable fuel chain isStart within place more]
        generalize isSize : min (fs.clusterSize - start) (size - out.length) = count
        have area : (before ++ current :: rest).length * fs.clusterSize =
            before.length * fs.clusterSize + fs.clusterSize + rest.length * fs.clusterSize := by
          rw [List.length_append, List.length_cons, ← Nat.succ_mul, ← Nat.add_mul]
          congr 1
          omega
        by_cases finished : out.length + count = size
        · rw [readLoop_end fuel (.inl (by
            rw [List.length_append, bytesAt_length]
            omega))]
          have whole : min size ((before ++ current :: rest).length * fs.clusterSize - offset) -
              out.length = count := by
            rw [area]
            omega
          rw [whole]
        · have toEnd : start + count = fs.clusterSize := by omega
          cases rest with
          | nil =>
              rw [List.head?_nil, Option.getD_none, readLoop_end fuel (.inr rfl)]
              have whole : min size ((before ++ [current]).length * fs.clusterSize - offset) -
                  out.length = count := by
                rw [area, List.length_nil, Nat.zero_mul]
                omega
              rw [whole]
          | cons next later =>
              have regroup : before ++ current :: next :: later =
                  (before ++ [current]) ++ next :: later := by simp
              have newLength : (out ++ bytesAt (d.fileByte fs (before ++ current :: next :: later))
                  (offset + out.length) count).length = out.length + count := by
                rw [List.length_append, bytesAt_length]
              rw [List.head?_cons, Option.getD_some]
              rw [ih (before.length + 1) _ (before ++ [current]) (regroup ▸ chain) (by simp)
                (by omega) (by rw [if_neg (by omega), newLength, Nat.succ_mul]; omega)
                (by rw [newLength]; omega) (by rw [newLength]; omega)]
              rw [← regroup, newLength, List.append_assoc, ← Nat.add_assoc, bytesAt_append]
              have whole : count + (min size ((before ++ current :: next :: later).length *
                  fs.clusterSize - offset) - (out.length + count)) =
                  min size ((before ++ current :: next :: later).length * fs.clusterSize - offset) -
                    out.length := by
                rw [area, List.length_cons, Nat.succ_mul]
                omega
              rw [whole]
      · have none : min size ((before ++ current :: rest).length * fs.clusterSize - offset) -
          out.length = 0 := by omega
        rw [readLoop_end _ (.inl (by omega)), none]
        simp [bytesAt]

theorem readFile_chain (sound : fs.Sound) (reliable : d.Reliable) (chain : d.HasChain fs xs)
    (isStart : xs.head?.getD 0 = file.startCluster) {offset size : Nat}
    (small : offset + size < 4294967296) :
    fat32ReadFile fs d file offset size =
      let bytes := readAt (d.fileBytes fs xs file.fileSize) offset size
      (int32 bytes.length, bytes, d) := by
  have positive := sound.clusterSize_pos
  have slice : readAt (d.fileBytes fs xs file.fileSize) offset size =
      bytesAt (d.fileByte fs xs) offset
        (min size (min file.fileSize (xs.length * fs.clusterSize) - offset)) := readAt_image size
  rw [slice, fat32ReadFile]
  by_cases beyond : file.fileSize ≤ offset
  · have none : min size (min file.fileSize (xs.length * fs.clusterSize) - offset) = 0 := by omega
    rw [if_pos beyond, none]
    rfl
  · rw [if_neg beyond, u32_eq_of_lt small, reliable.kmalloc]
    dsimp only
    generalize isCut : (if file.fileSize < offset + size then file.fileSize - offset else size) = cut
    have limit : min size (min file.fileSize (xs.length * fs.clusterSize) - offset) =
        min cut (xs.length * fs.clusterSize - offset) := by
      split at isCut <;> omega
    rw [limit]
    have position := Nat.div_add_mod offset fs.clusterSize
    rw [Nat.mul_comm] at position
    rcases chain_of_start chain isStart with ⟨isZero, empty⟩ | ⟨_, rest, isRest⟩
    · have stopped : ∀ steps, (seekRead fs steps d 0 0).1 = 0 ∧ (seekRead fs steps d 0 0).2.2 = d := by
        intro steps
        cases steps with
        | zero => exact ⟨rfl, rfl⟩
        | succ steps =>
            rw [seekRead, if_neg (not_not.mpr rfl)]
            exact ⟨rfl, rfl⟩
      have none : min cut (xs.length * fs.clusterSize - offset) = 0 := by simp [empty]
      rw [isZero, (stopped _).1, (stopped _).2, readLoop_end _ (.inr rfl), none]
      rfl
    · have whole : d.HasChain fs ([] ++ file.startCluster :: rest) := isRest ▸ chain
      have count : xs.length = rest.length + 1 := by rw [isRest, List.length_cons]
      rcases seekRead_chain sound reliable (offset / fs.clusterSize) 0 [] whole with
        ⟨short, stopped, result⟩ | ⟨front, next, later, result, split, length⟩
      · rw [result]
        dsimp only
        rw [readLoop_end _ (.inr rfl)]
        have area : (rest.length + 1) * fs.clusterSize ≤
            offset / fs.clusterSize * fs.clusterSize := Nat.mul_le_mul_right _ short
        have none : min cut (xs.length * fs.clusterSize - offset) = 0 := by
          rw [count]
          omega
        rw [none]
        rfl
      · rw [result]
        dsimp only
        rw [List.nil_append] at split
        rw [List.length_nil, Nat.zero_add] at length
        rw [readLoop_chain sound reliable offset cut (Nat.mod_lt _ positive) cut _ [] front
          (split ▸ isRest ▸ chain) (by rw [length, Nat.zero_add]) (by omega)
          (by rw [Nat.zero_add, if_pos rfl, List.length_nil]; omega) (Nat.zero_le _) (by simp)]
        simp only [List.nil_append, List.length_nil, Nat.add_zero, Nat.sub_zero, ← split, isRest]

end Reading

def Fat32Fs.clustersFor (fs : Fat32Fs) (size : Nat) : Nat :=
  (size + fs.clusterSize - 1) / fs.clusterSize

def Disk.freeClusters (d : Disk) (fs : Fat32Fs) : Finset Nat :=
  (Finset.Ico 2 (fs.totalClusters + 2)).filter fun cluster => (d.view fs).entry cluster = 0

/-- The chain of the file has exactly the clusters its size needs. -/
structure Disk.HasFile (d : Disk) (fs : Fat32Fs) (xs : List Nat) (file : FatFile) : Prop where
  chain : d.HasChain fs xs
  start : xs.head?.getD 0 = file.startCluster
  exact : xs.length = fs.clustersFor file.fileSize

section Writing

variable {offset : Nat} {data : List UInt8}

theorem clustersFor_le_iff (sound : fs.Sound) {size count : Nat} :
    fs.clustersFor size ≤ count ↔ size ≤ count * fs.clusterSize := by
  have positive := sound.clusterSize_pos
  rw [← Nat.lt_succ_iff, Fat32Fs.clustersFor, Nat.div_lt_iff_lt_mul positive, Nat.succ_mul]
  omega

theorem Disk.HasFile.covers (sound : fs.Sound) (has : d.HasFile fs xs file) :
    file.fileSize ≤ xs.length * fs.clusterSize :=
  (clustersFor_le_iff sound).mp (Nat.le_of_eq has.exact.symm)

/-- On a volume that has become full, all clusters that were free are in the chain. -/
theorem Extends.free_le (longer : Extends fs d after xs ys) (chain : d.HasChain fs xs)
    (full : (after.view fs).Full fs) : (d.freeClusters fs).card ≤ ys.length := by
  have inside : d.freeClusters fs ⊆ ys.toFinset := by
    intro cluster member
    obtain ⟨range, free⟩ := Finset.mem_filter.mp member
    have has : fs.HasCluster cluster := Finset.mem_Ico.mp range
    rw [List.mem_toFinset]
    by_contra outside
    have notTaken : ¬ (d.table fs).taken cluster := fun taken => taken.2 free
    apply notTaken
    have apart : cluster ∉ xs ++ ys := by
      intro inChain
      rcases List.mem_append.mp inChain with old | new
      · exact notTaken (chain.taken cluster old)
      · exact outside new
    exact (longer.grown.others cluster apart).2.mp ⟨has, full cluster has⟩
  exact (Finset.card_le_card inside).trans (List.toFinset_card_le ys)

theorem Extends.apart (longer : Extends fs d after xs ys) (chain : d.HasChain fs zs)
    (apart : zs.Disjoint xs) : zs.Disjoint (xs ++ ys) := by
  intro cluster member inChain
  rcases List.mem_append.mp inChain with old | new
  · exact apart member old
  · exact longer.grown.fresh cluster new (chain.taken cluster member)

theorem Extends.other (longer : Extends fs d after xs ys) (chain : d.HasChain fs zs)
    (apart : zs.Disjoint xs) (size : Nat) :
    after.HasChain fs zs ∧ after.fileBytes fs zs size = d.fileBytes fs zs size := by
  have outside : ∀ cluster ∈ zs, cluster ∉ xs ++ ys := longer.apart chain apart
  refine ⟨⟨?_, ?_⟩, ?_⟩
  · apply chain.chained.congr
    intro cluster member
    exact (longer.grown.others cluster (outside cluster member)).1
  · intro cluster member
    exact (longer.grown.others cluster (outside cluster member)).2.mpr (chain.taken cluster member)
  · apply List.map_congr_left
    intro position member
    have below := List.mem_range.mp member
    have inside : position / fs.clusterSize < zs.length := by
      apply Nat.div_lt_of_lt_mul
      rw [Nat.mul_comm]
      omega
    rw [Disk.fileByte, Disk.fileByte, List.getD_eq_getElem _ _ inside,
      longer.data _ (outside _ (List.getElem_mem inside))]

/-- The written chain holds the old bytes overwritten by the data. -/
theorem Wrote.contents (all : Wrote fs d after xs ys offset data 0 data.length) {size : Nat}
    (inside : offset ≤ size) (covers : size ≤ xs.length * fs.clusterSize) :
    max size (offset + data.length) ≤ (xs ++ ys).length * fs.clusterSize ∧
      after.fileBytes fs (xs ++ ys) (max size (offset + data.length)) =
        writeAt (d.fileBytes fs xs size) offset data := by
  have covered := all.covered
  have reach : max size (offset + data.length) ≤ (xs ++ ys).length * fs.clusterSize := by
    have more := Nat.mul_le_mul_right fs.clusterSize
      (@List.length_append _ xs ys ▸ Nat.le_add_right xs.length ys.length)
    omega
  refine ⟨reach, ?_⟩
  rw [Disk.fileBytes, Disk.fileBytes, Nat.min_eq_left reach, Nat.min_eq_left covers]
  apply image_writeAt inside
  intro position bound
  rw [all.bytes position (by omega), Nat.add_zero]
  by_cases written : offset ≤ position ∧ position < offset + data.length
  · rw [if_pos written, if_pos written]
  · rw [if_neg written, if_neg written]
    exact fileByte_append (by omega)

/-- With room on the disk, the file is overwritten and keeps exactly the clusters it
needs. -/
theorem writeFile_exact (sound : fs.Sound) (reliable : d.Reliable) (has : d.HasFile fs xs file)
    (inside : offset ≤ file.fileSize) (small : offset + data.length < 4294967296)
    (room : fs.clustersFor (max file.fileSize (offset + data.length)) ≤
      xs.length + (d.freeClusters fs).card) :
    ∃ next after ys, fat32WriteFile fs d file offset data = (int32 data.length, next, after) ∧
      next.fileSize = max file.fileSize (offset + data.length) ∧ Extends fs d after xs ys ∧
      after.HasFile fs (xs ++ ys) next ∧
      after.fileBytes fs (xs ++ ys) next.fileSize =
        writeAt (d.fileBytes fs xs file.fileSize) offset data := by
  have covers := has.covers sound
  have old : d.fileBytes fs xs file.fileSize = image (d.fileByte fs xs) file.fileSize := by
    rw [Disk.fileBytes, Nat.min_eq_left covers]
  by_cases nothing : data.length = 0
  · have same : max file.fileSize (offset + data.length) = file.fileSize := by omega
    refine ⟨file, d, [], ?_, same.symm, .refl reliable has.chain, ?_, ?_⟩
    · rw [fat32WriteFile, if_pos nothing, nothing]
      rfl
    · rwa [List.append_nil]
    · rw [List.length_eq_zero_iff.mp nothing, writeAt_nil, List.append_nil]
      rwa [old, length_image]
  · obtain ⟨result, next, after, ys, wrote, spec, _⟩ := writeFile_chain sound reliable has.chain
      has.start offset (Nat.pos_of_ne_zero nothing)
    rcases spec.outcome with ⟨isResult, isSize, all⟩ | ⟨_, full, short, _⟩
    · rw [u32_eq_of_lt small] at isSize
      obtain ⟨reach, contents⟩ := all.contents inside covers
      rw [← isSize] at reach contents
      refine ⟨next, after, ys, ?_, isSize, spec.longer, ⟨spec.longer.chain, spec.start, ?_⟩, contents⟩
      · rw [wrote, isResult]
      · apply Nat.le_antisymm
        · by_contra shorter
          rw [Nat.not_le] at shorter
          rcases all.tight with noMore | tight
          · rw [noMore, List.append_nil, has.exact] at shorter
            have covers := (clustersFor_le_iff sound).mp
              (Nat.le_refl (fs.clustersFor next.fileSize))
            have fits := (clustersFor_le_iff sound).mpr (show file.fileSize ≤
              fs.clustersFor next.fileSize * fs.clusterSize by omega)
            omega
          · have reaches := (clustersFor_le_iff sound).mp (Nat.le_pred_of_lt shorter)
            change next.fileSize ≤ ((xs ++ ys).length - 1) * fs.clusterSize at reaches
            omega
        · exact (clustersFor_le_iff sound).mpr reach
    · have enough := (clustersFor_le_iff sound).mp
        (room.trans (Nat.add_le_add_left (spec.longer.free_le has.chain full) xs.length))
      rw [← List.length_append] at enough
      omega

/-- Reading after writing: the write reports all its bytes, then every read returns the
slice of the old contents overwritten by the data, and no other file has changed. -/
theorem fat_read_after_write (sound : fs.Sound) (reliable : d.Reliable)
    (has : d.HasFile fs xs file) (inside : offset ≤ file.fileSize)
    (small : offset + data.length < 2147483648)
    (room : fs.clustersFor (max file.fileSize (offset + data.length)) ≤
      xs.length + (d.freeClusters fs).card) :
    let old := d.fileBytes fs xs file.fileSize
    (∀ o n, o + n < 2147483648 → fat32ReadFile fs d file o n =
      (((readAt old o n).length : Int), readAt old o n, d)) ∧
    ∃ next after, fat32WriteFile fs d file offset data = ((data.length : Int), next, after) ∧
      next.fileSize = max file.fileSize (offset + data.length) ∧
      (∀ o n, o + n < 2147483648 → fat32ReadFile fs after next o n =
        (((readAt (writeAt old offset data) o n).length : Int),
          readAt (writeAt old offset data) o n, after)) ∧
      ∀ other zs, d.HasChain fs zs → zs.head?.getD 0 = other.startCluster → zs.Disjoint xs →
        ∀ o n, o + n < 2147483648 →
          (fat32ReadFile fs after other o n).1 = (fat32ReadFile fs d other o n).1 ∧
          (fat32ReadFile fs after other o n).2.1 = (fat32ReadFile fs d other o n).2.1 := by
  intro old
  have short : ∀ (bytes : List UInt8) (o n : Nat), o + n < 2147483648 →
      int32 (readAt bytes o n).length = ((readAt bytes o n).length : Int) := by
    intro bytes o n bound
    apply int32_eq_of_lt
    rw [length_readAt]
    omega
  constructor
  · intro o n bound
    rw [readFile_chain sound reliable has.chain has.start (by omega)]
    dsimp only
    rw [short _ o n bound]
  · obtain ⟨next, after, ys, wrote, size, longer, hasNext, contents⟩ :=
      writeFile_exact sound reliable has inside (by omega) room
    rw [int32_eq_of_lt (by omega)] at wrote
    refine ⟨next, after, wrote, size, fun o n bound => ?_, ?_⟩
    · rw [readFile_chain sound longer.reliable hasNext.chain hasNext.start (by omega), contents]
      dsimp only
      rw [short _ o n bound]
    · intro other zs chain start apart o n bound
      obtain ⟨kept, same⟩ := longer.other chain apart other.fileSize
      rw [readFile_chain sound longer.reliable kept start (by omega), same,
        readFile_chain sound reliable chain start (by omega)]
      exact ⟨rfl, rfl⟩

end Writing

theorem emptyFile_has : emptyDisk.HasFile emptyVolume [] ⟨0, 0⟩ := ⟨.nil, rfl, rfl⟩

theorem fat_read_after_write_new :
    ∃ next after, fat32WriteFile emptyVolume emptyDisk ⟨0, 0⟩ 0 [1, 2, 3] = (3, next, after) ∧
      next.fileSize = 3 ∧ fat32ReadFile emptyVolume after next 1 2 = (2, [2, 3], after) := by
  obtain ⟨_, next, after, wrote, size, read, _⟩ := @fat_read_after_write emptyVolume emptyDisk [] ⟨0, 0⟩ 0
    [1, 2, 3] emptyVolume_sound emptyDisk_reliable emptyFile_has (Nat.le_refl 0) (by decide)
    (by decide)
  exact ⟨next, after, wrote, size, read 1 2 (by decide)⟩

end ZurichOS
