import ZurichOS.FatChains

set_option linter.all false

/-!
`fat32_write_file` on a file with a chain of clusters.
-/

namespace ZurichOS

open ByteBuffer Words LinkedChains

variable {fs : Fat32Fs} {d after last : Disk} {xs ys zs before rest : List Nat} {current : Nat}

def Disk.fileByte (d : Disk) (fs : Fat32Fs) (xs : List Nat) (position : Nat) : UInt8 :=
  (d.view fs).data (xs.getD (position / fs.clusterSize) 0) (position % fs.clusterSize)

theorem Fat32Fs.Sound.clusterSize_pos (sound : fs.Sound) : 0 < fs.clusterSize :=
  Nat.mul_pos sound.sectorsPerCluster (by decide)

section Seeking

/-- The loop over the clusters before the offset ends at the cluster of the offset, or
at the end of the chain on a full volume. -/
theorem seekWrite_chain (before : List Nat) (sound : fs.Sound) (reliable : d.Reliable) (steps : Nat)
    (chain : d.HasChain fs (before ++ current :: rest)) (positive : current ≠ 0) :
    ∃ next after ys, seekWrite fs steps d current = (next, after) ∧
      Extends fs d after (before ++ current :: rest) ys ∧
      (after.view fs).data = (d.view fs).data ∧ d.freeList fs = ys ++ after.freeList fs ∧
      ((next = 0 ∧ (after.view fs).Full fs ∧
          ((before ++ current :: rest) ++ ys).length ≤ before.length + steps) ∨
        ∃ front later, (before ++ current :: rest) ++ ys = front ++ next :: later ∧
          front.length = before.length + steps ∧ next ≠ 0 ∧ (ys = [] ∨ later = [])) := by
  induction steps generalizing d before current rest with
  | zero =>
      refine ⟨current, d, [], rfl, .refl reliable chain, rfl, rfl, .inr ?_⟩
      exact ⟨before, rest, List.append_nil _, rfl, positive, .inl rfl⟩
  | succ steps ih =>
      rw [seekWrite]
      rcases nextOrGrow_chain sound reliable chain with
        ⟨none, isLast, full⟩ |
          ⟨next, grown, ys, later, result, nonzero, longer, same, split, tight, first⟩
      · rw [none]
        dsimp only
        rw [if_pos rfl]
        refine ⟨0, d, [], rfl, .refl reliable chain, rfl, rfl, .inl ⟨rfl, full, ?_⟩⟩
        simp only [isLast, List.append_nil, List.length_append, List.length_singleton]
        omega
      · rw [result]
        dsimp only
        rw [if_neg nonzero]
        have regroup : (before ++ current :: rest) ++ ys = (before ++ [current]) ++ next :: later := by
          simp [← split]
        have chainNext : grown.HasChain fs ((before ++ [current]) ++ next :: later) :=
          regroup ▸ longer.chain
        obtain ⟨found, after, zs, sought, further, sameData, firstLater, ends⟩ :=
          ih _ longer.reliable chainNext nonzero
        rw [← regroup] at further ends
        have taken : d.freeList fs = (ys ++ zs) ++ after.freeList fs := by
          rw [first, firstLater, List.append_assoc]
        refine ⟨found, after, ys ++ zs, sought, longer.trans further, sameData.trans same, taken, ?_⟩
        rw [← List.append_assoc]
        rcases ends with ⟨isZero, full, short⟩ | ⟨front, last, isFront, size, isFound, isTight⟩
        · left
          refine ⟨isZero, full, ?_⟩
          simp only [List.length_append, List.length_singleton] at short ⊢
          omega
        · right
          refine ⟨front, last, isFront, ?_, isFound, ?_⟩
          · simp only [List.length_append, List.length_singleton] at size
            omega
          · rcases isTight with noMore | isEnd
            · rcases tight with noNew | noLater
              · left
                rw [noNew, noMore]
                rfl
              · right
                have sizes := congrArg List.length isFront
                rw [regroup, noMore, noLater] at sizes
                simp only [List.length_append, List.length_cons, List.length_nil,
                  List.append_nil] at sizes size
                exact List.length_eq_zero_iff.mp (by omega)
            · exact .inr isEnd

end Seeking

section Bytes

variable {index position start size : Nat}

theorem fileByte_congr (same : (after.view fs).data = (d.view fs).data) :
    after.fileByte fs zs position = d.fileByte fs zs position := by
  rw [Disk.fileByte, Disk.fileByte, same]

theorem fileByte_setData {bytes : Nat → UInt8} (sound : fs.Sound)
    (view : after.view fs = (d.view fs).setData current bytes) (nodup : zs.Nodup)
    (isCluster : zs[index]? = some current) (inside : position < zs.length * fs.clusterSize) :
    after.fileByte fs zs position =
      if position / fs.clusterSize = index then bytes (position % fs.clusterSize)
      else d.fileByte fs zs position := by
  have within : position / fs.clusterSize < zs.length :=
    (Nat.div_lt_iff_lt_mul sound.clusterSize_pos).mpr inside
  rw [Disk.fileByte, Disk.fileByte, view, FatView.setData, List.getD_eq_getElem _ _ within]
  by_cases here : position / fs.clusterSize = index
  · rw [if_pos here]
    simp only [here] at within ⊢
    rw [List.getElem?_eq_getElem within, Option.some_inj] at isCluster
    rw [isCluster, Function.update_self]
  · rw [if_neg here]
    dsimp only
    rw [Function.update_of_ne]
    intro same
    obtain ⟨bound, isHere⟩ := List.getElem?_eq_some_iff.mp isCluster
    exact here ((List.Nodup.getElem_inj_iff nodup).mp (same.trans isHere.symm))

theorem fileByte_append (inside : position < xs.length * fs.clusterSize) :
    d.fileByte fs (xs ++ ys) position = d.fileByte fs xs position := by
  have within : position / fs.clusterSize < xs.length := by
    apply Nat.div_lt_of_lt_mul
    rw [Nat.mul_comm]
    exact inside
  rw [Disk.fileByte, Disk.fileByte, List.getD_append _ _ _ _ within]

end Bytes

/-- The bytes from `first` to `stop` of the data have been written to the chain `xs` of a
file, from the position `offset` on, and the chain goes on with `ys`. -/
structure Wrote (fs : Fat32Fs) (d after : Disk) (xs ys : List Nat) (offset : Nat)
    (data : List UInt8) (first stop : Nat) : Prop where
  longer : Extends fs d after xs ys
  ordered : first ≤ stop
  bound : stop ≤ data.length
  covered : offset + stop ≤ (xs ++ ys).length * fs.clusterSize
  bytes : ∀ position < (xs ++ ys).length * fs.clusterSize,
    after.fileByte fs (xs ++ ys) position =
      if offset + first ≤ position ∧ position < offset + stop then data.getD (position - offset) 0
      else d.fileByte fs (xs ++ ys) position
  tight : ys = [] ∨ ((xs ++ ys).length - 1) * fs.clusterSize < offset + data.length

section Written

variable {middle : Disk} {data : List UInt8} {offset first mid stop : Nat}

/-- Two parts of the data, one after the other. -/
theorem Wrote.trans (part : Wrote fs d middle xs [] offset data first mid)
    (later : Wrote fs middle after xs zs offset data mid stop) :
    Wrote fs d after xs zs offset data first stop := by
  have whole : Extends fs d after xs ([] ++ zs) :=
    part.longer.trans (by rw [List.append_nil]; exact later.longer)
  refine ⟨whole, part.ordered.trans later.ordered, later.bound, later.covered, ?_, later.tight⟩
  have covered := part.covered
  have before := part.bytes
  rw [List.append_nil] at covered before
  intro position inside
  have order := part.ordered
  have goesOn := later.ordered
  rw [later.bytes position inside]
  by_cases inLater : offset + mid ≤ position ∧ position < offset + stop
  · rw [if_pos inLater, if_pos (by omega)]
  · rw [if_neg inLater]
    by_cases old : position < xs.length * fs.clusterSize
    · rw [fileByte_append old, before position old, fileByte_append old]
      by_cases inPart : offset + first ≤ position ∧ position < offset + mid
      · rw [if_pos inPart, if_pos (by omega)]
      · rw [if_neg inPart, if_neg (by omega)]
    · -- behind the old chain, the first part has written nothing: those clusters were free
      rw [if_neg (by omega), Disk.fileByte, Disk.fileByte]
      have positive : 0 < fs.clusterSize := Nat.pos_of_ne_zero fun zero => by simp [zero] at inside
      have behind : xs.length ≤ position / fs.clusterSize :=
        (Nat.le_div_iff_mul_le positive).mpr (Nat.le_of_not_lt old)
      have within : position / fs.clusterSize - xs.length < zs.length := by
        have bound := (Nat.div_lt_iff_lt_mul positive).mpr inside
        rw [List.length_append] at bound
        omega
      rw [List.getD_append_right _ _ _ _ behind, List.getD_eq_getElem _ _ within]
      rw [part.longer.data]
      rw [List.append_nil]
      intro inOld
      apply later.longer.grown.fresh _ (List.getElem_mem within)
      exact part.longer.chain.taken _ (List.mem_append_left _ inOld)

/-- A chain that has grown, and then the data. -/
theorem Wrote.grown (longer : Extends fs d middle xs ys)
    (same : (middle.view fs).data = (d.view fs).data)
    (tight : ys = [] ∨ ((xs ++ ys).length - 1) * fs.clusterSize < offset + data.length)
    (wrote : Wrote fs middle after (xs ++ ys) zs offset data first stop) :
    Wrote fs d after xs (ys ++ zs) offset data first stop := by
  refine ⟨longer.trans wrote.longer, wrote.ordered, wrote.bound, ?_, ?_, ?_⟩
  · rw [← List.append_assoc]
    exact wrote.covered
  · rw [← List.append_assoc]
    intro position inside
    rw [wrote.bytes position inside, fileByte_congr same]
  · rw [← List.append_assoc]
    rcases wrote.tight with noMore | isTight
    · rw [noMore, List.append_nil, List.append_nil]
      exact tight
    · exact .inr isTight

/-- The current cluster holds a part of the data, and its other bytes are the old ones. -/
theorem wrote_part (data : List UInt8) {written start size index : Nat} (sound : fs.Sound)
    (chain : d.HasChain fs (before ++ current :: rest)) (isIndex : before.length = index)
    (reliable : after.Reliable) {bytes : Nat → UInt8}
    (view : after.view fs = (d.view fs).setData current bytes)
    (isBytes : ∀ i < fs.clusterSize, bytes i =
      if start ≤ i ∧ i < start + size then data.getD (written + (i - start)) 0
      else (d.view fs).data current i)
    (place : index * fs.clusterSize + start = offset + written)
    (fits : start + size ≤ fs.clusterSize) (available : written + size ≤ data.length) :
    Wrote fs d after (before ++ current :: rest) [] offset data written (written + size) ∧
      after.freeList fs = d.freeList fs := by
  have longer : Extends fs d after (before ++ current :: rest) [] :=
    extends_setData chain (List.mem_append_right _ (List.mem_cons_self ..)) reliable view
  have isCluster : (before ++ current :: rest)[index]? = some current := by
    rw [← isIndex, List.getElem?_append_right (Nat.le_refl _), Nat.sub_self]
    rfl
  refine ⟨⟨longer, by omega, available, ?_, ?_, .inl rfl⟩, ?_⟩
  · have longEnough : index + 1 ≤ ((before ++ current :: rest) ++ []).length := by
      simp only [List.length_append, List.length_cons]
      omega
    have area := Nat.mul_le_mul_right fs.clusterSize longEnough
    rw [Nat.succ_mul] at area
    omega
  · rw [List.append_nil]
    intro position inside
    rw [fileByte_setData sound view chain.chained.nodup isCluster inside]
    have rebuilt := Nat.div_add_mod position fs.clusterSize
    have inCluster := Nat.mod_lt position sound.clusterSize_pos
    by_cases here : position / fs.clusterSize = index
    · rw [here, Nat.mul_comm] at rebuilt
      rw [if_pos here, isBytes _ inCluster]
      by_cases isPart : start ≤ position % fs.clusterSize ∧
          position % fs.clusterSize < start + size
      · rw [if_pos isPart, if_pos (by omega)]
        congr 1
        omega
      · rw [if_neg isPart, if_neg (by omega), Disk.fileByte, here, List.getD_eq_getElem?_getD,
          isCluster, Option.getD_some]
    · rw [if_neg here, if_neg]
      rintro ⟨lower, upper⟩
      apply here
      apply Nat.div_eq_of_lt_le
      · omega
      · rw [Nat.succ_mul]
        omega
  · apply freeList_congr
    intro cluster
    rw [view]
    rfl

/-- What a part of the data makes of a buffer. -/
theorem putBytes_part {buf : Buffer} {data : List UInt8} {written start size i : Nat}
    (available : written + size ≤ data.length) :
    putBytes buf start ((data.drop written).take size) i =
      if start ≤ i ∧ i < start + size then data.getD (written + (i - start)) 0 else buf i := by
  have count : ((data.drop written).take size).length = size := by
    rw [List.length_take, List.length_drop]
    omega
  by_cases isPart : start ≤ i ∧ i < start + size
  · rw [putBytes_inside _ isPart.1 (by omega), if_pos isPart, List.getD_eq_getElem?_getD,
      List.getElem?_take_of_lt (by omega), List.getElem?_drop, List.getD_eq_getElem?_getD]
  · rw [putBytes_outside _ (by omega), if_neg isPart]

/-- One turn of the main loop: the part of the data that lies in the current cluster. -/
theorem writePart_chain (data : List UInt8) {written start size index : Nat} (sound : fs.Sound)
    (reliable : d.Reliable) (chain : d.HasChain fs (before ++ current :: rest))
    (isIndex : before.length = index) {buf : Buffer}
    (loaded : ∀ i < fs.clusterSize, buf i = (d.view fs).data current i)
    (place : index * fs.clusterSize + start = offset + written)
    (fits : start + size ≤ fs.clusterSize) (available : written + size ≤ data.length) :
    ∃ after, fat32WriteCluster fs d current
        (putBytes buf start ((data.drop written).take size)) = (true, after) ∧
      Wrote fs d after (before ++ current :: rest) [] offset data written (written + size) ∧
      after.freeList fs = d.freeList fs := by
  obtain ⟨after, result, keeps, view⟩ := writeCluster_view sound reliable chain.mem.1
    (putBytes buf start ((data.drop written).take size))
  refine ⟨after, result, wrote_part data sound chain isIndex keeps view ?_ place fits available⟩
  intro i inside
  rw [Fat32Fs.clip, if_pos inside, putBytes_part available, loaded i inside]

/-- The main loop writes all of the data, or up to the end of a chain that cannot grow. -/
theorem writeLoop_chain (sound : fs.Sound) (reliable : d.Reliable) (data : List UInt8)
    (offset : Nat) {target offsetInCluster : Nat} (inCluster : offsetInCluster < fs.clusterSize)
    (fuel written index : Nat) (chain : d.HasChain fs (before ++ current :: rest))
    (isIndex : before.length = index) (ordered : target ≤ index)
    (place : index * fs.clusterSize + (if index = target then offsetInCluster else 0) =
      offset + written) (more : written < data.length) (enough : data.length ≤ written + fuel) :
    ∃ ok stop after ys, writeLoop fs data target offsetInCluster fuel d written current index =
        (ok, stop, after) ∧
      Wrote fs d after (before ++ current :: rest) ys offset data written stop ∧
      d.freeList fs = ys ++ after.freeList fs ∧
      ((ok = true ∧ stop = data.length) ∨ ok = false ∧ (after.view fs).Full fs ∧
        ((before ++ current :: rest) ++ ys).length * fs.clusterSize < offset + data.length) := by
  induction fuel generalizing d before current rest written index with
  | zero => omega
  | succ fuel ih =>
      rw [writeLoop, if_pos more]
      obtain ⟨buf, read, loaded⟩ := readCluster_view sound reliable chain.mem.1
      rw [read]
      dsimp only [Option.getD_some]
      generalize isStart : (if index = target then offsetInCluster else 0) = start at place ⊢
      have within : start < fs.clusterSize := by
        have positive := sound.clusterSize_pos
        split at isStart <;> omega
      generalize isSize : min (fs.clusterSize - start) (data.length - written) = size
      have advances : 0 < size := by omega
      obtain ⟨middle, result, part, sameFree⟩ := writePart_chain data sound reliable chain isIndex loaded place
        (show start + size ≤ fs.clusterSize by omega) (by omega)
      rw [result]
      dsimp only
      by_cases unfinished : written + size < data.length
      · have toEnd : start + size = fs.clusterSize := by omega
        rw [if_pos unfinished]
        have chainMiddle : middle.HasChain fs (before ++ current :: rest) := by
          have kept := part.longer.chain
          rwa [List.append_nil] at kept
        rcases nextOrGrow_chain sound part.longer.reliable chainMiddle with
          ⟨none, isLast, full⟩ |
            ⟨next, grown, ys, later, found, nonzero, longer, same, split, tight, first⟩
        · rw [none]
          dsimp only
          rw [if_pos rfl]
          refine ⟨false, written + size, middle, [], rfl, part, sameFree.symm, .inr ⟨rfl, full, ?_⟩⟩
          have count : ((before ++ current :: rest) ++ []).length = index + 1 := by
            simp [isLast, isIndex]
          rw [count, Nat.succ_mul]
          omega
        · rw [found]
          dsimp only
          rw [if_neg nonzero]
          have regroup : (before ++ current :: rest) ++ ys =
              (before ++ [current]) ++ next :: later := by simp [← split]
          obtain ⟨ok, stop, after, zs, looped, wrote, firstLater, outcome⟩ :=
            ih longer.reliable (written + size) (index + 1) (regroup ▸ longer.chain)
              (by simp [isIndex]) (by omega)
              (by rw [if_neg (by omega), Nat.succ_mul]; omega) unfinished (by omega)
          rw [← regroup] at wrote outcome
          have taken : d.freeList fs = (ys ++ zs) ++ after.freeList fs := by
            rw [← sameFree, first, firstLater, List.append_assoc]
          refine ⟨ok, stop, after, ys ++ zs, looped, ?_, taken, by rwa [← List.append_assoc]⟩
          refine part.trans (.grown longer same (tight.imp_right fun isEnd => ?_) wrote)
          rw [regroup, isEnd]
          simp only [List.length_append, List.length_singleton, Nat.add_sub_cancel]
          rw [isIndex, Nat.succ_mul]
          omega
      · rw [if_neg unfinished]
        exact ⟨true, written + size, middle, [], rfl, part, sameFree.symm, .inl ⟨rfl, by omega⟩⟩

end Written

theorem chain_of_start {start : Nat} (chain : d.HasChain fs xs) (isStart : xs.head?.getD 0 = start) :
    (start = 0 ∧ xs = []) ∨ (start ≠ 0 ∧ ∃ rest, xs = start :: rest) := by
  cases xs with
  | nil => exact .inl ⟨isStart.symm, rfl⟩
  | cons cluster rest =>
      obtain rfl : cluster = start := isStart
      right
      refine ⟨?_, rest, rfl⟩
      have lower := chain.head.1.1
      omega

/-- What `fat32_write_file` does to a file: it writes all of the data, or it has filled
the volume with a chain that is too short for them. -/
structure WroteFile (fs : Fat32Fs) (d after : Disk) (xs ys : List Nat) (file next : FatFile)
    (offset : Nat) (data : List UInt8) (result : Int) : Prop where
  longer : Extends fs d after xs ys
  start : (xs ++ ys).head?.getD 0 = next.startCluster
  outcome : (result = int32 data.length ∧
      next.fileSize = max file.fileSize (u32 (offset + data.length)) ∧
      Wrote fs d after xs ys offset data 0 data.length) ∨
    (next.fileSize = file.fileSize ∧ (after.view fs).Full fs ∧
      (xs ++ ys).length * fs.clusterSize < offset + data.length ∧
      (data.length < 2147483648 → result ≠ data.length))

/-- The file has its first cluster: what remains are the two loops. -/
theorem writeChain (sound : fs.Sound) (reliable : d.Reliable) (file : FatFile) {rest : List Nat}
    (chain : d.HasChain fs (file.startCluster :: rest)) (positive : file.startCluster ≠ 0)
    (offset : Nat) {data : List UInt8} (some : 0 < data.length) :
    ∃ result next after ys,
      (match seekWrite fs (offset / fs.clusterSize) d file.startCluster with
        | (current, d) =>
          if current = 0 then ((0 : Int), file, d)
          else
            match writeLoop fs data (offset / fs.clusterSize) (offset % fs.clusterSize) data.length
                d 0 current (offset / fs.clusterSize) with
            | (false, written, d) => (int32 written, file, d)
            | (true, written, d) =>
                (int32 written,
                  { file with fileSize := max file.fileSize (u32 (offset + written)) }, d)) =
        (result, next, after) ∧
      WroteFile fs d after (file.startCluster :: rest) ys file next offset data result ∧
      d.freeList fs = ys ++ after.freeList fs := by
  have clusterPos := sound.clusterSize_pos
  have target := Nat.div_mul_le_self offset fs.clusterSize
  have position := Nat.div_add_mod offset fs.clusterSize
  rw [Nat.mul_comm] at position
  obtain ⟨current, middle, ys, sought, longer, sameData, first, ends⟩ :=
    seekWrite_chain [] sound reliable (offset / fs.clusterSize) chain positive
  simp only [List.nil_append, List.length_nil, Nat.zero_add] at longer ends
  rw [sought]
  dsimp only
  rcases ends with ⟨isZero, full, short⟩ | ⟨front, later, split, size, nonzero, tight⟩
  · rw [if_pos isZero]
    refine ⟨0, file, middle, ys, rfl, ⟨longer, rfl, .inr ⟨rfl, full, ?_, ?_⟩⟩, first⟩
    · have area := Nat.mul_le_mul_right fs.clusterSize short
      omega
    · omega
  · rw [if_neg nonzero]
    have chainMiddle : middle.HasChain fs (front ++ current :: later) := split ▸ longer.chain
    obtain ⟨ok, stop, after, zs, looped, wrote, firstLater, outcome⟩ :=
      writeLoop_chain sound longer.reliable data offset (Nat.mod_lt _ clusterPos)
        data.length 0 _ chainMiddle size (Nat.le_refl _) (by rw [if_pos rfl]; omega) some
        (by omega)
    rw [← split] at wrote outcome
    rw [looped]
    have whole : Extends fs d after (file.startCluster :: rest) (ys ++ zs) :=
      longer.trans wrote.longer
    have taken : d.freeList fs = (ys ++ zs) ++ after.freeList fs := by
      rw [first, firstLater, List.append_assoc]
    rcases outcome with ⟨isOk, isStop⟩ | ⟨notOk, full, short⟩
    · subst isOk isStop
      refine ⟨_, _, after, ys ++ zs, rfl, ⟨whole, rfl, .inl ⟨rfl, rfl, ?_⟩⟩, taken⟩
      refine .grown longer sameData (tight.imp_right fun isEnd => ?_) wrote
      rw [split, isEnd]
      simp only [List.length_append, List.length_singleton, Nat.add_sub_cancel]
      rw [size]
      omega
    · subst notOk
      refine ⟨_, _, after, ys ++ zs, rfl, ⟨whole, rfl, .inr ⟨rfl, full, ?_, ?_⟩⟩, taken⟩
      · rw [← List.append_assoc]
        exact short
      · intro small
        have covered := wrote.covered
        rw [int32_eq_of_lt (by omega)]
        omega

theorem writeFile_chain (sound : fs.Sound) (reliable : d.Reliable) {file : FatFile}
    (chain : d.HasChain fs xs) (isStart : xs.head?.getD 0 = file.startCluster) (offset : Nat)
    {data : List UInt8} (some : 0 < data.length) :
    ∃ result next after ys, fat32WriteFile fs d file offset data = (result, next, after) ∧
      WroteFile fs d after xs ys file next offset data result ∧
      d.freeList fs = ys ++ after.freeList fs := by
  have nonempty : data.length ≠ 0 := by omega
  rw [fat32WriteFile, if_neg nonempty, reliable.kmalloc]
  dsimp only
  rcases chain_of_start chain isStart with ⟨isZero, empty⟩ | ⟨positive, rest, isRest⟩
  · subst empty
    rw [if_pos isZero]
    rcases allocCluster_chain sound reliable with
      ⟨none, full⟩ | ⟨new, grown, result, nonzero, longer, same⟩
    · rw [none]
      dsimp only
      rw [if_pos rfl]
      refine ⟨_, _, d, [], rfl, ⟨.refl reliable chain, rfl, .inr ⟨rfl, full, ?_, ?_⟩⟩, rfl⟩
      · rw [List.append_nil, List.length_nil, Nat.zero_mul]
        omega
      · omega
    · rw [result]
      dsimp only
      rw [if_neg nonzero]
      obtain ⟨code, next, after, ys, wrote, spec, taken⟩ := writeChain sound longer.reliable
        { file with startCluster := new } longer.chain nonzero offset some
      have first : d.freeList fs = ([new] ++ ys) ++ after.freeList fs := by
        rw [allocCluster_first sound reliable result nonzero, taken, List.append_assoc,
          List.singleton_append]
      refine ⟨code, next, after, [new] ++ ys, wrote,
        ⟨longer.trans spec.longer, spec.start, ?_⟩, first⟩
      rcases spec.outcome with ⟨isCode, isSize, all⟩ | short
      · left
        refine ⟨isCode, isSize, .grown longer same (.inr ?_) all⟩
        rw [List.nil_append, List.length_singleton, Nat.sub_self, Nat.zero_mul]
        omega
      · exact .inr short
  · subst isRest
    rw [if_neg positive]
    dsimp only
    rw [if_neg positive]
    exact writeChain sound reliable file chain positive offset some

end ZurichOS
