import ZurichOS.FatTransfers

set_option linter.all false

/-!
Writes that stop early: where the chain cannot grow, or at a sector that the drive does not write.
What has become of the chain and its bytes by then.
-/

namespace ZurichOS

open ByteBuffer Words LinkedChains

variable {fs : Fat32Fs} {d h after : Disk} {xs before rest ys : List Nat}
  {current offset index count : Nat} {data : List UInt8}

/-- Why a write stops: no cluster is free any more, or the drive fails to write a sector of the
cluster that has this number in the file. -/
inductive WriteStop where
  | full
  | failed (index sector : Nat)

/-- The clusters in front of the stop, where the file can have as many as `count`. -/
def WriteStop.clusters (count : Nat) : WriteStop → Nat
  | full => count
  | failed index _ => index

def WriteStop.sectors : WriteStop → Nat
  | full => 0
  | failed _ sector => sector

/-- The bytes that the write reports. -/
def WriteStop.written (stop : WriteStop) (fs : Fat32Fs) (count offset : Nat) : Nat :=
  stop.clusters count * fs.clusterSize - offset

/-- The place in the file where the write stops. -/
def WriteStop.reach (stop : WriteStop) (fs : Fat32Fs) (count : Nat) : Nat :=
  stop.clusters count * fs.clusterSize + stop.sectors * 512

section Turns

theorem withSectors_readCluster
    (chain : h.HasChain fs (before ++ current :: rest)) (steady : d.SteadyFor fs.sectorsPerCluster) :
    fat32ReadCluster fs (d.withSectors h.sectors) current =
      (some (h.loaded fs current), (d.advance fs.sectorsPerCluster).withSectors h.sectors) :=
  readCluster_steady chain.mem.1.1 steady

/-- What is written of a cluster: the data before it, and the part behind the place where the
data starts. -/
theorem reach_split (base count offset : Nat) :
    base + count - offset = base - offset + (count - (offset - base)) := by
  omega

theorem place_split (base offset : Nat) : base + (offset - base) = offset + (base - offset) := by
  omega

/-- The write of a cluster stores its part of the data as far as it comes. -/
theorem withSectors_writePart (sound : fs.Sound) (reliable : h.Reliable)
    (chain : h.HasChain fs (before ++ current :: rest)) (isIndex : before.length = index)
    {count : Nat} (steady : d.SteadyFor count) (within : count ≤ fs.sectorsPerCluster)
    (ends : count = fs.sectorsPerCluster ∨ d.transfers count = false)
    {written start size : Nat} (isWritten : written = index * fs.clusterSize - offset)
    (isStart : start = offset - index * fs.clusterSize) (inside : start < fs.clusterSize)
    (isSize : size = min (fs.clusterSize - start) (data.length - written))
    (more : written < data.length) :
    ∃ taken after, fat32WriteCluster fs (d.withSectors h.sectors) current
        (putBytes (h.loaded fs current) start ((data.drop written).take size)) =
          (decide (count = fs.sectorsPerCluster), (d.advance taken).withSectors after.sectors) ∧
      (count = fs.sectorsPerCluster → taken = fs.sectorsPerCluster) ∧
      Wrote fs h after (before ++ current :: rest) [] offset data written
        (min data.length (index * fs.clusterSize + count * 512 - offset)) ∧
      after.freeList fs = h.freeList fs := by
  have has := chain.mem.1
  have part : count * 512 ≤ fs.clusterSize := Nat.mul_le_mul_right 512 within
  generalize isBytes : putBytes (h.loaded fs current) start ((data.drop written).take size) = bytes
  obtain ⟨taken, result, all⟩ := @writeCluster_stops fs (d.withSectors h.sectors) current sound has
    bytes count steady within ends
  have stops : min data.length (index * fs.clusterSize + count * 512 - offset) =
      written + min size (count * 512 - start) := by
    have short : min size (count * 512 - start) =
        min (data.length - written) (count * 512 - start) := by
      rw [isSize, Nat.min_assoc, Nat.min_comm, Nat.min_assoc]
      congr 1
      exact Nat.min_eq_left (Nat.sub_le_sub_right part start)
    rw [reach_split, ← isWritten, ← isStart, short, ← Nat.add_min_add_left,
      Nat.add_sub_cancel' (Nat.le_of_lt more)]
  have stored : ∀ i < fs.clusterSize, fs.clip (fun i =>
      if i < count * 512 then bytes i else (h.view fs).data current i) i =
      if start ≤ i ∧ i < start + min size (count * 512 - start) then
        data.getD (written + (i - start)) 0
      else (h.view fs).data current i := by
    intro i below
    rw [Fat32Fs.clip, if_pos below, ← isBytes, putBytes_part (by omega), loaded_view sound has]
    by_cases early : i < count * 512
    · rw [if_pos early]
      by_cases isPart : start ≤ i ∧ i < start + size
      · rw [if_pos isPart, if_pos (by omega)]
      · rw [if_neg isPart, if_neg (by omega)]
    · rw [if_neg early, if_neg (by omega)]
  refine ⟨taken, h.withSectors (fs.overwritten current bytes count h.sectors), result, all, ?_⟩
  have place : index * fs.clusterSize + start = offset + written := by
    rw [isStart, isWritten]
    exact place_split _ _
  have least : min size (count * 512 - start) ≤ size := Nat.min_le_left _ _
  have fits : start + min size (count * 512 - start) ≤ fs.clusterSize :=
    Nat.add_le_of_le_sub' (Nat.le_of_lt inside) (least.trans (isSize ▸ Nat.min_le_left _ _))
  have available : written + min size (count * 512 - start) ≤ data.length :=
    Nat.add_le_of_le_sub' (Nat.le_of_lt more) (least.trans (isSize ▸ Nat.min_le_right _ _))
  rw [stops]
  exact wrote_part data sound chain isIndex (reliable.withSectors _)
    (view_overwritten sound has bytes within) stored place fits available

theorem turnStart (sound : fs.Sound) (ordered : offset / fs.clusterSize ≤ index) :
    (if index = offset / fs.clusterSize then offset % fs.clusterSize else 0) =
        offset - index * fs.clusterSize ∧ offset - index * fs.clusterSize < fs.clusterSize := by
  have positive := sound.clusterSize_pos
  have position := Nat.div_add_mod offset fs.clusterSize
  rw [Nat.mul_comm] at position
  by_cases first : index = offset / fs.clusterSize
  · have inside := Nat.mod_lt offset positive
    have start : offset % fs.clusterSize = offset - offset / fs.clusterSize * fs.clusterSize :=
      Nat.eq_sub_of_add_eq' position
    rw [if_pos first, first, ← start]
    exact ⟨rfl, inside⟩
  · have behind : offset < index * fs.clusterSize :=
      (Nat.div_lt_iff_lt_mul positive).mp (Nat.lt_of_le_of_ne ordered (Ne.symm first))
    rw [if_neg first, Nat.sub_eq_zero_of_le (Nat.le_of_lt behind)]
    exact ⟨rfl, positive⟩

/-- A turn that stores its part goes on to the next cluster. -/
theorem writeLoop_turn (sound : fs.Sound) (reliable : h.Reliable)
    (chain : h.HasChain fs (before ++ current :: rest)) (isIndex : before.length = index)
    (ordered : offset / fs.clusterSize ≤ index)
    (more : (index + 1) * fs.clusterSize < offset + data.length)
    (steady : d.SteadyFor (2 * fs.sectorsPerCluster)) (fuel : Nat) :
    ∃ after, Wrote fs h after (before ++ current :: rest) [] offset data
        (index * fs.clusterSize - offset) ((index + 1) * fs.clusterSize - offset) ∧
      after.freeList fs = h.freeList fs ∧
      ∀ {next : Nat} {reached : Disk}, nextOrGrow fs
          ((d.advance (2 * fs.sectorsPerCluster)).withSectors after.sectors) current = (next, reached) →
        writeLoop fs data (offset / fs.clusterSize) (offset % fs.clusterSize) (fuel + 1)
            (d.withSectors h.sectors) (index * fs.clusterSize - offset) current index =
          if next = 0 then (false, (index + 1) * fs.clusterSize - offset, reached)
          else writeLoop fs data (offset / fs.clusterSize) (offset % fs.clusterSize) fuel reached
            ((index + 1) * fs.clusterSize - offset) next (index + 1) := by
  obtain ⟨isStart, inside⟩ := turnStart sound ordered
  rw [Nat.two_mul, steadyFor_advance] at steady
  rw [Nat.succ_mul] at more ⊢
  obtain ⟨taken, after, stored, all, wrote, sameFree⟩ := @withSectors_writePart fs _ h before rest
    current offset index data sound reliable chain isIndex fs.sectorsPerCluster steady.2
    (Nat.le_refl _) (.inl rfl) _ _ _ rfl rfl inside rfl (by omega)
  obtain rfl := all rfl
  have stops : min data.length (index * fs.clusterSize + fs.sectorsPerCluster * 512 - offset) =
      index * fs.clusterSize + fs.clusterSize - offset := by
    change min data.length (index * fs.clusterSize + fs.clusterSize - offset) = _
    exact Nat.min_eq_right (Nat.sub_le_iff_le_add'.mpr (Nat.le_of_lt more))
  rw [stops] at wrote
  refine ⟨after, wrote, sameFree, fun goes => ?_⟩
  have advanced : index * fs.clusterSize - offset + min (fs.clusterSize -
      (offset - index * fs.clusterSize)) (data.length - (index * fs.clusterSize - offset)) =
      index * fs.clusterSize + fs.clusterSize - offset := by
    have split := reach_split (index * fs.clusterSize) fs.clusterSize offset
    rw [Nat.min_eq_left (by omega), ← split]
  rw [writeLoop, if_pos (by omega), withSectors_readCluster chain steady.1]
  dsimp only [Option.getD_some]
  rw [isStart, stored, decide_eq_true rfl, advance_advance, ← Nat.two_mul]
  dsimp only
  rw [advanced, if_pos (by omega), goes]

theorem writeLoop_fails (sound : fs.Sound) (reliable : h.Reliable)
    (chain : h.HasChain fs (before ++ current :: rest)) (isIndex : before.length = index)
    (ordered : offset / fs.clusterSize ≤ index)
    (more : index * fs.clusterSize - offset < data.length) {sector : Nat}
    (inCluster : sector < fs.sectorsPerCluster) (steady : d.SteadyFor (fs.sectorsPerCluster + sector))
    (fails : d.transfers (fs.sectorsPerCluster + sector) = false) (fuel : Nat) :
    ∃ (last after : Disk), writeLoop fs data (offset / fs.clusterSize) (offset % fs.clusterSize) (fuel + 1)
        (d.withSectors h.sectors) (index * fs.clusterSize - offset) current index =
          (false, index * fs.clusterSize - offset, last.withSectors after.sectors) ∧
      Wrote fs h after (before ++ current :: rest) [] offset data (index * fs.clusterSize - offset)
        (min data.length (index * fs.clusterSize + sector * 512 - offset)) ∧
      after.freeList fs = h.freeList fs := by
  obtain ⟨isStart, inside⟩ := turnStart sound ordered
  rw [steadyFor_advance] at steady
  rw [Nat.add_comm] at fails
  obtain ⟨taken, after, stored, _, wrote, sameFree⟩ := @withSectors_writePart fs
    (d.advance fs.sectorsPerCluster) h before rest current offset index data sound reliable chain
    isIndex sector steady.2 (Nat.le_of_lt inCluster) (.inr fails) _ _ _ rfl rfl inside rfl more
  refine ⟨(d.advance fs.sectorsPerCluster).advance taken, after, ?_, wrote, sameFree⟩
  rw [writeLoop, if_pos more, withSectors_readCluster chain steady.1]
  dsimp only [Option.getD_some]
  rw [isStart, stored, decide_eq_false (Nat.ne_of_lt inCluster)]

end Turns

section Loop

/-- The transfers of turns that each store a part and go on along the road. -/
def Fat32Fs.turnTransfers (fs : Fat32Fs) (turns : Nat) (road : List Nat) : Nat :=
  (road.take turns).sum + turns * (2 * fs.sectorsPerCluster)

/-- The transfers of the loop from the cluster with the number `index` on, up to the stop. -/
def WriteStop.loopTransfers (fs : Fat32Fs) (index : Nat) (road : List Nat) : WriteStop → Nat
  | full => fs.turnTransfers (road.length + 1) road + (fs.totalClusters + 1)
  | failed number sector =>
      fs.turnTransfers (number - index) road + (fs.sectorsPerCluster + sector)

/-- The stop is at a transfer that fails, in one of the clusters, or at the end of the road. -/
def WriteStop.Fails (fs : Fat32Fs) (d : Disk) (index count transfers : Nat) : WriteStop → Prop
  | full => True
  | failed number sector =>
      (index ≤ number ∧ number < count) ∧ sector < fs.sectorsPerCluster ∧
        d.transfers transfers = false

theorem turnTransfers_cons (turns cost : Nat) (road : List Nat) :
    fs.turnTransfers (turns + 1) (cost :: road) =
      2 * fs.sectorsPerCluster + (cost + fs.turnTransfers turns road) := by
  rw [Fat32Fs.turnTransfers, List.take_succ_cons, List.sum_cons, Nat.succ_mul,
    Fat32Fs.turnTransfers]
  omega

theorem turnTransfers_zero (road : List Nat) : fs.turnTransfers 0 road = 0 := by
  simp [Fat32Fs.turnTransfers]

/-- After a turn, the same stop is ahead with the transfers that remain. -/
theorem stop_turn {stop : WriteStop} {cost : Nat} {road : List Nat}
    (steady : d.SteadyFor (stop.loopTransfers fs index (cost :: road)))
    (fails : stop.Fails fs d index count (stop.loopTransfers fs index (cost :: road)))
    (goesOn : ∀ sector, stop ≠ .failed index sector) :
    d.SteadyFor (2 * fs.sectorsPerCluster) ∧
      (d.advance (2 * fs.sectorsPerCluster)).SteadyFor cost ∧
      ((d.advance (2 * fs.sectorsPerCluster)).advance cost).SteadyFor
        (stop.loopTransfers fs (index + 1) road) ∧
      stop.Fails fs ((d.advance (2 * fs.sectorsPerCluster)).advance cost) (index + 1) count
        (stop.loopTransfers fs (index + 1) road) := by
  cases stop with
  | full =>
      have split : WriteStop.full.loopTransfers fs index (cost :: road) =
          2 * fs.sectorsPerCluster + (cost + WriteStop.full.loopTransfers fs (index + 1) road) := by
        rw [WriteStop.loopTransfers, List.length_cons, turnTransfers_cons, WriteStop.loopTransfers]
        omega
      rw [split, steadyFor_advance, steadyFor_advance] at steady
      exact ⟨steady.1, steady.2.1, steady.2.2, trivial⟩
  | failed number sector =>
      obtain ⟨⟨lower, upper⟩, inCluster, failing⟩ := fails
      have different : number ≠ index := fun same => goesOn sector (by rw [same])
      obtain ⟨turns, isTurns⟩ : ∃ turns, number - index = turns + 1 :=
        ⟨number - index - 1, by omega⟩
      have later : number - (index + 1) = turns := by omega
      have split : (WriteStop.failed number sector).loopTransfers fs index (cost :: road) =
          2 * fs.sectorsPerCluster +
            (cost + (WriteStop.failed number sector).loopTransfers fs (index + 1) road) := by
        rw [WriteStop.loopTransfers, WriteStop.loopTransfers, isTurns, later, turnTransfers_cons]
        omega
      rw [split] at failing
      rw [split, steadyFor_advance, steadyFor_advance] at steady
      refine ⟨steady.1, steady.2.1, steady.2.2, ⟨by omega, upper⟩, inCluster, ?_⟩
      rw [advance_transfers, advance_transfers, ← failing]
      congr 1
      omega

/-- The loop reports the clusters in front of the stop, and has stored the data up to it. -/
theorem writeLoop_stops (before : List Nat) (sound : fs.Sound) (stop : WriteStop) (fuel : Nat)
    (reliable : h.Reliable) (chain : h.HasChain fs (before ++ current :: rest))
    (isIndex : before.length = index) (ordered : offset / fs.clusterSize ≤ index)
    {count : Nat} {road : List Nat} (isRoad : roadAhead rest (h.freeList fs) = road)
    (isCount : index + 1 + road.length = count)
    (steady : d.SteadyFor (stop.loopTransfers fs index road))
    (fails : stop.Fails fs d index count (stop.loopTransfers fs index road))
    (more : stop.clusters count * fs.clusterSize - offset < data.length)
    (enough : data.length ≤ index * fs.clusterSize - offset + fuel) :
    ∃ (last after : Disk) (ys : List Nat),
      writeLoop fs data (offset / fs.clusterSize) (offset % fs.clusterSize) fuel
          (d.withSectors h.sectors) (index * fs.clusterSize - offset) current index =
        (false, stop.written fs count offset, last.withSectors after.sectors) ∧
      Wrote fs h after (before ++ current :: rest) ys offset data
        (index * fs.clusterSize - offset) (min data.length (stop.reach fs count - offset)) ∧
      h.freeList fs = ys ++ after.freeList fs := by
  induction fuel generalizing d h before current rest index road with
  | zero =>
      have reached : index ≤ stop.clusters count := by
        cases stop with
        | full => exact Nat.le_trans (Nat.le_succ index) (by rw [← isCount]; exact Nat.le_add_right ..)
        | failed number sector => exact fails.1.1
      have area := Nat.mul_le_mul_right fs.clusterSize reached
      omega
  | succ fuel ih =>
      by_cases final : ∃ sector, stop = .failed index sector
      · obtain ⟨sector, rfl⟩ := final
        obtain ⟨_, inCluster, failing⟩ := fails
        rw [WriteStop.loopTransfers, Nat.sub_self, turnTransfers_zero, Nat.zero_add] at steady failing
        obtain ⟨last, after, looped, wrote, sameFree⟩ :=
          writeLoop_fails sound reliable chain isIndex ordered more inCluster steady failing fuel
        exact ⟨last, after, [], looped, wrote, sameFree.symm⟩
      · have goesOn : ∀ sector, stop ≠ .failed index sector := fun sector same => final ⟨sector, same⟩
        have reached : index + 1 ≤ stop.clusters count := by
          cases stop with
          | full =>
              change index + 1 ≤ count
              omega
          | failed number sector =>
              have lower := fails.1.1
              have different : number ≠ index := fun same => goesOn sector (by rw [same])
              change index + 1 ≤ number
              omega
        have area := Nat.mul_le_mul_right fs.clusterSize reached
        cases road with
        | nil =>
            rw [List.length_nil, Nat.add_zero] at isCount
            have isFull : stop = .full := by
              cases stop with
              | full => rfl
              | failed number sector =>
                  obtain ⟨⟨lower, upper⟩, _⟩ := fails
                  obtain rfl : number = index := by omega
                  exact absurd rfl (goesOn sector)
            subst isFull isCount
            have stops : min data.length (WriteStop.full.reach fs (index + 1) - offset) =
                (index + 1) * fs.clusterSize - offset := by
              change min data.length ((index + 1) * fs.clusterSize + 0 - offset) = _
              change (index + 1) * fs.clusterSize - offset < data.length at more
              omega
            rw [WriteStop.loopTransfers, List.length_nil, Nat.zero_add, Fat32Fs.turnTransfers,
              List.take_nil, List.sum_nil, Nat.zero_add, Nat.one_mul, steadyFor_advance] at steady
            obtain ⟨turns, searches⟩ := steady
            obtain ⟨middle, part, sameFree, looped⟩ := @writeLoop_turn fs d h before rest current
              offset index data sound reliable chain isIndex ordered (by omega) turns fuel
            have kept := part.longer.chain
            rw [List.append_nil] at kept
            rcases nextOrGrow_road sound part.longer.reliable kept with
              ⟨_, _, _, moves⟩ | ⟨cost, _, _, _, _, goes, _⟩
            · refine ⟨(d.advance (2 * fs.sectorsPerCluster)).advance (fs.totalClusters + 1), middle, [],
                ?_, ?_, sameFree.symm⟩
              · rw [looped (moves searches), if_pos rfl]
                rfl
              · rw [stops]
                exact part
            · rw [sameFree, isRoad] at goes
              cases goes
        | cons cost road =>
            have inside := (turnStart sound ordered).2
            have positive := sound.clusterSize_pos
            obtain ⟨turns, moved, later, failsLater⟩ := stop_turn steady fails goesOn
            obtain ⟨middle, part, sameFree, looped⟩ := @writeLoop_turn fs d h before rest current
              offset index data sound reliable chain isIndex ordered (by omega) turns fuel
            have kept := part.longer.chain
            rw [List.append_nil] at kept
            rcases nextOrGrow_road sound part.longer.reliable kept with
              ⟨ends, _⟩ |
                ⟨first, next, grown, ys, rest', goes, _, moves, nonzero, longer, same, split, tight, taken⟩
            · rw [sameFree, isRoad] at ends
              cases ends
            · rw [sameFree, isRoad] at goes
              obtain ⟨rfl, isLater⟩ := List.cons.inj goes
              have regroup : (before ++ current :: rest) ++ ys =
                  (before ++ [current]) ++ next :: rest' := by simp [← split]
              obtain ⟨last, after, zs, ended, wrote, takenLater⟩ := ih (before ++ [current])
                longer.reliable (regroup ▸ longer.chain) (by simp [isIndex])
                (Nat.le_succ_of_le ordered) isLater.symm
                (by rw [← isCount, List.length_cons]; omega) later failsLater
                (by rw [Nat.succ_mul]; omega)
              rw [← regroup] at wrote
              refine ⟨last, after, ys ++ zs, ?_, ?_, ?_⟩
              · rw [looped (moves moved), if_neg nonzero]
                exact ended
              · refine part.trans (.grown longer same (tight.imp_right fun isEnd => ?_) wrote)
                have length : ((before ++ current :: rest) ++ ys).length - 1 = index + 1 := by
                  simp [regroup, isEnd, isIndex]
                rw [length]
                omega
              · rw [← sameFree, taken, takenLater, List.append_assoc]

end Loop

section Files

/-- The transfers of the search for the first cluster and of the loop, up to the stop. -/
def WriteStop.chainTransfers (stop : WriteStop) (fs : Fat32Fs) (road : List Nat) (target : Nat) :
    Nat :=
  fs.roadTransfers target road +
    if road.length < target then 0 else stop.loopTransfers fs target (road.drop target)

/-- The transfers of a write that succeed before the stop. -/
def WriteStop.transfers (stop : WriteStop) (fs : Fat32Fs) (xs free : List Nat) (target : Nat) : Nat :=
  (if xs = [] then fs.allocTransfers free else 0) +
    if xs ++ free = [] then 0 else stop.chainTransfers fs (roadAhead xs free).tail target

/-- A write to the file with the clusters `xs` comes to the stop with data left, and no transfer
before it fails. -/
def WriteStop.Happens (stop : WriteStop) (fs : Fat32Fs) (d : Disk) (xs : List Nat)
    (offset size : Nat) : Prop :=
  let count := (xs ++ d.freeList fs).length
  let transfers := stop.transfers fs xs (d.freeList fs) (offset / fs.clusterSize)
  stop.clusters count * fs.clusterSize < offset + size ∧ d.SteadyFor transfers ∧
    stop.Fails fs d (offset / fs.clusterSize) count transfers

/-- The chain `xs` goes on with `ys`, and the data is stored up to the place `reach`. -/
structure Stopped (fs : Fat32Fs) (h after : Disk) (xs ys : List Nat) (offset : Nat)
    (data : List UInt8) (reach : Nat) : Prop where
  longer : Extends fs h after xs ys
  bytes : ∀ position < (xs ++ ys).length * fs.clusterSize,
    after.fileByte fs (xs ++ ys) position =
      if offset ≤ position ∧ position < min (offset + data.length) reach then
        data.getD (position - offset) 0
      else h.fileByte fs (xs ++ ys) position

theorem stop_advance {stop : WriteStop} {taken transfers : Nat}
    (fails : stop.Fails fs d index count (taken + transfers)) :
    stop.Fails fs (d.advance taken) index count transfers := by
  cases stop with
  | full => trivial
  | failed number sector =>
      obtain ⟨place, inCluster, failing⟩ := fails
      refine ⟨place, inCluster, ?_⟩
      rw [advance_transfers, Nat.add_comm]
      exact failing

/-- A write to a file that has its first cluster. -/
theorem writeChain_stops (sound : fs.Sound) (stop : WriteStop) (reliable : h.Reliable) {start : Nat}
    (chain : h.HasChain fs (start :: rest)) {road : List Nat}
    (isRoad : roadAhead rest (h.freeList fs) = road) (some : 0 < data.length)
    (more : stop.clusters (road.length + 1) * fs.clusterSize < offset + data.length)
    (steady : d.SteadyFor (stop.chainTransfers fs road (offset / fs.clusterSize)))
    (fails : stop.Fails fs d (offset / fs.clusterSize) (road.length + 1)
      (stop.chainTransfers fs road (offset / fs.clusterSize))) (file : FatFile) :
    ∃ (last after : Disk) (ys : List Nat),
      (match seekWrite fs (offset / fs.clusterSize) (d.withSectors h.sectors) start with
        | (current, d) =>
          if current = 0 then ((0 : Int), file, d)
          else
            match writeLoop fs data (offset / fs.clusterSize) (offset % fs.clusterSize) data.length
                d 0 current (offset / fs.clusterSize) with
            | (false, written, d) => (int32 written, file, d)
            | (true, written, d) =>
                (int32 written,
                  { file with fileSize := max file.fileSize (u32 (offset + written)) }, d)) =
        (int32 (stop.written fs (road.length + 1) offset), file, last.withSectors after.sectors) ∧
      Stopped fs h after (start :: rest) ys offset data (stop.reach fs (road.length + 1)) ∧
      h.freeList fs = ys ++ after.freeList fs := by
  have target := Nat.div_mul_le_self offset fs.clusterSize
  unfold WriteStop.chainTransfers at steady fails
  rw [steadyFor_advance] at steady
  obtain ⟨seeks, loops⟩ := steady
  obtain ⟨current, middle, ys, longer, sameData, first, sought, ends⟩ :=
    seekWrite_road sound reliable (offset / fs.clusterSize) chain isRoad
  rw [sought seeks]
  dsimp only
  rcases ends with ⟨short, isZero⟩ | ⟨front, later, inside, split, size, nonzero, tight, isDrop⟩
  · have isFull : stop = .full := by
      cases stop with
      | full => rfl
      | failed number sector =>
          obtain ⟨⟨lower, upper⟩, _⟩ := fails
          omega
    subst isFull
    have area : (road.length + 1) * fs.clusterSize ≤ offset / fs.clusterSize * fs.clusterSize :=
      Nat.mul_le_mul_right _ short
    have nothing : WriteStop.full.written fs (road.length + 1) offset = 0 := by
      change (road.length + 1) * fs.clusterSize - offset = 0
      omega
    rw [if_pos isZero, nothing]
    refine ⟨_, middle, ys, rfl, ⟨longer, fun position _ => ?_⟩, first⟩
    rw [fileByte_congr sameData, if_neg]
    change ¬ (_ ∧ position < min (offset + data.length) ((road.length + 1) * fs.clusterSize + 0))
    omega
  · rw [if_neg nonzero]
    rw [if_neg (Nat.not_lt.mpr inside)] at loops fails
    have begins : offset / fs.clusterSize * fs.clusterSize - offset = 0 := by omega
    obtain ⟨last, after, zs, looped, wrote, firstLater⟩ := writeLoop_stops front sound stop
      data.length longer.reliable (split ▸ longer.chain) size (Nat.le_refl _) isDrop
      (by rw [List.length_drop]; omega) loops (stop_advance fails) (by omega)
      (Nat.le_add_left ..)
    rw [begins] at looped wrote
    rw [← split] at wrote
    have whole := Wrote.grown longer sameData (tight.imp_right fun isEnd => ?_) wrote
    · rw [looped]
      refine ⟨last, after, ys ++ zs, rfl, ⟨whole.longer, fun position bound => ?_⟩, ?_⟩
      · rw [whole.bytes position bound]
        by_cases stored : offset ≤ position ∧
            position < min (offset + data.length) (stop.reach fs (road.length + 1))
        · rw [if_pos stored, if_pos (by omega)]
        · rw [if_neg stored, if_neg (by omega)]
      · rw [first, firstLater, List.append_assoc]
    · rw [split, isEnd]
      simp only [List.length_append, List.length_singleton, Nat.add_sub_cancel]
      rw [size]
      omega

theorem Stopped.grown {middle : Disk} {zs : List Nat} {reach : Nat}
    (longer : Extends fs h middle xs ys) (same : (middle.view fs).data = (h.view fs).data)
    (stopped : Stopped fs middle after (xs ++ ys) zs offset data reach) :
    Stopped fs h after xs (ys ++ zs) offset data reach := by
  refine ⟨longer.trans stopped.longer, ?_⟩
  rw [← List.append_assoc]
  intro position inside
  rw [stopped.bytes position inside, fileByte_congr same]

/-- What a write has done when it stops: the first cluster that it puts out, which begins the
chain, and the bytes that it reports. -/
theorem writeFile_stops (sound : fs.Sound) (stop : WriteStop) {file : FatFile}
    (granted : d.memory 0 = true) (chain : d.HasChain fs xs)
    (isStart : xs.head?.getD 0 = file.startCluster) (some : 0 < data.length)
    (happens : stop.Happens fs d xs offset data.length) :
    ∃ (start : Nat) (last after : Disk) (ys : List Nat),
      fat32WriteFile fs d file offset data =
        (if xs ++ d.freeList fs = [] then -1
          else int32 (stop.written fs (xs ++ d.freeList fs).length offset),
          { file with startCluster := start }, last.withSectors after.sectors) ∧
      (xs ++ ys).head?.getD 0 = start ∧
      Stopped fs d.repaired after xs ys offset data
        (stop.reach fs (xs ++ d.freeList fs).length) ∧
      d.freeList fs = ys ++ after.freeList fs ∧ (xs ++ ys = [] → xs ++ d.freeList fs = []) := by
  obtain ⟨more, steady, fails⟩ := happens
  have repaired : d.repaired.HasChain fs xs := ⟨chain.chained, chain.taken⟩
  have same : d.granted = d.granted.withSectors d.repaired.sectors := rfl
  have nonempty : data.length ≠ 0 := by omega
  rw [fat32WriteFile, if_neg nonempty, kmalloc_eq, granted]
  dsimp only
  unfold WriteStop.transfers at steady fails
  rcases chain_of_start chain isStart with ⟨isZero, empty⟩ | ⟨positive, rest, isRest⟩
  · subst empty
    rw [if_pos rfl] at steady fails
    rw [steadyFor_advance] at steady
    obtain ⟨searches, writes⟩ := steady
    have allocates := @withSectors_allocCluster fs d.granted d.repaired sound repaired_reliable searches
    rw [if_pos isZero, same, allocates]
    rcases allocCluster_chain sound (@repaired_reliable d) with
      ⟨none, full⟩ | ⟨new, grown, result, nonzero, longer, sameData⟩
    · have isEmpty : d.freeList fs = [] := freeList_full full
      rw [none]
      dsimp only
      rw [if_pos rfl, if_pos (by rw [isEmpty]; rfl)]
      refine ⟨0, _, d.repaired, [], rfl, rfl, ⟨.refl repaired_reliable repaired, ?_⟩, rfl,
        fun _ => by rw [isEmpty]; rfl⟩
      intro position inside
      rw [List.append_nil, List.length_nil, Nat.zero_mul] at inside
      omega
    · have first : d.freeList fs = new :: grown.freeList fs :=
        allocCluster_first sound repaired_reliable result nonzero
      have some' : [] ++ d.freeList fs ≠ [] := by
        rw [first]
        exact List.cons_ne_nil _ _
      have length : ([] ++ d.freeList fs).length = (roadAhead [] (grown.freeList fs)).length + 1 := by
        rw [first]
        simp [roadAhead]
      have road : (roadAhead [] (d.freeList fs)).tail = roadAhead [] (grown.freeList fs) := by
        rw [first]
        rfl
      rw [if_neg some', road] at writes fails
      rw [length] at more fails
      obtain ⟨last, after, ys, wrote, stopped, taken⟩ := @writeChain_stops fs
        (d.granted.advance (fs.allocTransfers (d.freeList fs))) grown [] offset data sound stop
        longer.reliable new longer.chain _ rfl some more writes (stop_advance fails)
        { file with startCluster := new }
      rw [result]
      dsimp only
      rw [if_neg nonzero, if_neg some', length]
      refine ⟨new, last, after, [new] ++ ys, wrote, rfl, .grown longer sameData stopped, ?_, ?_⟩
      · rw [first, taken]
        rfl
      · intro isEmpty
        exact absurd isEmpty (List.cons_ne_nil _ _)
  · subst isRest
    have some' : file.startCluster :: rest ++ d.freeList fs ≠ [] := List.cons_ne_nil _ _
    have length : (file.startCluster :: rest ++ d.freeList fs).length =
        (roadAhead rest (d.freeList fs)).length + 1 := by
      simp [roadAhead]
    have road : (roadAhead (file.startCluster :: rest) (d.freeList fs)).tail =
      roadAhead rest (d.freeList fs) := rfl
    rw [if_neg (List.cons_ne_nil _ _), if_neg some', Nat.zero_add, road] at steady fails
    rw [length] at more fails
    obtain ⟨last, after, ys, wrote, stopped, taken⟩ := @writeChain_stops fs d.granted d.repaired rest
      offset data sound stop repaired_reliable _ repaired _ rfl some more steady fails file
    rw [if_neg positive]
    dsimp only
    rw [if_neg positive, if_neg some', length]
    exact ⟨_, last, after, ys, wrote, rfl, stopped, taken, fun isEmpty =>
      absurd isEmpty (List.cons_ne_nil _ _)⟩

end Files

end ZurichOS
