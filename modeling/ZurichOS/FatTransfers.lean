import ZurichOS.FatWrite

/-!
How many of the drive's transfers a write takes.  While these succeed, the operations do on any
drive what they do on one where nothing fails.
-/

namespace ZurichOS

open ByteBuffer Words LinkedChains

variable {fs : Fat32Fs} {d h after : Disk} {before rest ys : List Nat} {current cluster : Nat}

/-- The drive when nothing fails any more. -/
def Disk.repaired (d : Disk) : Disk :=
  { d with transfers := fun _ => true, memory := fun _ => true }

theorem repaired_reliable : d.repaired.Reliable := ⟨fun _ => rfl, fun _ => rfl⟩

theorem Disk.Reliable.withSectors (reliable : h.Reliable) (sectors : Nat → Buffer) :
    (h.withSectors sectors).Reliable :=
  ⟨reliable.transfers, reliable.memory⟩

section Operations

@[simp] theorem withSectors_sectors (sectors : Nat → Buffer) :
    (d.withSectors sectors).sectors = sectors := rfl

theorem withSectors_nextCluster (reliable : h.Reliable) (steady : d.SteadyFor 1) :
    fat32NextCluster fs (d.withSectors h.sectors) cluster =
      ((fat32NextCluster fs h cluster).1, (d.advance 1).withSectors h.sectors) := by
  have first : (d.withSectors h.sectors).transfers 0 = true := steady 0 (by omega)
  rw [nextCluster_eq, nextCluster_eq, if_pos first, if_pos (reliable.transfers 0)]
  rfl

theorem withSectors_setCluster (reliable : h.Reliable) (steady : d.SteadyFor 2) (value : Nat) :
    fat32SetCluster fs (d.withSectors h.sectors) cluster value =
      ((fat32SetCluster fs h cluster value).1,
        (d.advance 2).withSectors (fat32SetCluster fs h cluster value).2.sectors) := by
  have first : (d.withSectors h.sectors).transfers 0 = true := steady 0 (by omega)
  have second : ((d.withSectors h.sectors).advance 1).transfers 0 = true := steady 1 (by omega)
  rw [reliable.steady.setCluster, fat32SetCluster, fat32ReadSectorInternal, readSector_eq, if_pos first]
  dsimp only
  rw [fat32WriteSectorInternal, writeSector_eq, second, if_pos rfl]
  rfl

/-- A search for a free cluster reads an entry for each cluster that it tries, and takes the
cluster with one more transfer. -/
theorem withSectors_allocFrom (reliable : h.Reliable) (left first : Nat) (lower : 2 ≤ first) {new : Nat}
    (result : allocFrom fs left first h = (new, after)) :
    (new = 0 ∨ first ≤ new) ∧ ∀ {d : Disk} {cost : Nat},
      cost = (if new = 0 then left else new + 2 - first) → d.SteadyFor cost →
        allocFrom fs left first (d.withSectors h.sectors) =
          (new, (d.advance cost).withSectors after.sectors) := by
  induction left generalizing first with
  | zero =>
      cases result
      refine ⟨.inl rfl, fun isCost _ => ?_⟩
      rw [isCost, if_pos rfl]
      rfl
  | succ left ih =>
      rw [allocFrom, fat32ReadSectorInternal, readSector_eq, if_pos (reliable.transfers 0),
        reliable.steady.advance] at result
      dsimp only at result
      by_cases free : word32 (h.sectors (u32 (fs.partitionLba + fatSector fs first) % ataAddressable))
          (entryOffset first) &&& 0x0FFFFFFF = 0
      · rw [if_pos free, fat32WriteSectorInternal, reliable.steady.write] at result
        cases result
        refine ⟨.inr (Nat.le_refl _), fun {d cost} isCost steady => ?_⟩
        obtain rfl : cost = 2 := by
          rw [isCost, if_neg (by omega)]
          omega
        have read : (d.withSectors h.sectors).transfers 0 = true := steady 0 (by omega)
        have written : ((d.withSectors h.sectors).advance 1).transfers 0 = true :=
          steady 1 (by omega)
        rw [allocFrom, fat32ReadSectorInternal, readSector_eq, if_pos read]
        dsimp only
        rw [withSectors_sectors, if_pos free, fat32WriteSectorInternal, writeSector_eq, written,
          if_pos rfl]
        rfl
      · rw [if_neg free] at result
        obtain ⟨above, later⟩ := ih (first + 1) (by omega) result
        refine ⟨above.imp_right (by omega), fun {d cost} isCost steady => ?_⟩
        have isLater : cost = 1 + (if new = 0 then left else new + 2 - (first + 1)) := by
          split_ifs at isCost ⊢ <;> omega
        rw [isLater, steadyFor_advance] at steady
        have read : (d.withSectors h.sectors).transfers 0 = true := steady.1 0 (by omega)
        rw [allocFrom, fat32ReadSectorInternal, readSector_eq, if_pos read]
        dsimp only
        rw [withSectors_sectors, if_neg free, isLater, ← advance_advance]
        exact later rfl steady.2

theorem freeList_full (full : (h.view fs).Full fs) : h.freeList fs = [] := by
  rw [Disk.freeList, List.filter_eq_nil_iff]
  intro cluster member
  obtain ⟨above, below⟩ := List.mem_range'_1.mp member
  rw [decide_eq_true_iff]
  exact full cluster ⟨above, by omega⟩

/-- The transfers of an allocation. -/
def Fat32Fs.allocTransfers (fs : Fat32Fs) (free : List Nat) : Nat := free.headD fs.totalClusters

theorem withSectors_allocCluster (sound : fs.Sound) (reliable : h.Reliable)
    (steady : d.SteadyFor (fs.allocTransfers (h.freeList fs))) :
    fat32AllocCluster fs (d.withSectors h.sectors) = ((fat32AllocCluster fs h).1,
      (d.advance (fs.allocTransfers (h.freeList fs))).withSectors
        (fat32AllocCluster fs h).2.sectors) := by
  have clusters := sound.clusters_lt
  have count : u32 (fs.totalClusters + 2) - 2 = fs.totalClusters := by
    unfold u32
    omega
  rcases result : fat32AllocCluster fs h with ⟨new, after⟩
  have isCost : fs.allocTransfers (h.freeList fs) =
      if new = 0 then fs.totalClusters else new + 2 - 2 := by
    by_cases none : new = 0
    · rcases allocCluster_view sound reliable with ⟨_, full⟩ | ⟨found, last, isFound, has, _⟩
      · rw [if_pos none, freeList_full full]
        rfl
      · have lower := has.1
        rw [result] at isFound
        cases isFound
        omega
    · rw [if_neg none, allocCluster_first sound reliable result none]
      rfl
  rw [fat32AllocCluster, count] at result ⊢
  exact (withSectors_allocFrom reliable fs.totalClusters 2 (Nat.le_refl _) result).2 isCost steady

end Operations

section Walking

/-- The transfers for going on to each of the clusters that follow, and behind them to each of the
free ones. -/
def roadAhead (rest free : List Nat) : List Nat := rest.map (fun _ => 1) ++ free.map (· + 3)

theorem withSectors_nextOrGrow (sound : fs.Sound) (reliable : h.Reliable)
    (chain : h.HasChain fs (before ++ current :: rest))
    (steady : d.SteadyFor ((roadAhead rest (h.freeList fs)).headD (fs.totalClusters + 1))) :
    nextOrGrow fs (d.withSectors h.sectors) current = ((nextOrGrow fs h current).1,
      (d.advance ((roadAhead rest (h.freeList fs)).headD (fs.totalClusters + 1))).withSectors
        (nextOrGrow fs h current).2.sectors) := by
  cases rest with
  | cons next later =>
      have has := (chain.taken next (by simp)).1
      rw [nextOrGrow, withSectors_nextCluster reliable steady, nextOrGrow,
        nextCluster_chain before sound reliable chain]
      dsimp only [List.head?_cons, Option.getD_some]
      rw [if_neg (has.below sound), if_neg (has.below sound)]
      rfl
  | nil =>
      have ends : (0 : Nat) = 0 ∨ fat32ClusterEnd ≤ 0 := .inl rfl
      rcases allocCluster_chain sound reliable with
        ⟨none, full⟩ | ⟨new, grown, result, nonzero, longer, _⟩
      · have cost : (roadAhead [] (h.freeList fs)).headD (fs.totalClusters + 1) =
            1 + fs.allocTransfers (h.freeList fs) := by
          rw [freeList_full full]
          exact Nat.add_comm ..
        rw [cost, steadyFor_advance] at steady
        rw [nextOrGrow, withSectors_nextCluster reliable steady.1, nextOrGrow,
          nextCluster_chain before sound reliable chain]
        dsimp only [List.head?_nil, Option.getD_none]
        rw [if_pos ends, if_pos ends, withSectors_allocCluster sound reliable steady.2, none]
        dsimp only
        rw [if_pos rfl, if_pos rfl, cost, advance_advance]
      · have cost : (roadAhead [] (h.freeList fs)).headD (fs.totalClusters + 1) =
            1 + (fs.allocTransfers (h.freeList fs) + 2) := by
          rw [allocCluster_first sound reliable result nonzero]
          change new + 3 = 1 + (new + 2)
          omega
        rw [cost, steadyFor_advance, steadyFor_advance] at steady
        rw [nextOrGrow, withSectors_nextCluster reliable steady.1, nextOrGrow,
          nextCluster_chain before sound reliable chain]
        dsimp only [List.head?_nil, Option.getD_none]
        rw [if_pos ends, if_pos ends, withSectors_allocCluster sound reliable steady.2.1, result]
        dsimp only
        rw [if_neg nonzero, if_neg nonzero, withSectors_setCluster longer.reliable steady.2.2, cost,
          advance_advance, advance_advance]

theorem roadAhead_step {next : Nat} {later free : List Nat} (split : rest ++ ys = next :: later)
    (tight : ys = [] ∨ later = []) :
    ∃ cost, roadAhead rest (ys ++ free) = cost :: roadAhead later free := by
  cases rest with
  | nil =>
      obtain rfl : ys = next :: later := split
      obtain rfl := tight.resolve_left (List.cons_ne_nil _ _)
      exact ⟨next + 3, rfl⟩
  | cons first others =>
      rw [List.cons_append] at split
      obtain ⟨rfl, isLater⟩ := List.cons.inj split
      rcases tight with rfl | rfl
      · rw [List.append_nil] at isLater
        rw [isLater]
        exact ⟨1, rfl⟩
      · obtain ⟨rfl, rfl⟩ := List.append_eq_nil_iff.mp isLater
        exact ⟨1, rfl⟩

/-- The step to the next cluster, which takes the first transfers of the road, or at its end the
transfers that find the volume full. -/
theorem nextOrGrow_road (sound : fs.Sound) (reliable : h.Reliable)
    (chain : h.HasChain fs (before ++ current :: rest)) :
    (roadAhead rest (h.freeList fs) = [] ∧ rest = [] ∧ nextOrGrow fs h current = (0, h) ∧
        ∀ {d : Disk}, d.SteadyFor (fs.totalClusters + 1) →
          nextOrGrow fs (d.withSectors h.sectors) current =
            (0, (d.advance (fs.totalClusters + 1)).withSectors h.sectors)) ∨
      ∃ cost next after ys later,
        roadAhead rest (h.freeList fs) = cost :: roadAhead later (after.freeList fs) ∧
        nextOrGrow fs h current = (next, after) ∧
        (∀ {d : Disk}, d.SteadyFor cost → nextOrGrow fs (d.withSectors h.sectors) current =
          (next, (d.advance cost).withSectors after.sectors)) ∧
        next ≠ 0 ∧ Extends fs h after (before ++ current :: rest) ys ∧
        (after.view fs).data = (h.view fs).data ∧ rest ++ ys = next :: later ∧
        (ys = [] ∨ later = []) ∧ h.freeList fs = ys ++ after.freeList fs := by
  have moves := fun d : Disk =>
    @withSectors_nextOrGrow fs d h before rest current sound reliable chain
  rcases nextOrGrow_chain sound reliable chain with
    ⟨none, isLast, full⟩ |
      ⟨next, after, ys, later, result, nonzero, longer, same, split, tight, first⟩
  · left
    have road : roadAhead rest (h.freeList fs) = [] := by
      rw [isLast, freeList_full full]
      rfl
    rw [road, none] at moves
    exact ⟨road, isLast, none, fun {d} => moves d⟩
  · right
    obtain ⟨cost, isCost⟩ := @roadAhead_step _ _ _ _ (after.freeList fs) split tight
    rw [first, isCost, result] at moves
    rw [← first] at isCost
    exact ⟨cost, next, after, ys, later, isCost, result, fun {d} => moves d, nonzero, longer, same,
      split, tight, first⟩

/-- The transfers of the steps of a search: when the road ends before it, one that finds the volume
full. -/
def Fat32Fs.roadTransfers (fs : Fat32Fs) (steps : Nat) (road : List Nat) : Nat :=
  (road.take steps).sum + if road.length < steps then fs.totalClusters + 1 else 0

theorem withSectors_seekWrite (before : List Nat) (sound : fs.Sound) (reliable : h.Reliable)
    (steps : Nat) (chain : h.HasChain fs (before ++ current :: rest)) {road : List Nat}
    (isRoad : roadAhead rest (h.freeList fs) = road)
    (steady : d.SteadyFor (fs.roadTransfers steps road)) :
    seekWrite fs steps (d.withSectors h.sectors) current = ((seekWrite fs steps h current).1,
      (d.advance (fs.roadTransfers steps road)).withSectors
        (seekWrite fs steps h current).2.sectors) := by
  induction steps generalizing d h before current rest road with
  | zero => rfl
  | succ steps ih =>
      rw [seekWrite, seekWrite]
      rcases nextOrGrow_road sound reliable chain with
        ⟨isEnd, _, none, moves⟩ |
          ⟨cost, next, grown, ys, later, goesOn, result, moves, nonzero, longer, _, split, _⟩
      · have cost : fs.roadTransfers (steps + 1) road = fs.totalClusters + 1 := by
          rw [← isRoad, isEnd, Fat32Fs.roadTransfers, List.take_nil, List.sum_nil, List.length_nil,
            if_pos (Nat.succ_pos _), Nat.zero_add]
        rw [cost] at steady ⊢
        rw [moves steady, none]
        dsimp only
        rw [if_pos rfl, if_pos rfl]
      · have costs : fs.roadTransfers (steps + 1) road =
            cost + fs.roadTransfers steps (roadAhead later (grown.freeList fs)) := by
          rw [← isRoad, goesOn, Fat32Fs.roadTransfers, List.take_succ_cons, List.sum_cons,
            List.length_cons, Nat.add_assoc, Fat32Fs.roadTransfers]
          simp only [Nat.add_lt_add_iff_right]
        have regroup : (before ++ current :: rest) ++ ys = (before ++ [current]) ++ next :: later := by
          simp [← split]
        rw [costs, steadyFor_advance] at steady
        rw [moves steady.1, result, costs]
        dsimp only
        rw [if_neg nonzero, if_neg nonzero]
        rw [ih (before ++ [current]) longer.reliable (regroup ▸ longer.chain) rfl steady.2,
          advance_advance]

/-- Behind the cluster that a search comes to, the road is the rest of the road. -/
theorem roadAhead_drop {steps next : Nat} {front later free : List Nat}
    (split : (before ++ current :: rest) ++ ys = front ++ next :: later)
    (size : front.length = before.length + steps) (tight : ys = [] ∨ later = []) :
    steps ≤ (roadAhead rest (ys ++ free)).length ∧
      roadAhead later free = (roadAhead rest (ys ++ free)).drop steps := by
  have sizes := congrArg List.length split
  simp only [List.length_append, List.length_cons] at sizes
  have length : (roadAhead rest (ys ++ free)).length = rest.length + (ys.length + free.length) := by
    simp [roadAhead]
  refine ⟨by omega, ?_⟩
  rcases tight with rfl | rfl
  · have isLater := congrArg (List.drop (front.length + 1)) split
    have regroup : front ++ next :: later = (front ++ [next]) ++ later := by simp
    have count : front.length + 1 = (front ++ [next]).length := by simp
    have place : front.length + 1 = (before ++ [current]).length + steps := by
      simp only [List.length_append, List.length_singleton]
      omega
    have old : (before ++ current :: rest) ++ [] = (before ++ [current]) ++ rest := by simp
    rw [regroup, count, List.drop_left, ← count, place, old, List.drop_length_add_append] at isLater
    have inside : steps ≤ (rest.map fun _ => 1).length := by
      rw [List.length_nil] at sizes
      rw [List.length_map]
      omega
    rw [List.nil_append, roadAhead, roadAhead, List.drop_append_of_le_length inside,
      ← List.map_drop, isLater]
  · have count : steps = (rest.map fun _ => 1).length + (ys.map (· + 3)).length := by
      simp only [List.length_map]
      simp only [List.length_nil] at sizes
      omega
    rw [roadAhead, roadAhead, List.map_append, ← List.append_assoc, count, ← List.length_append,
      List.drop_left]
    rfl

/-- A search ends behind the end of the road on a full volume, or at the cluster that it looks for,
with the rest of the road ahead. -/
theorem seekWrite_road (sound : fs.Sound) (reliable : h.Reliable) (steps : Nat) {start : Nat}
    (chain : h.HasChain fs (start :: rest)) {road : List Nat}
    (isRoad : roadAhead rest (h.freeList fs) = road) :
    ∃ current middle ys, Extends fs h middle (start :: rest) ys ∧
      (middle.view fs).data = (h.view fs).data ∧ h.freeList fs = ys ++ middle.freeList fs ∧
      (∀ {d : Disk}, d.SteadyFor (fs.roadTransfers steps road) →
        seekWrite fs steps (d.withSectors h.sectors) start =
          (current, (d.advance (fs.roadTransfers steps road)).withSectors middle.sectors)) ∧
      (road.length < steps ∧ current = 0 ∨
        ∃ front later, steps ≤ road.length ∧ (start :: rest) ++ ys = front ++ current :: later ∧
          front.length = steps ∧ current ≠ 0 ∧ (ys = [] ∨ later = []) ∧
          roadAhead later (middle.freeList fs) = road.drop steps) := by
  have positive : start ≠ 0 := by
    have lower := chain.head.1.1
    omega
  obtain ⟨current, middle, ys, sought, longer, sameData, first, ends⟩ :=
    seekWrite_chain [] sound reliable steps chain positive
  simp only [List.nil_append, List.length_nil, Nat.zero_add] at longer ends
  refine ⟨current, middle, ys, longer, sameData, first, fun steady => ?_, ?_⟩
  · rw [withSectors_seekWrite [] sound reliable steps chain isRoad steady, sought]
  · rcases ends with ⟨isZero, full, short⟩ | ⟨front, later, split, size, nonzero, tight⟩
    · left
      refine ⟨?_, isZero⟩
      rw [← isRoad, first, freeList_full full, List.append_nil]
      simp only [roadAhead, List.length_append, List.length_map, List.length_cons] at short ⊢
      omega
    · right
      have whole : ([] ++ start :: rest) ++ ys = front ++ current :: later := split
      have place : front.length = ([] : List Nat).length + steps := by
        rw [size, List.length_nil, Nat.zero_add]
      obtain ⟨inside, isDrop⟩ := @roadAhead_drop _ _ _ _ _ _ _ _ (middle.freeList fs) whole place tight
      rw [← first, isRoad] at inside isDrop
      exact ⟨front, later, inside, split, size, nonzero, tight, isDrop⟩

end Walking

end ZurichOS
