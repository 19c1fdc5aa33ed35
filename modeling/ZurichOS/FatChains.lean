import ZurichOS.Fat
import Mathlib.Order.Interval.Finset.Nat

/-!
What the driver's operations do to the chain of one directory or file: it may go on with
clusters that were free, and nothing else in the FAT changes.
-/

namespace ZurichOS

open ByteBuffer Words LinkedChains

variable {fs : Fat32Fs} {d after last : Disk} {xs ys zs : List Nat}

def FatView.table (w : FatView) (fs : Fat32Fs) : Table Nat where
  next cluster := if w.next cluster = 0 then none else some (w.next cluster)
  taken cluster := fs.HasCluster cluster ∧ w.entry cluster ≠ 0

def Disk.table (d : Disk) (fs : Fat32Fs) : Table Nat := (d.view fs).table fs

/-- The clusters are a chain of the volume, all of them allocated. -/
structure Disk.HasChain (d : Disk) (fs : Fat32Fs) (xs : List Nat) : Prop where
  chained : Chained (d.table fs).next xs
  taken : ∀ cluster ∈ xs, (d.table fs).taken cluster

/-- After some operation on the chain `xs`, it goes on with the clusters `ys`. -/
structure Extends (fs : Fat32Fs) (d after : Disk) (xs ys : List Nat) : Prop where
  reliable : after.Reliable
  grown : Grown (d.table fs) (after.table fs) xs ys
  data : ∀ cluster, cluster ∉ xs ++ ys →
    (after.view fs).data cluster = (d.view fs).data cluster

theorem Extends.trans (first : Extends fs d after xs ys)
    (second : Extends fs after last (xs ++ ys) zs) : Extends fs d last xs (ys ++ zs) := by
  refine ⟨second.reliable, first.grown.trans second.grown, fun cluster outside => ?_⟩
  rw [← List.append_assoc] at outside
  rw [second.data cluster outside]
  exact first.data cluster fun member => outside (List.mem_append_left _ member)

theorem Extends.refl (reliable : d.Reliable) (chain : d.HasChain fs xs) :
    Extends fs d d xs [] :=
  ⟨reliable, Grown.refl chain.chained chain.taken, fun _ _ => rfl⟩

theorem Extends.chain (longer : Extends fs d after xs ys) : after.HasChain fs (xs ++ ys) :=
  ⟨longer.grown.chained, longer.grown.taken⟩

theorem Disk.HasChain.nil : d.HasChain fs [] := by
  refine ⟨trivial, fun cluster member => ?_⟩
  cases member

section Entries

variable {w : FatView} {cluster other value : Nat}

theorem next_setEntry_ne (different : other ≠ cluster) :
    ((w.setEntry cluster value).table fs).next other = (w.table fs).next other := by
  simp [FatView.table, FatView.next, FatView.setEntry, Function.update_of_ne different]

theorem taken_setEntry_ne (different : other ≠ cluster) :
    ((w.setEntry cluster value).table fs).taken other ↔ (w.table fs).taken other := by
  simp [FatView.table, FatView.setEntry, Function.update_of_ne different]

theorem next_setEntry_end : ((w.setEntry cluster 0x0FFFFFFF).table fs).next cluster = none := by
  have isEnd : fat32ClusterEnd ≤ 0x0FFFFFFF := by decide
  simp [FatView.table, FatView.next, FatView.setEntry, isEnd]

theorem next_setEntry_link (small : value < fat32ClusterEnd) (positive : value ≠ 0) :
    ((w.setEntry cluster value).table fs).next cluster = some value := by
  simp [FatView.table, FatView.next, FatView.setEntry, Nat.not_le.mpr small, positive]

end Entries

section Walking

variable {current : Nat} {before rest : List Nat}

theorem Disk.HasChain.mem (chain : d.HasChain fs (before ++ current :: rest)) :
    fs.HasCluster current ∧ (d.view fs).entry current ≠ 0 :=
  chain.taken current (List.mem_append_right _ (List.mem_cons_self ..))

theorem Disk.HasChain.head (chain : d.HasChain fs (current :: rest)) :
    fs.HasCluster current ∧ (d.view fs).entry current ≠ 0 :=
  chain.taken current (List.mem_cons_self ..)

theorem Disk.HasChain.start_lt (chain : d.HasChain fs xs) (sound : fs.Sound) {start : Nat}
    (isStart : xs.head?.getD 0 = start) : start < 4294967296 := by
  cases xs with
  | nil =>
      obtain rfl : 0 = start := isStart
      omega
  | cons cluster rest =>
      obtain rfl : cluster = start := isStart
      have small := Nat.lt_of_not_le (not_or.mp (chain.head.1.below sound)).2
      change cluster < 268435448 at small
      omega

/-- In a chain, the driver goes from each cluster to the next one, and from the last
one to 0. -/
theorem Disk.HasChain.next_eq (chain : d.HasChain fs (before ++ current :: rest)) :
    (d.view fs).next current = rest.head?.getD 0 := by
  have successor := chain.chained.successor
  simp only [Disk.table, FatView.table] at successor
  cases rest with
  | nil =>
      by_contra linked
      rw [List.head?_nil, Option.getD_none] at linked
      rw [if_neg linked] at successor
      cases successor
  | cons after rest =>
      split at successor
      · cases successor
      · exact Option.some.inj successor

theorem nextCluster_chain (before : List Nat) (sound : fs.Sound) (reliable : d.Reliable)
    (chain : d.HasChain fs (before ++ current :: rest)) :
    fat32NextCluster fs d current = (rest.head?.getD 0, d) := by
  rw [nextCluster_view sound reliable chain.mem.1.2, chain.next_eq]

/-- The free clusters in the order of their numbers. -/
def Disk.freeList (d : Disk) (fs : Fat32Fs) : List Nat :=
  (List.range' 2 fs.totalClusters).filter fun cluster => (d.view fs).entry cluster = 0

theorem freeList_congr
    (same : ∀ cluster, (after.view fs).entry cluster = 0 ↔ (d.view fs).entry cluster = 0) :
    after.freeList fs = d.freeList fs := by
  simp only [Disk.freeList, same]

/-- A new cluster is the first of the free ones. -/
theorem allocCluster_first (sound : fs.Sound) (reliable : d.Reliable) {new : Nat}
    (result : fat32AllocCluster fs d = (new, after)) (nonzero : new ≠ 0) :
    d.freeList fs = new :: after.freeList fs := by
  rcases allocCluster_view sound reliable with
    ⟨none, _⟩ | ⟨found, last, isFound, has, free, _, view, passed⟩
  · rw [none] at result
    cases result
    exact absurd rfl nonzero
  · rw [isFound] at result
    cases result
    obtain ⟨lower, upper⟩ := has
    obtain ⟨passedBy, rfl⟩ : ∃ count, new = 2 + count := ⟨new - 2, by omega⟩
    obtain ⟨left, total⟩ : ∃ left, fs.totalClusters = passedBy + (left + 1) :=
      ⟨fs.totalClusters - passedBy - 1, by omega⟩
    have split : List.range' 2 fs.totalClusters =
        List.range' 2 passedBy ++ (2 + passedBy) :: List.range' (2 + passedBy + 1) left := by
      rw [total, ← List.range'_append_1, List.range'_succ]
    have others : ∀ other, other ≠ 2 + passedBy →
        (after.view fs).entry other = (d.view fs).entry other := by
      intro other different
      rw [view]
      exact Function.update_of_ne different ..
    have front : ∀ {w : FatView},
        (∀ other, other ≠ 2 + passedBy → w.entry other = (d.view fs).entry other) →
        (List.range' 2 passedBy).filter (fun cluster => w.entry cluster = 0) = [] := by
      intro w same
      rw [List.filter_eq_nil_iff]
      intro other member
      obtain ⟨above, below⟩ := List.mem_range'_1.mp member
      rw [decide_eq_true_iff, same other (by omega)]
      exact passed other above below
    have taken : (after.view fs).entry (2 + passedBy) ≠ 0 := by
      rw [view]
      simp [FatView.setEntry]
    rw [Disk.freeList, Disk.freeList, split, List.filter_append, List.filter_append,
      front fun _ _ => rfl, front others, List.nil_append, List.nil_append,
      List.filter_cons_of_pos (by simpa using free),
      List.filter_cons_of_neg (by simpa using taken)]
    congr 1
    apply List.filter_congr
    intro other member
    obtain ⟨above, _⟩ := List.mem_range'_1.mp member
    rw [others other (by omega)]

/-- A new cluster is a chain of its own, or there is none. -/
theorem allocCluster_chain (sound : fs.Sound) (reliable : d.Reliable) :
    (fat32AllocCluster fs d = (0, d) ∧ (d.view fs).Full fs) ∨
      ∃ new after, fat32AllocCluster fs d = (new, after) ∧ new ≠ 0 ∧
        Extends fs d after [] [new] ∧ (after.view fs).data = (d.view fs).data := by
  rcases allocCluster_view sound reliable with
    full | ⟨new, after, result, has, free, keeps, view, _⟩
  · exact .inl full
  · right
    have positive : new ≠ 0 := by
      have lower := has.1
      omega
    refine ⟨new, after, result, positive, ⟨keeps, ?_, ?_⟩, ?_⟩
    · constructor
      · refine ⟨?_, trivial⟩
        rw [Disk.table, view]
        exact next_setEntry_end
      · intro cell member
        obtain rfl := List.mem_singleton.mp member
        exact fun taken => taken.2 free
      · intro cell member
        obtain rfl := List.mem_singleton.mp member
        refine ⟨has, ?_⟩
        simp [view, FatView.setEntry]
      · intro cell outside
        have different : cell ≠ new := fun same => outside (by simp [same])
        rw [Disk.table, Disk.table, view]
        exact ⟨next_setEntry_ne different, taken_setEntry_ne different⟩
    · intro cluster _
      rw [view]
      rfl
    · rw [view]
      rfl

theorem setCluster_chain (sound : fs.Sound) {new : Nat}
    (chain : d.HasChain fs (before ++ [current]))
    (alloc : Extends fs d after [] [new]) :
    ∃ last, fat32SetCluster fs after current new = (true, last) ∧
      Extends fs d last (before ++ [current]) [new] ∧
      (last.view fs).data = (after.view fs).data := by
  have hasNew := alloc.chain.head.1
  have lower := hasNew.1
  have upper := hasNew.2
  have clusters := sound.clusters_lt
  have fresh : new ∉ before ++ [current] := fun member =>
    alloc.grown.fresh new (List.mem_singleton_self _) (chain.taken new member)
  have isOther : current ≠ new := fun same => fresh (by simp [same])
  obtain ⟨last, result, keeps, view⟩ :=
    setCluster_view sound alloc.reliable chain.mem.1.2 new
  rw [Nat.mod_eq_of_lt (by omega)] at view
  have others : ∀ cell, cell ∉ (before ++ [current]) ++ [new] →
      (last.table fs).next cell = (d.table fs).next cell ∧
        ((last.table fs).taken cell ↔ (d.table fs).taken cell) := by
    intro cell outside
    have notCurrent : cell ≠ current := fun same => outside (by simp [same])
    obtain ⟨sameNext, sameTaken⟩ := alloc.grown.others cell fun member => outside (by
      simp only [List.nil_append, List.mem_singleton] at member
      simp [member])
    rw [← sameNext, ← sameTaken, Disk.table, Disk.table, view]
    exact ⟨next_setEntry_ne notCurrent, taken_setEntry_ne notCurrent⟩
  have kept : ∀ cell ∈ before, (last.table fs).next cell = (d.table fs).next cell := by
    intro cell member
    have inside : cell ∈ before ++ [current] := List.mem_append_left _ member
    have notNew : cell ≠ new := fun same => fresh (same ▸ inside)
    have notCurrent : cell ≠ current := by
      intro same
      have split := List.nodup_append.mp chain.chained.nodup
      exact split.2.2 cell member current (List.mem_singleton_self _) same
    obtain ⟨sameNext, _⟩ := alloc.grown.others cell (by simpa using notNew)
    rw [← sameNext, Disk.table, Disk.table, view]
    exact next_setEntry_ne notCurrent
  refine ⟨last, result, ⟨keeps, ?_, ?_⟩, ?_⟩
  · constructor
    · rw [List.append_assoc]
      refine chain.chained.link ?_ ?_ kept
      · rw [Disk.table, view]
        exact next_setEntry_link (by change new < 268435448; omega) (by omega)
      · rw [Disk.table, view, next_setEntry_ne (Ne.symm isOther)]
        exact alloc.grown.chained.1
    · exact alloc.grown.fresh
    · intro cell member
      rw [Disk.table, view]
      by_cases isCurrent : cell = current
      · subst isCurrent
        refine ⟨chain.mem.1, ?_⟩
        simp only [FatView.setEntry, Function.update_self]
        omega
      · rw [taken_setEntry_ne isCurrent]
        by_cases isNew : cell = new
        · exact alloc.grown.taken cell (by simp [isNew])
        · have old : cell ∈ before ++ [current] := by
            rcases List.mem_append.mp member with inside | inside
            · exact inside
            · exact absurd (List.mem_singleton.mp inside) isNew
          exact (alloc.grown.others cell (by simpa using isNew)).2.mpr (chain.taken cell old)
    · exact others
  · intro cell outside
    rw [view]
    exact alloc.data cell fun member => outside (List.mem_append_right _ member)
  · rw [view]
    rfl

/-- A link from a cluster in use leaves the same clusters free. -/
theorem setCluster_freeList (sound : fs.Sound) (reliable : d.Reliable) {value : Nat} {ok : Bool}
    (taken : (d.table fs).taken current) (nonzero : value % 268435456 ≠ 0)
    (result : fat32SetCluster fs d current value = (ok, after)) :
    after.freeList fs = d.freeList fs := by
  obtain ⟨linked, isLinked, _, view⟩ := setCluster_view sound reliable taken.1.2 value
  rw [isLinked] at result
  cases result
  apply freeList_congr
  intro cluster
  rw [view]
  by_cases own : cluster = current
  · subst own
    have now : ((d.view fs).setEntry cluster (value % 268435456)).entry cluster =
        value % 268435456 := Function.update_self ..
    rw [now]
    exact iff_of_false nonzero taken.2
  · have kept : ((d.view fs).setEntry current (value % 268435456)).entry cluster =
        (d.view fs).entry cluster := Function.update_of_ne own ..
    rw [kept]

/-- `nextOrGrow` takes the next cluster of the chain, or makes the chain longer by one;
it fails only at the end of a chain on a full volume. -/
theorem nextOrGrow_chain (sound : fs.Sound) (reliable : d.Reliable)
    (chain : d.HasChain fs (before ++ current :: rest)) :
    (nextOrGrow fs d current = (0, d) ∧ rest = [] ∧ (d.view fs).Full fs) ∨
      ∃ next after ys later, nextOrGrow fs d current = (next, after) ∧ next ≠ 0 ∧
        Extends fs d after (before ++ current :: rest) ys ∧
        (after.view fs).data = (d.view fs).data ∧ rest ++ ys = next :: later ∧
        (ys = [] ∨ later = []) ∧ d.freeList fs = ys ++ after.freeList fs := by
  rw [nextOrGrow, nextCluster_chain before sound reliable chain]
  cases rest with
  | nil =>
      rw [List.head?_nil, Option.getD_none]
      dsimp only
      rw [if_pos (.inl rfl)]
      rcases allocCluster_chain sound reliable with
        ⟨none, full⟩ | ⟨new, after, result, positive, longer, same⟩
      · left
        rw [none]
        exact ⟨rfl, rfl, full⟩
      · right
        obtain ⟨last, linked, grown, sameLast⟩ := setCluster_chain sound chain longer
        refine ⟨new, last, [new], [], ?_, positive, grown, sameLast.trans same, rfl, .inr rfl, ?_⟩
        · rw [result]
          dsimp only
          rw [if_neg positive, linked]
        · have hasNew := longer.chain.head.1
          have upper := hasNew.2
          have clusters := sound.clusters_lt
          have notNew : current ∉ [] ++ [new] := by
            intro member
            obtain rfl := List.mem_singleton.mp member
            exact longer.grown.fresh current (List.mem_singleton_self _) chain.mem
          have taken := (longer.grown.others current notNew).2.mpr chain.mem
          rw [setCluster_freeList sound longer.reliable taken (by omega) linked]
          exact allocCluster_first sound reliable result positive
  | cons next later =>
      right
      have has := (chain.taken next (by simp)).1
      obtain ⟨positive, small⟩ := not_or.mp (has.below sound)
      refine ⟨next, d, [], later, ?_, positive, .refl reliable chain, rfl, by simp, .inl rfl, rfl⟩
      rw [List.head?_cons, Option.getD_some]
      dsimp only
      rw [if_neg (by simp [positive, small])]

/-- Other contents of a cluster of the chain leave the chain as it is. -/
theorem extends_setData (chain : d.HasChain fs xs) (member : current ∈ xs)
    (reliable : after.Reliable) {bytes : Nat → UInt8}
    (view : after.view fs = (d.view fs).setData current bytes) : Extends fs d after xs [] := by
  have sameTable : after.table fs = d.table fs := by
    rw [Disk.table, view]
    rfl
  refine ⟨reliable, ?_, ?_⟩
  · rw [sameTable]
    exact Grown.refl chain.chained chain.taken
  · intro cluster outside
    have different : cluster ≠ current := fun same => outside (by simp [same, member])
    rw [view]
    exact Function.update_of_ne different ..

theorem writeCluster_chain (sound : fs.Sound) (reliable : d.Reliable)
    (chain : d.HasChain fs xs) (member : current ∈ xs) (buf : Buffer) :
    ∃ after, fat32WriteCluster fs d current buf = (true, after) ∧ Extends fs d after xs [] ∧
      after.view fs = (d.view fs).setData current (fs.clip buf) := by
  obtain ⟨after, result, keeps, view⟩ :=
    writeCluster_view sound reliable (chain.taken current member).1 buf
  exact ⟨after, result, extends_setData chain member keeps view, view⟩

end Walking

theorem Disk.HasChain.length_le (chain : d.HasChain fs xs) : xs.length ≤ fs.totalClusters := by
  have inside : xs.toFinset ⊆ Finset.Ico 2 (fs.totalClusters + 2) := by
    intro cluster member
    have has := (chain.taken cluster (List.mem_toFinset.mp member)).1
    exact Finset.mem_Ico.mpr has
  have count := Finset.card_le_card inside
  rwa [List.toFinset_card_of_nodup chain.chained.nodup, Nat.card_Ico, Nat.add_sub_cancel] at count

/-- A loop over a directory ends within one turn for each cluster of the volume. -/
def Fat32Fs.turns (fs : Fat32Fs) : Nat := fs.totalClusters + 2

theorem turns_enough (fs : Fat32Fs) : fs.totalClusters ≤ fs.turns := Nat.le_add_right ..

def FatView.clear (w : FatView) (xs : List Nat) : FatView :=
  { w with entry := fun cluster => if cluster ∈ xs then 0 else w.entry cluster }

/-- Freeing a chain ends, and clears the entries of its clusters only. -/
theorem freeClusterChain_view (sound : fs.Sound) (reliable : d.Reliable)
    (chain : d.HasChain fs xs) {fuel : Nat} (enough : xs.length < fuel) :
    ∃ after, fat32FreeClusterChain fs fuel d (xs.head?.getD 0) = some after ∧
      after.Reliable ∧ after.view fs = (d.view fs).clear xs := by
  induction xs generalizing d fuel with
  | nil =>
      obtain ⟨more, rfl⟩ : ∃ more, fuel = more + 1 := ⟨fuel - 1, by omega⟩
      refine ⟨d, rfl, reliable, ?_⟩
      simp [FatView.clear]
  | cons cluster rest ih =>
      simp only [List.length_cons] at enough
      obtain ⟨more, rfl⟩ : ∃ more, fuel = more + 1 := ⟨fuel - 1, by omega⟩
      have has := chain.head.1
      have small := Nat.lt_of_not_le (not_or.mp (has.below sound)).2
      have outside : cluster ∉ rest := (List.nodup_cons.mp chain.chained.nodup).1
      obtain ⟨freed, result, keeps, view⟩ := setCluster_view sound reliable has.2 0
      have remaining : freed.HasChain fs rest := by
        have apart : ∀ cell ∈ rest, cell ≠ cluster := fun cell member same =>
          outside (same ▸ member)
        constructor
        · apply chain.chained.2.congr
          intro cell member
          rw [Disk.table, view]
          exact next_setEntry_ne (apart cell member)
        · intro cell member
          rw [Disk.table, view, taken_setEntry_ne (apart cell member)]
          exact chain.taken cell (List.mem_cons_of_mem _ member)
      obtain ⟨after, rest_freed, reliable_after, cleared⟩ := ih keeps remaining (Nat.lt_of_succ_lt_succ enough)
      refine ⟨after, ?_, reliable_after, ?_⟩
      · rw [List.head?_cons, Option.getD_some, fat32FreeClusterChain, if_pos ⟨has.1, small⟩,
          nextCluster_chain [] sound reliable chain]
        dsimp only
        rw [result]
        exact rest_freed
      · rw [cleared, view]
        apply FatView.ext
        · funext cell
          by_cases own : cell = cluster
          · simp [FatView.clear, FatView.setEntry, own]
          · simp [FatView.clear, FatView.setEntry, own]
        · rfl

def emptyDisk : Disk :=
  { sectors := fun lba =>
      if lba = 1 then putBytes (fun _ => 0) 8 (le32 0x0FFFFFFF) else fun _ => 0
    transfers := fun _ => true
    memory := fun _ => true }

theorem emptyVolume_sound : emptyVolume.Sound := by
  constructor <;> decide

theorem emptyDisk_reliable : emptyDisk.Reliable := ⟨fun _ => rfl, fun _ => rfl⟩

theorem emptyDisk_root : emptyDisk.HasChain emptyVolume [2] := by
  refine ⟨⟨by decide, trivial⟩, fun cluster member => ?_⟩
  obtain rfl := List.mem_singleton.mp member
  exact ⟨by decide, by decide⟩

end ZurichOS
