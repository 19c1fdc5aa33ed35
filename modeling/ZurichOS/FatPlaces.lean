import ZurichOS.FatDirectory
import ZurichOS.FatFile
import ZurichOS.FatVfsDirs

set_option linter.all false

/-!
A directory as a sequence of places for entries, which is read up to the first end mark.  What
`fat32_find_entry` and `fat32_create_entry` do with it while the transfers succeed, whatever
becomes of allocations.
-/

namespace ZurichOS

open ByteBuffer Words LinkedChains

variable {fs : Fat32Fs} {d after : Disk} {xs ys before rest : List Nat} {current c i : Nat}
  {hit : Buffer → Bool} {memory : Nat → Bool}

/-- The places for entries in the clusters: a cluster and a number in it. -/
def Fat32Fs.places (fs : Fat32Fs) (xs : List Nat) : List (Nat × Nat) :=
  xs.flatMap fun cluster => (List.range fs.entriesPerCluster).map fun i => (cluster, i)

def FatView.entryAt (w : FatView) (place : Nat × Nat) : Buffer := w.dirent place.1 place.2

/-- The places in front of the end mark. -/
def FatView.listed (w : FatView) (fs : Fat32Fs) (xs : List Nat) : List (Nat × Nat) :=
  (fs.places xs).takeWhile fun place => w.entryAt place 0 ≠ 0

section Places

variable {w w' : FatView} {place : Nat × Nat}

theorem takeWhile_congr {α : Type} {p q : α → Bool} {xs : List α} (same : ∀ x ∈ xs, p x = q x) :
    xs.takeWhile p = xs.takeWhile q := by
  induction xs with
  | nil => rfl
  | cons x rest ih =>
      rw [List.takeWhile_cons, List.takeWhile_cons, same x (List.mem_cons_self ..),
        ih fun y member => same y (List.mem_cons_of_mem _ member)]

theorem places_append : fs.places (xs ++ ys) = fs.places xs ++ fs.places ys :=
  List.flatMap_append

theorem places_cons : fs.places (c :: xs) =
    (List.range fs.entriesPerCluster).map (fun i => (c, i)) ++ fs.places xs := rfl

theorem mem_places : place ∈ fs.places xs ↔ place.1 ∈ xs ∧ place.2 < fs.entriesPerCluster := by
  obtain ⟨cluster, i⟩ := place
  simp only [Fat32Fs.places, List.mem_flatMap, List.mem_map, List.mem_range, Prod.mk.injEq]
  constructor
  · rintro ⟨_, member, _, inside, rfl, rfl⟩
    exact ⟨member, inside⟩
  · rintro ⟨member, inside⟩
    exact ⟨cluster, member, i, inside, rfl, rfl⟩

theorem places_nodup (nodup : xs.Nodup) : (fs.places xs).Nodup := by
  induction xs with
  | nil => exact List.nodup_nil
  | cons cluster rest ih =>
      obtain ⟨outside, nodup⟩ := List.nodup_cons.mp nodup
      rw [places_cons, List.nodup_append]
      refine ⟨?_, ih nodup, ?_⟩
      · exact List.nodup_range.map fun i j same => congrArg Prod.snd same
      · intro first inFirst second inRest same
        obtain ⟨i, _, rfl⟩ := List.mem_map.mp inFirst
        rw [← same, mem_places] at inRest
        exact outside inRest.1

theorem scanEntries_places (cluster : Nat) (numbers : List Nat) (later : List (Nat × Nat)) :
    (match scanEntries (w.data cluster) hit numbers with
      | .found i => some (cluster, i)
      | .last => none
      | .more => (later.takeWhile fun place => w.entryAt place 0 ≠ 0).find?
          fun place => hit (w.entryAt place)) =
      ((numbers.map (fun i => (cluster, i)) ++ later).takeWhile
        fun place => w.entryAt place 0 ≠ 0).find? fun place => hit (w.entryAt place) := by
  induction numbers with
  | nil => rfl
  | cons i rest ih =>
      rw [scanEntries, List.map_cons, List.cons_append, List.takeWhile_cons]
      by_cases ended : w.data cluster (32 * i) = 0
      · have isEnd : ¬ decide (w.entryAt (cluster, i) 0 ≠ 0) = true := by
          rw [decide_eq_true_iff]
          exact not_not.mpr ended
        rw [if_pos ended, if_neg isEnd, List.find?_nil]
      · have isEntry : decide (w.entryAt (cluster, i) 0 ≠ 0) = true := decide_eq_true ended
        rw [if_neg ended, if_pos isEntry, List.find?_cons]
        by_cases fits : hit (direntAt (w.data cluster) i) = true
        · have isFit : hit (w.entryAt (cluster, i)) = true := fits
          rw [if_pos fits, isFit]
        · have noFit : hit (w.entryAt (cluster, i)) = false := by
            rw [Bool.not_eq_true] at fits
            exact fits
          rw [if_neg fits, noFit]
          exact ih

/-- A search comes to the first place in front of the end mark that fits. -/
theorem findIn_eq :
    w.findIn fs hit xs = (w.listed fs xs).find? fun place => hit (w.entryAt place) := by
  induction xs with
  | nil => rfl
  | cons cluster rest ih =>
      rw [FatView.listed, places_cons, ← scanEntries_places, FatView.findIn, ih]
      rfl

end Places

section Steady

theorem Disk.Steady.reliable (steady : d.Steady) : (d.withMemory fun _ => true).Reliable :=
  ⟨steady, fun _ => rfl⟩

theorem readCluster_chain (sound : fs.Sound) (steady : d.Steady)
    (chain : d.HasChain fs (before ++ current :: rest)) :
    fat32ReadCluster fs d current = (some ((d.view fs).data current), d) := by
  have has := chain.mem.1
  rw [steady.readCluster, if_neg (Nat.not_lt.mpr has.1), loaded_view sound has]

theorem hasChain_congr (same : ∀ cluster ∈ xs,
    (after.view fs).entry cluster = (d.view fs).entry cluster) (chain : d.HasChain fs xs) :
    after.HasChain fs xs := by
  constructor
  · apply chain.chained.congr
    intro cluster member
    unfold Disk.table FatView.table FatView.next
    dsimp only
    rw [same cluster member]
  · intro cluster member
    have taken := chain.taken cluster member
    simp only [Disk.table, FatView.table, same cluster member] at taken ⊢
    exact taken

theorem hasChain_withMemory : (d.withMemory memory).HasChain fs xs ↔ d.HasChain fs xs :=
  ⟨fun chain => ⟨chain.chained, chain.taken⟩, fun chain => ⟨chain.chained, chain.taken⟩⟩

theorem nextCluster_steady (before : List Nat) (sound : fs.Sound) (steady : d.Steady)
    (chain : d.HasChain fs (before ++ current :: rest)) :
    fat32NextCluster fs d current = (rest.head?.getD 0, d) := by
  have next := nextCluster_chain before sound steady.reliable (hasChain_withMemory.mpr chain)
  have restored := restore_memory (fat32NextCluster fs · current)
    (fun _ _ => withMemory_nextCluster) next
  exact restored

/-- The walk over a directory comes to the first place that fits, or to the end. -/
theorem walkDirectory_chain (before : List Nat) (sound : fs.Sound) (steady : d.Steady)
    (fuel : Nat) (chain : d.HasChain fs (before ++ current :: rest))
    (enough : rest.length + 1 < fuel) :
    walkDirectory fs hit fuel d current =
      some (((d.view fs).findIn fs hit (current :: rest)).map
        fun place => (place.1, (d.view fs).data place.1, place.2), d) := by
  induction fuel generalizing before current rest with
  | zero => omega
  | succ fuel ih =>
      have has := chain.mem.1
      rw [walkDirectory, if_neg (has.below sound), readCluster_chain sound steady chain]
      dsimp only
      rw [FatView.findIn]
      cases scanEntries ((d.view fs).data current) hit (List.range fs.entriesPerCluster) with
      | found place => rfl
      | last => rfl
      | more =>
          dsimp only
          rw [nextCluster_steady before sound steady chain]
          cases rest with
          | nil =>
              obtain ⟨more, rfl⟩ : ∃ more, fuel = more + 1 := ⟨fuel - 1, by omega⟩
              rfl
          | cons next later =>
              rw [List.length_cons] at enough
              have regroup : before ++ current :: next :: later =
                  (before ++ [current]) ++ next :: later := by simp
              exact ih (before ++ [current]) (regroup ▸ chain) (by omega)

end Steady

theorem Disk.HasChain.unique (first : d.HasChain fs xs) (second : d.HasChain fs ys)
    (same : xs.head?.getD 0 = ys.head?.getD 0) : xs = ys := by
  apply first.chained.unique second.chained
  cases xs with
  | nil =>
      cases ys with
      | nil => rfl
      | cons cluster rest =>
          have lower := second.head.1.1
          rw [List.head?_nil, List.head?_cons, Option.getD_none, Option.getD_some] at same
          omega
  | cons cluster rest =>
      cases ys with
      | nil =>
          have lower := first.head.1.1
          rw [List.head?_nil, List.head?_cons, Option.getD_none, Option.getD_some] at same
          omega
      | cons other later => exact congrArg some same

/-- A walk with all transfers succeeding leaves the drive as it is. -/
theorem walkDirectory_disk (steady : d.Steady) (fuel : Nat) {found : Option (Nat × Buffer × Nat)}
    (walked : walkDirectory fs hit fuel d current = some (found, after)) : after = d := by
  induction fuel generalizing current with
  | zero => cases walked
  | succ fuel ih =>
      rw [walkDirectory] at walked
      by_cases stops : current = 0 ∨ fat32ClusterEnd ≤ current
      · rw [if_pos stops] at walked
        cases walked
        rfl
      · rw [if_neg stops, steady.readCluster] at walked
        by_cases low : current < 2
        · rw [if_pos low] at walked
          cases walked
          rfl
        · rw [if_neg low] at walked
          dsimp only at walked
          split at walked
          · cases walked
            rfl
          · cases walked
            rfl
          · rw [steady.nextCluster] at walked
            exact ih walked

theorem findEntry_disk (steady : d.Steady) {fuel start : Nat} {name : List UInt8}
    {found : Option Buffer} (result : fat32FindEntry fs fuel d start name = some (found, after)) :
    after = d.granted := by
  rw [fat32FindEntry, kmalloc_eq] at result
  cases granted : d.memory 0 with
  | false =>
      rw [granted] at result
      cases result
      rfl
  | true =>
      rw [granted] at result
      dsimp only at result
      obtain ⟨⟨walked, last⟩, isWalk, same⟩ := Option.map_eq_some_iff.mp result
      have kept := walkDirectory_disk steady.granted fuel isWalk
      cases walked with
      | none =>
          cases same
          exact kept
      | some reached =>
          cases same
          exact kept

section Lookup

/-- The place that the loop of `fat32_find_entry` comes to. -/
def Disk.lookupPlace (d : Disk) (fs : Fat32Fs) (start : Nat) (name : List UInt8) :
    Option (Nat × Nat) :=
  (walkDirectory fs (findsEntry name) fs.turns d start).bind fun (found, _) =>
    found.map fun (cluster, _, i) => (cluster, i)

theorem lookupPlace_chain (sound : fs.Sound) (steady : d.Steady) (chain : d.HasChain fs xs)
    {start : Nat} (isStart : xs.head?.getD 0 = start) (name : List UInt8) :
    d.lookupPlace fs start name = (d.view fs).findIn fs (findsEntry name) xs := by
  have short := chain.length_le
  rw [Disk.lookupPlace, Fat32Fs.turns]
  cases xs with
  | nil =>
      obtain rfl : 0 = start := isStart
      rfl
  | cons first rest =>
      obtain rfl : first = start := isStart
      rw [List.length_cons] at short
      rw [walkDirectory_chain [] sound steady _ chain (by omega), Option.bind_some]
      cases (d.view fs).findIn fs (findsEntry name) (first :: rest) <;> rfl

end Lookup

section Entry

variable {name83 : List UInt8} {attr : UInt8} {buf : Buffer} {new : Nat}

/-- The contents of a directory cluster with a new entry. -/
def newEntry (buf : Buffer) (name83 : List UInt8) (attr : UInt8) (i new : Nat) : Buffer :=
  putBytes (putCluster (putBytes (putBytes (putBytes buf (32 * i) (List.replicate 32 0))
    (32 * i) name83) (32 * i + 11) [attr]) i new) (32 * i + 28) (le32 0)

theorem newEntry_outside (length : name83.length = 11) {p : Nat}
    (outside : p < 32 * i ∨ 32 * i + 32 ≤ p) : newEntry buf name83 attr i new p = buf p := by
  rw [newEntry, putBytes_outside _ (by rw [le32_length]; omega),
    putCluster_outside _ (by omega), putBytes_outside _ (by rw [List.length_singleton]; omega),
    putBytes_outside _ (by omega), putBytes_outside _ (by rw [List.length_replicate]; omega)]

theorem newEntry_name (length : name83.length = 11) {k : Nat} (small : k < 12) :
    newEntry buf name83 attr i new (32 * i + k) = (name83 ++ [attr]).getD k 0 := by
  rw [newEntry, putBytes_outside _ (by omega), putCluster_outside _ (by omega)]
  by_cases last : k = 11
  · rw [last, putBytes_inside _ (Nat.le_refl _) (by rw [List.length_singleton]; omega),
      Nat.sub_self, ← length, List.getD_append_right _ _ _ _ (Nat.le_refl _), Nat.sub_self]
  · rw [putBytes_outside _ (by omega), putBytes_inside _ (by omega) (by omega),
      Nat.add_sub_cancel_left, List.getD_append _ _ _ _ (by omega)]

/-- Directory entries other than the one at the place are as before, and its name and its
attributes are those given. -/
structure Made (fs : Fat32Fs) (d after : Disk) (xs : List Nat) (place : Nat × Nat)
    (name83 : List UInt8) (attr : UInt8) : Prop where
  steady : after.Steady
  chain : after.HasChain fs xs
  kept : ∀ other ∈ fs.places xs, other ≠ place → ∀ k < 32,
    (after.view fs).entryAt other k = (d.view fs).entryAt other k
  name : ∀ k < 12, (after.view fs).entryAt place k = (name83 ++ [attr]).getD k 0

theorem writeEntry_made (sound : fs.Sound) (reliable : d.Reliable) (chain : d.HasChain fs xs)
    (member : current ∈ xs) (inside : i < fs.entriesPerCluster) (length : name83.length = 11) :
    Made fs d (fat32WriteCluster fs (d.withMemory memory) current
      (newEntry ((d.view fs).data current) name83 attr i new)).2 xs (current, i) name83 attr := by
  obtain ⟨after, wrote, longer, view⟩ := writeCluster_chain sound reliable chain member
    (newEntry ((d.view fs).data current) name83 attr i new)
  rw [withMemory_writeCluster, wrote]
  have data : ∀ other p, p < fs.clusterSize → ((after.withMemory memory).view fs).data other p =
      if other = current then newEntry ((d.view fs).data current) name83 attr i new p
      else (d.view fs).data other p := by
    intro other p below
    change (after.view fs).data other p = _
    rw [view, FatView.setData]
    by_cases own : other = current
    · rw [if_pos own, own]
      exact (congrFun (Function.update_self ..) p).trans (if_pos below)
    · rw [if_neg own]
      exact congrFun (Function.update_of_ne own ..) p
  refine ⟨longer.reliable.transfers, ?_, ?_, ?_⟩
  · have kept := longer.chain
    rw [List.append_nil] at kept
    exact hasChain_withMemory.mpr kept
  · rintro ⟨other, j⟩ isPlace apart k small
    have below := entryBound (mem_places.mp isPlace).2 small
    change ((after.withMemory memory).view fs).data other (32 * j + k) =
      (d.view fs).data other (32 * j + k)
    rw [data _ _ below]
    by_cases own : other = current
    · have different : j ≠ i := fun same => apart (by rw [own, same])
      rw [if_pos own, newEntry_outside length (by omega), own]
    · rw [if_neg own]
  · intro k small
    change ((after.withMemory memory).view fs).data current (32 * i + k) = _
    rw [data _ _ (entryBound inside (by omega)), if_pos rfl, newEntry_name length small]

/-- A new directory gets a cluster of its own first. -/
theorem createAt_made (sound : fs.Sound) (reliable : d.Reliable) (chain : d.HasChain fs xs)
    (member : current ∈ xs) (inside : i < fs.entriesPerCluster) (length : name83.length = 11)
    {out : Nat} (result : createAt fs name83 attr (d.withMemory memory) current
      ((d.view fs).data current) i = (0, out, after)) :
    Made fs d after xs (current, i) name83 attr := by
  have moved : ∀ {grown : Disk} {memory : Nat → Bool} {cluster : Nat}, grown.Reliable →
      grown.HasChain fs xs → (∀ other ∈ xs, (grown.view fs).data other = (d.view fs).data other) →
      Made fs d (fat32WriteCluster fs (grown.withMemory memory) current
        (newEntry ((d.view fs).data current) name83 attr i cluster)).2 xs (current, i) name83
        attr := by
    intro grown memory cluster reliable chain same
    rw [← same current member]
    have made := @writeEntry_made fs grown xs current i memory name83 attr cluster sound reliable
      chain member inside length
    refine { made with kept := fun other isPlace apart k small => ?_ }
    rw [made.kept other isPlace apart k small]
    exact congrFun (same other.1 (mem_places.mp isPlace).1) _
  unfold createAt at result
  dsimp only at result
  split at result
  · rw [withMemory_allocCluster] at result
    rcases allocCluster_chain sound reliable with
      ⟨full, _⟩ | ⟨new, grown, allocated, nonzero, longer, sameData⟩
    · rw [full] at result
      cases result
    · rw [allocated] at result
      dsimp only at result
      rw [if_neg nonzero, kmalloc_eq, withMemory_granted] at result
      have kept := (longer.other chain (List.disjoint_nil_right xs) 0).1
      cases granted : (grown.withMemory memory).memory 0 with
      | false =>
          rw [granted] at result
          cases result
          exact moved longer.reliable kept fun other _ => congrFun sameData other
      | true =>
          have apart := longer.apart chain (List.disjoint_nil_right xs)
          obtain ⟨zeroed, isZeroed, filled, view⟩ := writeCluster_chain sound longer.reliable
            longer.chain (List.mem_singleton_self new) (fun _ => 0)
          rw [granted] at result
          dsimp only at result
          rw [withMemory_writeCluster, isZeroed] at result
          cases result
          refine moved filled.reliable (filled.other kept apart 0).1 fun other inChain => ?_
          rw [filled.data other fun isNew => apart inChain (by simpa using isNew), sameData]
  · cases result
    exact moved reliable chain fun _ _ => rfl

end Entry

section Create

variable {name83 : List UInt8} {attr : UInt8} {out : Nat} {grown : Disk}

/-- A new entry can have the place: it is free or deleted. -/
def FatView.IsFree (w : FatView) (place : Nat × Nat) : Prop :=
  w.entryAt place 0 = 0 ∨ w.entryAt place 0 = 0xE5

instance (w : FatView) (place : Nat × Nat) : Decidable (w.IsFree place) :=
  inferInstanceAs (Decidable (_ ∨ _))

/-- The first free place of the directory, with those in front of it and behind it. -/
structure FatView.Slot (w : FatView) (fs : Fat32Fs) (xs : List Nat) (front : List (Nat × Nat))
    (place : Nat × Nat) (behind : List (Nat × Nat)) : Prop where
  split : fs.places xs = front ++ place :: behind
  passed : ∀ other ∈ front, ¬ w.IsFree other
  free : w.IsFree place

/-- The directory may go on with clusters of zeros, if it had no free place. -/
structure Lengthened (fs : Fat32Fs) (d grown : Disk) (xs ys : List Nat) : Prop where
  same : ∀ cluster ∈ xs, (grown.view fs).data cluster = (d.view fs).data cluster
  zero : ∀ cluster ∈ ys, ∀ p, (grown.view fs).data cluster p = 0
  full : ys = [] ∨ ∀ place ∈ fs.places xs, ¬ (d.view fs).IsFree place

theorem Fat32Fs.Sound.entries_pos (sound : fs.Sound) : 0 < fs.entriesPerCluster := by
  have sectors := sound.sectorsPerCluster
  unfold Fat32Fs.entriesPerCluster Fat32Fs.clusterSize
  omega

theorem freeEntry_none (none : freeEntry fs ((d.view fs).data current) = none) :
    ∀ i < fs.entriesPerCluster, ¬ (d.view fs).IsFree (current, i) := by
  intro i inside free
  rw [freeEntry, List.find?_eq_none] at none
  apply none i (List.mem_range.mpr inside)
  rw [Bool.or_eq_true, decide_eq_true_iff, decide_eq_true_iff]
  exact free

theorem freeEntry_some (found : freeEntry fs ((d.view fs).data current) = some i)
    (passed : ∀ place ∈ fs.places before, ¬ (d.view fs).IsFree place) :
    i < fs.entriesPerCluster ∧ ∃ front behind,
      (d.view fs).Slot fs (before ++ current :: rest) front (current, i) behind := by
  have inside := List.mem_range.mp (List.mem_of_find?_eq_some found)
  rw [freeEntry, List.find?_eq_some_iff_append] at found
  obtain ⟨free, earlier, later, split, busy⟩ := found
  rw [Bool.or_eq_true, decide_eq_true_iff, decide_eq_true_iff] at free
  refine ⟨inside, fs.places before ++ earlier.map (current, ·),
    later.map (current, ·) ++ fs.places rest, ?_, ?_, free⟩
  · rw [places_append, places_cons, split, List.map_append, List.map_cons]
    simp only [List.append_assoc, List.cons_append]
  · intro other member
    rcases List.mem_append.mp member with early | here
    · exact passed other early
    · obtain ⟨j, isEarlier, rfl⟩ := List.mem_map.mp here
      have notFree := busy j isEarlier
      rw [Bool.not_eq_true', Bool.or_eq_false_iff, decide_eq_false_iff_not,
        decide_eq_false_iff_not] at notFree
      exact fun free => free.elim notFree.1 notFree.2

theorem createFrom_made (before : List Nat) (sound : fs.Sound) (reliable : d.Reliable)
    (chain : d.HasChain fs (before ++ current :: rest))
    (passed : ∀ place ∈ fs.places before, ¬ (d.view fs).IsFree place)
    (length : name83.length = 11) (fuel : Nat)
    (result : createFrom fs name83 attr fuel (d.withMemory memory) current = some (0, out, after)) :
    ∃ grown ys front place behind, Lengthened fs d grown (before ++ current :: rest) ys ∧
      (grown.view fs).Slot fs (before ++ current :: rest ++ ys) front place behind ∧
      Made fs grown after (before ++ current :: rest ++ ys) place name83 attr := by
  induction fuel generalizing d before current rest with
  | zero => cases result
  | succ fuel ih =>
      have has := chain.mem.1
      have steady : (d.withMemory memory).Steady := reliable.steady
      have chained : (d.withMemory memory).HasChain fs (before ++ current :: rest) :=
        hasChain_withMemory.mpr chain
      rw [createFrom, if_neg (has.below sound), readCluster_chain sound steady chained] at result
      dsimp only at result
      have same : ((d.withMemory memory).view fs).data current = (d.view fs).data current := rfl
      rw [same] at result
      cases slot : freeEntry fs ((d.view fs).data current) with
      | some i =>
          rw [slot] at result
          obtain ⟨inside, front, behind, isSlot⟩ := freeEntry_some slot passed
          have made := createAt_made sound reliable chain (by simp) inside length
            (Option.some.inj result)
          refine ⟨d, [], front, (current, i), behind, ⟨fun _ _ => rfl, ?_, .inl rfl⟩, ?_, ?_⟩
          · exact fun cluster none => absurd none (List.not_mem_nil)
          · rw [List.append_nil]
            exact isSlot
          · rw [List.append_nil]
            exact made
      | none =>
          rw [slot] at result
          have busy : ∀ place ∈ fs.places (before ++ [current]), ¬ (d.view fs).IsFree place := by
            intro place member
            rw [places_append, List.mem_append] at member
            rcases member with early | here
            · exact passed place early
            · obtain ⟨isCurrent, inside⟩ := mem_places.mp here
              obtain ⟨cluster, j⟩ := place
              obtain rfl := List.mem_singleton.mp isCurrent
              exact freeEntry_none slot j inside
          dsimp only at result
          rw [nextCluster_steady before sound steady chained] at result
          cases rest with
          | cons next later =>
              have regroup : before ++ current :: next :: later =
                  (before ++ [current]) ++ next :: later := by simp
              have nonzero : next ≠ 0 := by
                have lower := (chain.taken next (by simp)).1.1
                omega
              rw [List.head?_cons, Option.getD_some] at result
              dsimp only at result
              rw [if_neg nonzero] at result
              rw [regroup] at chain ⊢
              exact ih _ reliable chain busy result
          | nil =>
              rw [List.head?_nil, Option.getD_none] at result
              dsimp only at result
              rw [if_pos rfl, withMemory_allocCluster] at result
              rcases allocCluster_chain sound reliable with
                ⟨full, _⟩ | ⟨new, allocated, isNew, nonzero, alloc, sameData⟩
              · rw [full] at result
                cases result
              · obtain ⟨linked, isLinked, longer, sameLinked⟩ := setCluster_chain sound chain alloc
                have last : new ∈ (before ++ [current]) ++ [new] := by simp
                obtain ⟨zeroed, isZeroed, filled, view⟩ :=
                  writeCluster_chain sound longer.reliable longer.chain last (fun _ => 0)
                rw [isNew] at result
                dsimp only at result
                rw [if_neg nonzero, withMemory_setCluster, isLinked] at result
                dsimp only at result
                rw [withMemory_writeCluster, isZeroed] at result
                have same : ∀ cluster ∈ before ++ [current],
                    (zeroed.view fs).data cluster = (d.view fs).data cluster := by
                  intro cluster member
                  have different : cluster ≠ new := by
                    rintro rfl
                    exact alloc.grown.fresh cluster (List.mem_singleton_self _)
                      (chain.taken cluster member)
                  rw [view, ← sameData, ← sameLinked]
                  exact Function.update_of_ne different ..
                have zero : ∀ p, (zeroed.view fs).data new p = 0 := by
                  intro p
                  rw [view]
                  refine (congrFun (Function.update_self ..) p).trans ?_
                  exact ite_self _
                have chainZeroed := filled.chain
                rw [List.append_nil] at chainZeroed
                obtain ⟨grown, ys, front, place, behind, lengthened, isSlot, made⟩ :=
                  ih (before ++ [current]) filled.reliable chainZeroed (by
                    intro place member
                    have unchanged := same place.1 (mem_places.mp member).1
                    have free := busy place member
                    rw [FatView.IsFree, FatView.entryAt, FatView.dirent, direntAt] at free ⊢
                    rwa [unchanged]) result
                have none : ys = [] := by
                  refine lengthened.full.resolve_right fun full => ?_
                  exact full (new, 0) (mem_places.mpr ⟨by simp, sound.entries_pos⟩) (.inl (zero _))
                subst none
                rw [List.append_nil] at isSlot made
                refine ⟨grown, [new], front, place, behind, ⟨?_, ?_, .inr busy⟩, isSlot, made⟩
                · intro cluster member
                  rw [lengthened.same cluster (List.mem_append_left _ member), same cluster member]
                · intro cluster member p
                  obtain rfl := List.mem_singleton.mp member
                  rw [lengthened.same cluster last, zero]

/-- A call of `fat32_vfs_create` that succeeds has made an entry. -/
theorem vfsCreate_made {name : List UInt8} {type fuel : Nat} {node : FatNode}
    {cache cache' : DirCache} (sound : fs.Sound) (steady : d.Steady) (chain : d.HasChain fs xs)
    (isStart : xs.head?.getD 0 = node.cluster) (length : (fat32NameTo83 name).length = 11)
    (result : fat32VfsCreate fs fuel d cache node name type = some (0, cache', after)) :
    xs ≠ [] ∧ ∃ grown ys front place behind, Lengthened fs d grown xs ys ∧
      (grown.view fs).Slot fs (xs ++ ys) front place behind ∧
      Made fs grown after (xs ++ ys) place (fat32NameTo83 name)
        (if type = vfsDirectory then fat32AttrDirectory else fat32AttrArchive) := by
  rw [fat32VfsCreate] at result
  by_cases plain : node.attr &&& fat32AttrDirectory = 0
  · rw [if_pos plain] at result
    cases result
  rw [if_neg plain] at result
  obtain ⟨⟨found, middle⟩, isFound, made⟩ := Option.bind_eq_some_iff.mp result
  obtain rfl := findEntry_disk steady isFound
  cases found with
  | some entry => cases made
  | none =>
      dsimp only at made
      obtain ⟨⟨code, out, last⟩, isMade, same⟩ := Option.map_eq_some_iff.mp made
      cases same
      rw [fat32CreateEntry, kmalloc_eq] at isMade
      cases granted : d.granted.memory 0 with
      | false =>
          rw [granted] at isMade
          cases isMade
      | true =>
          rw [granted] at isMade
          dsimp only at isMade
          cases xs with
          | nil =>
              have isZero : 0 = node.cluster := isStart
              rw [← isZero] at isMade
              cases fuel <;> cases isMade
          | cons first rest =>
              have isFirst : first = node.cluster := isStart
              rw [← isFirst] at isMade
              obtain ⟨grown, ys, front, place, behind, lengthened, slot, entry⟩ :=
                createFrom_made [] sound steady.reliable (hasChain_withMemory.mpr chain)
                  (fun place none => absurd none (List.not_mem_nil)) length fuel isMade
              exact ⟨List.cons_ne_nil _ _, grown, ys, front, place, behind,
                ⟨lengthened.same, lengthened.zero, lengthened.full⟩, slot, entry⟩

end Create

def emptyRoot : FatNode :=
  { name := [0x66, 0x61, 0x74, 0x33, 0x32], flags := vfsDirectory, length := 0, inode := 2
    parent := none, ptr := none, cluster := 2, fileSize := 0, attr := fat32AttrDirectory
    parentCluster := none }

def emptyCache : DirCache := ⟨none, 0, []⟩

end ZurichOS
