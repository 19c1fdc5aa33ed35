import ZurichOS.FatFile
import ZurichOS.FatPlaces

/-!
The directories of a volume and their entries, from the root on, and what stays of them when a
file grows.
-/

namespace ZurichOS

open ByteBuffer LinkedChains

/-- The entry is in use for a file or a directory. -/
def namesFile (entry : Buffer) : Bool :=
  entry 0 ≠ 0xE5 && direntAttr entry ≠ fat32AttrLfn && direntAttr entry &&& fat32AttrVolumeId = 0

/-- The first cluster of the root directory, or of the entry at a place. -/
def FatView.startOf (w : FatView) (fs : Fat32Fs) : Option (Nat × Nat) → Nat
  | none => fs.rootCluster
  | some place => direntCluster (w.entryAt place)

def FatView.IsDirectory (w : FatView) : Option (Nat × Nat) → Prop
  | none => True
  | some place => direntAttr (w.entryAt place) &&& fat32AttrDirectory ≠ 0

/-- The clusters of the root directory, or of the entry at a place. -/
structure FatView.ChainOf (w : FatView) (fs : Fat32Fs) (owner : Option (Nat × Nat))
    (zs : List Nat) : Prop where
  chained : Chained (w.table fs).next zs
  taken : ∀ cluster ∈ zs, (w.table fs).taken cluster
  isStart : zs.head?.getD 0 = w.startOf fs owner

/-- The root, and the entries that one comes to from there. -/
inductive FatView.Reaches (w : FatView) (fs : Fat32Fs) : Option (Nat × Nat) → Prop where
  | root : w.Reaches fs none
  | entry {owner zs place} : w.Reaches fs owner → w.IsDirectory owner → w.ChainOf fs owner zs →
      place ∈ w.listed fs zs → namesFile (w.entryAt place) = true → w.Reaches fs (some place)

/-- Every cluster in use belongs to the root or to an entry. -/
def FatView.AllEntered (w : FatView) (fs : Fat32Fs) : Prop :=
  ∀ cluster, (w.table fs).taken cluster →
    ∃ owner zs, w.Reaches fs owner ∧ w.ChainOf fs owner zs ∧ cluster ∈ zs

/-- The place is that of a file with the clusters `xs`, which no other entry has; and all entries
have their chains. -/
structure FatView.OwnedBy (w : FatView) (fs : Fat32Fs) (place : Nat × Nat) (xs : List Nat) :
    Prop where
  chains : ∀ owner, w.Reaches fs owner → ∃ zs, w.ChainOf fs owner zs
  reached : w.Reaches fs (some place)
  own : w.ChainOf fs (some place) xs
  plain : ¬ w.IsDirectory (some place)
  apart : ∀ owner zs, w.Reaches fs owner → owner ≠ some place → w.ChainOf fs owner zs →
    zs.Disjoint xs

variable {fs : Fat32Fs} {d after : Disk} {xs ys zs ws : List Nat} {owner : Option (Nat × Nat)}
  {place : Nat × Nat}

theorem FatView.ChainOf.chain (of : (d.view fs).ChainOf fs owner zs) : d.HasChain fs zs :=
  ⟨of.chained, of.taken⟩

theorem FatView.ChainOf.unique {w : FatView} (first : w.ChainOf fs owner zs)
    (second : w.ChainOf fs owner ws) : zs = ws := by
  refine first.chained.unique second.chained ?_
  have start := first.isStart.trans second.isStart.symm
  -- Cluster 0 is in no chain.
  have positive : ∀ {chain : List Nat}, (∀ cluster ∈ chain, (w.table fs).taken cluster) →
      chain.head? ≠ some 0 := by
    intro chain taken first
    have lower : 2 ≤ 0 := (taken 0 (List.mem_of_mem_head? first)).1.1
    omega
  have firstPositive := positive first.taken
  have secondPositive := positive second.taken
  cases firstHead : zs.head? with
  | none =>
      cases secondHead : ws.head? with
      | none => rfl
      | some cluster =>
          rw [firstHead, secondHead] at start
          rw [secondHead, ← show 0 = cluster from start] at secondPositive
          exact absurd rfl secondPositive
  | some cluster =>
      cases secondHead : ws.head? with
      | none =>
          rw [firstHead, secondHead] at start
          rw [firstHead, show cluster = 0 from start] at firstPositive
          exact absurd rfl firstPositive
      | some other =>
          rw [firstHead, secondHead] at start
          rw [show cluster = other from start]

theorem FatView.OwnedBy.directory {w : FatView} (owned : w.OwnedBy fs place xs)
    (reached : w.Reaches fs owner) (directory : w.IsDirectory owner)
    (chain : w.ChainOf fs owner zs) : zs.Disjoint xs := by
  apply owned.apart owner zs reached _ chain
  rintro rfl
  exact owned.plain directory

section Growth

variable (longer : Extends fs d after xs ys) (owned : (d.view fs).OwnedBy fs place xs)

include longer

theorem Extends.entryAt (chain : d.HasChain fs zs) (apart : zs.Disjoint xs)
    {at' : Nat × Nat} (member : at' ∈ fs.places zs) :
    (after.view fs).entryAt at' = (d.view fs).entryAt at' := by
  unfold FatView.entryAt FatView.dirent
  rw [longer.data _ (longer.apart chain apart (mem_places.mp member).1)]

theorem Extends.listed (chain : d.HasChain fs zs) (apart : zs.Disjoint xs) :
    (after.view fs).listed fs zs = (d.view fs).listed fs zs := by
  apply takeWhile_congr
  intro at' member
  rw [longer.entryAt chain apart member]

theorem Extends.chainOf (of : (d.view fs).ChainOf fs owner zs) (apart : zs.Disjoint xs)
    (start : (after.view fs).startOf fs owner = (d.view fs).startOf fs owner) :
    (after.view fs).ChainOf fs owner zs := by
  obtain ⟨chained, taken⟩ := (longer.other of.chain apart 0).1
  exact ⟨chained, taken, of.isStart.trans start.symm⟩

include owned

/-- What the root leads to it leads to still, and the entries there are the same. -/
theorem Extends.reaches (reached : (d.view fs).Reaches fs owner) :
    (after.view fs).Reaches fs owner ∧
      (after.view fs).startOf fs owner = (d.view fs).startOf fs owner ∧
      ((after.view fs).IsDirectory owner ↔ (d.view fs).IsDirectory owner) := by
  induction reached with
  | root => exact ⟨.root, rfl, Iff.rfl⟩
  | @entry owner zs at' reached directory of listed names ih =>
      obtain ⟨still, start, same⟩ := ih
      have apart := owned.directory reached directory of
      have entry := longer.entryAt of.chain apart ((List.takeWhile_prefix _).subset listed)
      refine ⟨.entry still (same.mpr directory) (longer.chainOf of apart start) ?_ ?_, ?_, ?_⟩
      · rw [longer.listed of.chain apart]
        exact listed
      · rw [entry]
        exact names
      · rw [FatView.startOf, FatView.startOf, entry]
      · rw [FatView.IsDirectory, FatView.IsDirectory, entry]

theorem Extends.reached (reached : (after.view fs).Reaches fs owner) :
    (d.view fs).Reaches fs owner := by
  induction reached with
  | root => exact .root
  | @entry owner zs at' _ directory of listed names ih =>
      obtain ⟨_, start, same⟩ := longer.reaches owned ih
      obtain ⟨ws, ofBefore⟩ := owned.chains owner ih
      have apart := owned.directory ih (same.mp directory) ofBefore
      obtain rfl := of.unique (longer.chainOf ofBefore apart start)
      rw [longer.listed ofBefore.chain apart] at listed
      rw [longer.entryAt ofBefore.chain apart ((List.takeWhile_prefix _).subset listed)] at names
      exact .entry ih (same.mp directory) ofBefore listed names

theorem Extends.ownChain
    (start : (xs ++ ys).head?.getD 0 = (d.view fs).startOf fs (some place)) :
    (after.view fs).ChainOf fs (some place) (xs ++ ys) :=
  ⟨longer.grown.chained, longer.grown.taken, start.trans (longer.reaches owned owned.reached).2.1.symm⟩

/-- The new clusters belong to the file exactly if it had some, or there are none. -/
theorem Extends.allEntered_iff (all : (d.view fs).AllEntered fs) :
    (after.view fs).AllEntered fs ↔ xs ≠ [] ∨ ys = [] := by
  constructor
  · intro entered
    by_contra neither
    obtain ⟨empty, some⟩ := not_or.mp neither
    obtain rfl : xs = [] := not_not.mp empty
    obtain ⟨cluster, rest, isFirst⟩ := List.exists_cons_of_ne_nil some
    have member : cluster ∈ [] ++ ys := by
      rw [isFirst]
      exact List.mem_cons_self ..
    obtain ⟨owner, zs, reached, of, inside⟩ := entered cluster (longer.grown.taken cluster member)
    have before := longer.reached owned reached
    obtain ⟨ws, ofBefore⟩ := owned.chains owner before
    have apart : ws.Disjoint [] := List.disjoint_nil_right ws
    obtain rfl := of.unique
      (longer.chainOf ofBefore apart (longer.reaches owned before).2.1)
    exact longer.grown.fresh cluster member (ofBefore.taken cluster inside)
  · intro enough cluster taken
    have start : (xs ++ ys).head?.getD 0 = (d.view fs).startOf fs (some place) := by
      rw [← owned.own.isStart]
      rcases enough with some | none
      · obtain ⟨first, rest, rfl⟩ := List.exists_cons_of_ne_nil some
        rfl
      · rw [none, List.append_nil]
    have own := longer.ownChain owned start
    have still := (longer.reaches owned owned.reached).1
    by_cases inside : cluster ∈ xs ++ ys
    · exact ⟨some place, xs ++ ys, still, own, inside⟩
    · obtain ⟨owner, zs, reached, of, member⟩ :=
        all cluster ((longer.grown.others cluster inside).2.mp taken)
      by_cases isOwn : owner = some place
      · subst isOwn
        obtain rfl := of.unique owned.own
        exact absurd (List.mem_append_left _ member) inside
      · obtain ⟨same, start, -⟩ := longer.reaches owned reached
        exact ⟨owner, zs, same, longer.chainOf of (owned.apart owner zs reached isOwn of) start,
          member⟩

end Growth

end ZurichOS
