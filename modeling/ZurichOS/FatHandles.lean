import ZurichOS.FatDirectory
import ZurichOS.FatFile
import ZurichOS.PartialTable

set_option linter.all false

/-!
Several nodes for one file of a FAT32 volume.  Each keeps its own first cluster and size,
and writes them into the directory.
-/

namespace ZurichOS

open ByteBuffer Words LinkedChains FileContents

variable {fs : Fat32Fs} {d after : Disk} {xs ys avoid avoid' : List Nat} {node last : FatNode}
  {names : List (List UInt8)} {bytes : List UInt8}

/-- The names lead from one directory to another, through directories that have none of the
clusters `avoid`. -/
def Disk.Leads (d : Disk) (fs : Fat32Fs) (avoid : List Nat) :
    FatNode → List (List UInt8) → FatNode → Prop
  | node, [], last => node = last
  | node, name :: rest, last => ∃ xs c i, d.HasChain fs xs ∧ xs.head?.getD 0 = node.cluster ∧
      node.attr &&& fat32AttrDirectory ≠ 0 ∧ xs.Disjoint avoid ∧
      (d.view fs).findIn fs (findsEntry name) xs = some (c, i) ∧
      d.Leads fs avoid (direntNode ((d.view fs).dirent c i) node.cluster) rest last

section Paths

theorem leads_lookup (sound : fs.Sound) (reliable : d.Reliable)
    (leads : d.Leads fs avoid node names last) {fuel : Nat} (enough : fs.totalClusters ≤ fuel)
    (rest : List (List UInt8)) :
    fatLookup fs fuel d node (names ++ rest) = fatLookup fs fuel d last rest := by
  induction names generalizing node with
  | nil =>
      have same : node = last := leads
      rw [same]
      rfl
  | cons name later ih =>
      obtain ⟨xs, c, i, chain, start, directory, _, found, further⟩ := leads
      rw [List.cons_append, fatLookup,
        finddir_found sound reliable directory chain start found enough]
      exact ih further

theorem leads_frame (leads : d.Leads fs avoid node names last)
    (keeps : ∀ xs, d.HasChain fs xs → xs.Disjoint avoid → after.HasChain fs xs ∧
      xs.Disjoint avoid' ∧ ∀ cluster ∈ xs, (after.view fs).data cluster = (d.view fs).data cluster) :
    after.Leads fs avoid' node names last := by
  induction names generalizing node with
  | nil => exact leads
  | cons name later ih =>
      obtain ⟨xs, c, i, chain, start, directory, apart, found, further⟩ := leads
      obtain ⟨chainAfter, apartAfter, same⟩ := keeps xs chain apart
      refine ⟨xs, c, i, chainAfter, start, directory, apartAfter, ?_, ?_⟩
      · rw [← found]
        apply findIn_congr (findsEntry_nameOnly name)
        intro cluster member j _ k _
        rw [same cluster member]
      · have entry : (after.view fs).dirent c i = (d.view fs).dirent c i := by
          rw [FatView.dirent, FatView.dirent, same c (findIn_mem found).1]
        rw [entry]
        exact ih further

/-- The file grows, its directory is written, and the way to the directory stays. -/
theorem leads_extends {middle : Disk} {dir : List Nat} (longer : Extends fs d middle xs ys)
    (written : Extends fs middle after dir []) (leads : d.Leads fs (dir ++ xs) node names last) :
    after.Leads fs (dir ++ (xs ++ ys)) node names last := by
  apply leads_frame leads
  intro ws chain apart
  have apartDir : ws.Disjoint dir := fun _ inWs inDir => apart inWs (List.mem_append_left _ inDir)
  have apartFile : ws.Disjoint xs := fun _ inWs inFile => apart inWs (List.mem_append_right _ inFile)
  have beyond := longer.apart chain apartFile
  have chainMiddle := (longer.other chain apartFile 0).1
  refine ⟨(written.other chainMiddle apartDir 0).1, ?_, ?_⟩
  · intro cluster inWs among
    rcases List.mem_append.mp among with inDir | inFile
    · exact apartDir inWs inDir
    · exact beyond inWs inFile
  · intro cluster inWs
    rw [written.data cluster (by rw [List.append_nil]; exact apartDir inWs),
      longer.data cluster (beyond inWs)]

end Paths

/-- A path of a volume, with the directory it ends in and the place of its entry there. -/
structure FatPlace where
  top : FatNode
  parents : List (List UInt8)
  dir : FatNode
  name : List UInt8
  clusters : List Nat
  cluster : Nat
  index : Nat

def FatPlace.path (place : FatPlace) : List (List UInt8) := place.parents ++ [place.name]

def FatPlace.entry (place : FatPlace) (fs : Fat32Fs) (d : Disk) : Buffer :=
  (d.view fs).dirent place.cluster place.index

def FatPlace.lookup (place : FatPlace) (fs : Fat32Fs) (d : Disk) : FatNode :=
  direntNode (place.entry fs d) place.dir.cluster

/-- The path names a file with the clusters `xs` that holds these bytes, and its entry is
also the one that `fat32_update_entry_size` comes to under the name in the node. -/
structure FatPlace.Holds (place : FatPlace) (fs : Fat32Fs) (d : Disk) (xs : List Nat)
    (bytes : List UInt8) : Prop where
  reliable : d.Reliable
  leads : d.Leads fs (place.clusters ++ xs) place.top place.parents place.dir
  directory : place.dir.attr &&& fat32AttrDirectory ≠ 0
  dirChain : d.HasChain fs place.clusters
  dirStart : place.clusters.head?.getD 0 = place.dir.cluster
  chain : d.HasChain fs xs
  apart : place.clusters.Disjoint xs
  finds : (d.view fs).findIn fs (findsEntry place.name) place.clusters =
    some (place.cluster, place.index)
  updates : (d.view fs).findIn fs (updatesEntry (fat32NameTo83 (place.lookup fs d).name))
    place.clusters = some (place.cluster, place.index)
  file : (place.lookup fs d).attr &&& fat32AttrDirectory = 0
  start : xs.head?.getD 0 = (place.lookup fs d).cluster
  covers : (place.lookup fs d).fileSize ≤ xs.length * fs.clusterSize
  bytes : d.fileBytes fs xs (place.lookup fs d).fileSize = bytes

/-- A node from an earlier lookup of the path. -/
structure FatPlace.Handle (place : FatPlace) (fs : Fat32Fs) (d : Disk) (node : FatNode) : Prop where
  name : node.name = (place.lookup fs d).name
  attr : node.attr = (place.lookup fs d).attr
  parent : node.parentCluster = some place.dir.cluster
  size : node.fileSize ≤ (place.lookup fs d).fileSize

variable {place : FatPlace}

section Lookups

variable {fuel : Nat}

theorem holds_lookup (sound : fs.Sound) (holds : place.Holds fs d xs bytes)
    (enough : fs.totalClusters ≤ fuel) :
    fatLookup fs fuel d place.top place.path = some (some (place.lookup fs d), d) := by
  rw [FatPlace.path, leads_lookup sound holds.reliable holds.leads enough, fatLookup,
    finddir_found sound holds.reliable holds.directory holds.dirChain holds.dirStart holds.finds
      enough]
  rfl

theorem holds_length (holds : place.Holds fs d xs bytes) :
    (place.lookup fs d).fileSize = bytes.length := by
  rw [← holds.bytes, Disk.fileBytes, length_image, Nat.min_eq_left holds.covers]

theorem holds_read (sound : fs.Sound) (holds : place.Holds fs d xs bytes) {offset size : Nat}
    (small : offset + size < 2147483648) :
    fat32VfsRead fs d (place.lookup fs d) offset size =
      (((readAt bytes offset size).length : Int), readAt bytes offset size, d) := by
  have start : xs.head?.getD 0 =
      (⟨(place.lookup fs d).cluster, (place.lookup fs d).fileSize⟩ : FatFile).startCluster := holds.start
  rw [fat32VfsRead, if_neg (not_not.mpr holds.file),
    readFile_chain sound holds.reliable holds.chain start (by omega), holds.bytes]
  dsimp only
  rw [int32_eq_of_lt]
  rw [length_readAt]
  omega

end Lookups

section Writes

variable {offset fuel : Nat} {data : List UInt8} {node' : FatNode}

/-- A write that succeeds leaves the directory alone until it updates the entry. -/
theorem vfsWrite_cases (sound : fs.Sound) (holds : place.Holds fs d xs bytes)
    (handle : place.Handle fs d node) (isStart : node.cluster = (place.lookup fs d).cluster)
    (nonempty : 0 < data.length) (small : data.length < 2147483648)
    (wrote : fat32VfsWrite fs fuel d node offset data =
      some ((data.length : Int), node', after)) :
    ∃ middle ys, ∃ next : FatFile, Extends fs d middle xs ys ∧ (xs ++ ys).head?.getD 0 = next.startCluster ∧
      next.fileSize = max node.fileSize (u32 (offset + data.length)) ∧
      Wrote fs d middle xs ys offset data 0 data.length ∧
      (node'.name = node.name ∧ node'.attr = node.attr ∧
        node'.parentCluster = some place.dir.cluster ∧ node'.fileSize = next.fileSize) ∧
      ∃ code, fat32UpdateEntrySize fs fuel middle place.dir.cluster node.name next.fileSize
        next.startCluster = some (code, after) := by
  have start : xs.head?.getD 0 = (⟨node.cluster, node.fileSize⟩ : FatFile).startCluster :=
    holds.start.trans isStart.symm
  have file : ¬ node.attr &&& fat32AttrDirectory ≠ 0 := by
    rw [handle.attr]
    exact not_not.mpr holds.file
  obtain ⟨result, next, middle, ys, written, spec, _⟩ :=
    writeFile_chain sound holds.reliable holds.chain start offset nonempty
  rw [fat32VfsWrite, if_neg file, written] at wrote
  dsimp only at wrote
  by_cases positive : 0 < result
  · rw [if_pos positive, handle.parent] at wrote
    dsimp only at wrote
    obtain ⟨⟨code, disk⟩, updated, same⟩ := Option.map_eq_some_iff.mp wrote
    obtain ⟨isResult, isNode, isDisk⟩ : result = data.length ∧ _ = node' ∧ disk = after := by
      simpa only [Prod.mk.injEq] using same
    subst isDisk isNode
    rcases spec.outcome with ⟨_, isSize, all⟩ | ⟨_, _, _, failed⟩
    · exact ⟨middle, ys, next, spec.longer, spec.start, isSize, all, ⟨rfl, rfl, rfl, rfl⟩, code, updated⟩
    · exact absurd isResult (failed small)
  · rw [if_neg positive] at wrote
    have isResult : result = data.length := by
      simp only [Option.some.injEq, Prod.mk.injEq] at wrote
      exact wrote.1
    omega

def FatPlace.Same (place : FatPlace) (fs : Fat32Fs) (d after : Disk) : Prop :=
  ∀ cluster ∈ place.clusters, ∀ p < fs.clusterSize,
    (cluster ≠ place.cluster ∨ p < 32 * place.index + 12 ∨ 32 * place.index + 32 ≤ p) →
    (after.view fs).data cluster p = (d.view fs).data cluster p

theorem same_findIn (same : place.Same fs d after) {hit : Buffer → Bool} (nameOnly : NameOnly hit) :
    (after.view fs).findIn fs hit place.clusters = (d.view fs).findIn fs hit place.clusters := by
  apply findIn_congr nameOnly
  intro cluster member i inside k small
  apply same cluster member _ (entryBound inside (by omega))
  omega

theorem same_lookup (same : place.Same fs d after) (member : place.cluster ∈ place.clusters)
    (inside : place.index < fs.entriesPerCluster) :
    (place.lookup fs after).name = (place.lookup fs d).name ∧
      (place.lookup fs after).attr = (place.lookup fs d).attr := by
  have bytes : ∀ k < 12, place.entry fs after k = place.entry fs d k := by
    intro k small
    apply same place.cluster member _ (entryBound inside (by omega))
    omega
  constructor
  · change (cString (format83Name (place.entry fs after))).take _ =
      (cString (format83Name (place.entry fs d))).take _
    rw [format83Name_congr fun k small => bytes k (Nat.lt_succ_of_lt small)]
  · exact bytes 11 (by omega)

/-- The entry gets the size and the cluster of the file; the path and the file stay. -/
theorem holds_update (sound : fs.Sound) (holds : place.Holds fs d xs bytes)
    (longer : Extends fs d after xs ys) {size cluster : Nat} {code : Int} {final : Disk}
    {name : List UInt8} (isName : name = (place.lookup fs d).name)
    (enough : fs.totalClusters ≤ fuel) (start : (xs ++ ys).head?.getD 0 = cluster)
    (nonempty : cluster ≠ 0) (smallSize : size < 4294967296)
    (covers : size ≤ (xs ++ ys).length * fs.clusterSize)
    (updated : fat32UpdateEntrySize fs fuel after place.dir.cluster name size cluster =
      some (code, final)) :
    place.Holds fs final (xs ++ ys) (after.fileBytes fs (xs ++ ys) size) ∧
      (place.lookup fs final).name = (place.lookup fs d).name ∧
      (place.lookup fs final).attr = (place.lookup fs d).attr ∧
      (place.lookup fs final).fileSize = size := by
  obtain ⟨member, inside⟩ := findIn_mem holds.finds
  have outside := longer.apart holds.dirChain holds.apart
  have dirChain := (longer.other holds.dirChain holds.apart 0).1
  have sameAfter : ∀ other ∈ place.clusters,
      (after.view fs).data other = (d.view fs).data other :=
    fun other among => longer.data other (outside among)
  have found : (after.view fs).findIn fs (updatesEntry (fat32NameTo83 name)) place.clusters =
      some (place.cluster, place.index) := by
    rw [isName, ← holds.updates]
    apply same_findIn _ (updatesEntry_nameOnly _)
    intro other among p _ _
    rw [sameAfter other among]
  have small := longer.chain.start_lt sound start
  obtain ⟨last, wrote, kept, isSize, isCluster, others⟩ := updateEntry_found sound longer.reliable
    dirChain holds.dirStart found enough nonempty small smallSize
  obtain rfl : last = final := by
    rw [wrote] at updated
    simp only [Option.some.injEq, Prod.mk.injEq] at updated
    exact updated.2
  have same : place.Same fs d last := by
    intro other among p below apart
    rw [others other p below apart, sameAfter other among]
  obtain ⟨sameName, sameAttr⟩ := same_lookup same member inside
  have apartFile : (xs ++ ys).Disjoint place.clusters := fun _ inFile inDir => outside inDir inFile
  obtain ⟨chain, sameBytes⟩ := kept.other longer.chain apartFile size
  have keptChain := kept.chain
  rw [List.append_nil] at keptChain
  refine ⟨⟨kept.reliable, ?_, holds.directory, keptChain, holds.dirStart, chain, outside, ?_, ?_, ?_,
    ?_, ?_, ?_⟩, sameName, sameAttr, isSize⟩
  · exact leads_extends longer kept holds.leads
  · rw [same_findIn same (findsEntry_nameOnly _), holds.finds]
  · rw [sameName, same_findIn same (updatesEntry_nameOnly _), holds.updates]
  · rw [sameAttr]
    exact holds.file
  · exact start.trans isCluster.symm
  · change direntSize (place.entry fs last) ≤ _
    rw [FatPlace.entry, isSize]
    exact covers
  · change last.fileBytes fs (xs ++ ys) (direntSize (place.entry fs last)) = _
    rw [FatPlace.entry, isSize, sameBytes]

/-- A node is up to date for a write: it has the file's first cluster, and the write ends
behind the end of the file wherever the node has an older size. -/
def UpToDate (node now : FatNode) (offset : Nat) (data : List UInt8) : Prop :=
  offset ≤ now.fileSize ∧ data.length < 2147483648 ∧ offset + data.length < 4294967296 ∧
    (data = [] ∨ node.cluster = now.cluster ∧
      now.fileSize ≤ max node.fileSize (offset + data.length))

theorem holds_write (sound : fs.Sound) (holds : place.Holds fs d xs bytes)
    (handle : place.Handle fs d node) (enough : fs.totalClusters ≤ fuel)
    (upToDate : UpToDate node (place.lookup fs d) offset data)
    (wrote : fat32VfsWrite fs fuel d node offset data =
      some ((data.length : Int), node', after)) :
    ∃ ys, place.Holds fs after (xs ++ ys) (writeAt bytes offset data) ∧
      place.Handle fs after node' ∧
      ∀ other, place.Handle fs d other → place.Handle fs after other := by
  obtain ⟨inside, small, smallEnd, current⟩ := upToDate
  have size := holds_length holds
  by_cases isEmpty : data = []
  · subst isEmpty
    have file : ¬ node.attr &&& fat32AttrDirectory ≠ 0 := by
      rw [handle.attr]
      exact not_not.mpr holds.file
    rw [fat32VfsWrite, if_neg file, fat32WriteFile, if_pos List.length_nil] at wrote
    have unchanged : node = node' ∧ d = after := by
      simpa using wrote
    obtain ⟨rfl, rfl⟩ := unchanged
    refine ⟨[], ?_, handle, fun _ same => same⟩
    rw [List.append_nil, writeAt_nil (by omega)]
    exact holds
  · have nonempty : 0 < data.length := List.length_pos_iff.mpr isEmpty
    obtain ⟨isStart, grows⟩ := current.resolve_left isEmpty
    obtain ⟨middle, ys, next, longer, start, isSize, all, ⟨isName, isAttr, isParent, isNew⟩, code,
      updated⟩ := vfsWrite_cases sound holds handle isStart nonempty small wrote
    have older := handle.size
    rw [u32_eq_of_lt smallEnd] at isSize
    have isMax : next.fileSize = max (place.lookup fs d).fileSize (offset + data.length) := by
      omega
    obtain ⟨covers, contents⟩ := all.contents inside holds.covers
    rw [← isMax] at covers
    rw [← isMax, holds.bytes] at contents
    have smallSize : next.fileSize < 4294967296 := by
      have word : (place.lookup fs d).fileSize < 4294967296 := word32_lt _
      omega
    have nonzero : next.startCluster ≠ 0 := by
      rcases chain_of_start longer.chain start with ⟨_, none⟩ | ⟨nonzero, _⟩
      · have covered := all.covered
        rw [none, List.length_nil, Nat.zero_mul] at covered
        omega
      · exact nonzero
    obtain ⟨held, sameName, sameAttr, newSize⟩ := holds_update sound holds longer handle.name enough
      start nonzero smallSize covers updated
    rw [contents] at held
    refine ⟨ys, held, ⟨?_, ?_, isParent, ?_⟩, fun other old => ⟨?_, ?_, old.parent, ?_⟩⟩
    · rw [isName, sameName, handle.name]
    · rw [isAttr, sameAttr, handle.attr]
    · rw [isNew, newSize]
    · rw [sameName, old.name]
    · rw [sameAttr, old.attr]
    · have bound := old.size
      omega

end Writes

structure FatHandles (ι : Type) where
  disk : Disk
  nodes : ι → Option FatNode

inductive HandleCall (ι : Type) where
  | lookup (user : ι)
  | write (user : ι) (offset : Nat) (data : List UInt8)

section Runs

variable {ι : Type} [DecidableEq ι]

def handleStep (fs : Fat32Fs) (top : FatNode) (path : List (List UInt8)) (s : FatHandles ι) :
    HandleCall ι → Option (Int × FatHandles ι)
  | .lookup user =>
      (fatLookup fs fs.turns s.disk top path).map fun (node, disk) =>
        (0, ⟨disk, Function.update s.nodes user node⟩)
  | .write user offset data =>
      match s.nodes user with
      | none => some (-1, s)
      | some node =>
          (fat32VfsWrite fs fs.turns s.disk node offset data).map fun (result, node, disk) =>
            (result, ⟨disk, Function.update s.nodes user (some node)⟩)

def handleRun (fs : Fat32Fs) (top : FatNode) (path : List (List UInt8)) (s : FatHandles ι) :
    List (HandleCall ι) → Option (List Int × FatHandles ι)
  | [] => some ([], s)
  | call :: rest =>
      match handleStep fs top path s call with
      | none => none
      | some (result, next) =>
          (handleRun fs top path next rest).map fun (results, last) => (result :: results, last)

def HandleCall.success : HandleCall ι → Int
  | .lookup _ => 0
  | .write _ _ data => data.length

def handleApplied (bytes : List UInt8) : List (HandleCall ι) → List UInt8
  | [] => bytes
  | .lookup _ :: rest => handleApplied bytes rest
  | .write _ offset data :: rest => handleApplied (writeAt bytes offset data) rest

/-- The condition on a write: the node is up to date with what a lookup gives now. -/
def CarefulHandle (fs : Fat32Fs) (top : FatNode) (path : List (List UInt8)) (s : FatHandles ι) :
    HandleCall ι → Prop
  | .lookup _ => True
  | .write user offset data => ∀ node now disk, s.nodes user = some node →
      fatLookup fs fs.turns s.disk top path = some (some now, disk) →
      UpToDate node now offset data

/-- A lookup gives a node for the file with these clusters, and every read through it gives
these bytes. -/
def FatReads (fs : Fat32Fs) (d : Disk) (top : FatNode) (path : List (List UInt8)) (xs : List Nat)
    (bytes : List UInt8) : Prop :=
  ∃ node, fatLookup fs fs.turns d top path = some (some node, d) ∧ d.HasChain fs xs ∧
    xs.head?.getD 0 = node.cluster ∧ node.fileSize = bytes.length ∧
    ∀ offset size, offset + size < 2147483648 → fat32VfsRead fs d node offset size =
      (((readAt bytes offset size).length : Int), readAt bytes offset size, d)

theorem holds_reads (sound : fs.Sound) (holds : place.Holds fs d xs bytes) :
    FatReads fs d place.top place.path xs bytes := by
  refine ⟨place.lookup fs d, ?_, holds.chain, holds.start, holds_length holds, ?_⟩
  · exact holds_lookup sound holds (turns_enough fs)
  · intro offset size small
    exact holds_read sound holds small

theorem update_nodes {nodes : ι → Option FatNode} {fits : FatNode → Prop}
    (all : ∀ user node, nodes user = some node → fits node) {new : FatNode} (isNew : fits new)
    (user : ι) : ∀ other node, Function.update nodes user (some new) other = some node →
      fits node := by
  intro other node found
  rcases PartialTable.update_some.mp found with ⟨_, new⟩ | ⟨_, old⟩
  · exact Option.some.inj new ▸ isNew
  · exact all other node old

variable {s next : FatHandles ι} {call : HandleCall ι}

theorem handleStep_holds (sound : fs.Sound) (holds : place.Holds fs s.disk xs bytes)
    (handles : ∀ user node, s.nodes user = some node → place.Handle fs s.disk node)
    (careful : CarefulHandle fs place.top place.path s call)
    (stepped : handleStep fs place.top place.path s call = some (call.success, next)) :
    ∃ ys, place.Holds fs next.disk (xs ++ ys) (handleApplied bytes [call]) ∧
      ∀ user node, next.nodes user = some node → place.Handle fs next.disk node := by
  have found := holds_lookup sound holds (turns_enough fs)
  cases call with
  | lookup user =>
      rw [handleStep, found] at stepped
      have isNext : next = ⟨s.disk, Function.update s.nodes user (some (place.lookup fs s.disk))⟩ := by
        simpa only [Option.map_some, Option.some.injEq, Prod.mk.injEq, HandleCall.success, true_and,
          eq_comm] using stepped
      subst isNext
      refine ⟨[], (List.append_nil xs).symm ▸ holds, ?_⟩
      exact update_nodes handles ⟨rfl, rfl, rfl, Nat.le_refl _⟩ user
  | write user offset data =>
      cases isNode : s.nodes user with
      | none =>
          rw [handleStep, isNode] at stepped
          simp only [Option.some.injEq, Prod.mk.injEq, HandleCall.success] at stepped
          omega
      | some node =>
          rw [handleStep, isNode] at stepped
          obtain ⟨⟨result, node', after⟩, wrote, same⟩ := Option.map_eq_some_iff.mp stepped
          obtain ⟨isResult, isNext⟩ : result = data.length ∧ _ = next := by
            simpa only [Prod.mk.injEq, HandleCall.success] using same
          subst isResult isNext
          obtain ⟨ys, held, handle, others⟩ := holds_write sound holds (handles user node isNode)
            (turns_enough fs) (careful node _ _ isNode found) wrote
          refine ⟨ys, held, ?_⟩
          exact update_nodes (fun other old isOld => others old (handles other old isOld)) handle user

/-- What a run leaves holds the bytes after its writes, in a chain that goes on with the one
before it. -/
theorem handleRun_holds (sound : fs.Sound) (holds : place.Holds fs s.disk xs bytes)
    (handles : ∀ user node, s.nodes user = some node → place.Handle fs s.disk node)
    {calls : List (HandleCall ι)} {final : FatHandles ι}
    (careful : ∀ front call rest results mid, calls = front ++ call :: rest →
      handleRun fs place.top place.path s front = some (results, mid) →
      CarefulHandle fs place.top place.path mid call)
    (run : handleRun fs place.top place.path s calls =
      some (calls.map HandleCall.success, final)) :
    ∃ ys, place.Holds fs final.disk (xs ++ ys) (handleApplied bytes calls) ∧
      ∀ user node, final.nodes user = some node → place.Handle fs final.disk node := by
  induction calls generalizing s xs bytes with
  | nil =>
      simp only [handleRun, List.map_nil, Option.some.injEq, Prod.mk.injEq, true_and] at run
      subst run
      exact ⟨[], (List.append_nil xs).symm ▸ holds, handles⟩
  | cons call rest ih =>
      rw [handleRun] at run
      cases stepped : handleStep fs place.top place.path s call with
      | none =>
          rw [stepped] at run
          cases run
      | some outcome =>
          obtain ⟨result, next⟩ := outcome
          rw [stepped] at run
          obtain ⟨⟨results, last⟩, further, same⟩ := Option.map_eq_some_iff.mp run
          simp only [List.map_cons, Prod.mk.injEq, List.cons.injEq] at same
          obtain ⟨⟨isResult, isResults⟩, isLast⟩ := same
          subst isResult isResults isLast
          obtain ⟨ys, held, heldNodes⟩ := handleStep_holds sound holds handles
            (careful [] call rest [] s rfl rfl) stepped
          obtain ⟨zs, heldLast, lastNodes⟩ := ih held heldNodes (by
            intro front later after results mid split reached
            apply careful (call :: front) later after (call.success :: results) mid
            · rw [split, List.cons_append]
            · rw [handleRun, stepped]
              dsimp only
              rw [reached, Option.map_some]) further
          refine ⟨ys ++ zs, ?_, lastNodes⟩
          rw [← List.append_assoc]
          cases call with
          | lookup user => exact heldLast
          | write user offset data => exact heldLast

theorem handleRun_append {fs : Fat32Fs} {top : FatNode} {path : List (List UInt8)}
    {front rest : List (HandleCall ι)} {results : List Int} {mid : FatHandles ι}
    (first : handleRun fs top path s front = some (results, mid)) :
    handleRun fs top path s (front ++ rest) =
      (handleRun fs top path mid rest).map fun (more, last) => (results ++ more, last) := by
  induction front generalizing s results with
  | nil =>
      simp only [handleRun, Option.some.injEq, Prod.mk.injEq] at first
      obtain ⟨rfl, rfl⟩ := first
      simp
  | cons call later ih =>
      rw [handleRun] at first
      cases stepped : handleStep fs top path s call with
      | none =>
          rw [stepped] at first
          cases first
      | some outcome =>
          obtain ⟨result, next⟩ := outcome
          rw [stepped] at first
          obtain ⟨⟨more, last⟩, reached, same⟩ := Option.map_eq_some_iff.mp first
          simp only [Prod.mk.injEq] at same
          obtain ⟨isResults, isLast⟩ := same
          subst isResults isLast
          rw [List.cons_append, handleRun, stepped]
          dsimp only
          rw [ih reached, Option.map_map]
          rfl

omit [DecidableEq ι] in
theorem handleApplied_append (bytes : List UInt8) (front rest : List (HandleCall ι)) :
    handleApplied bytes (front ++ rest) = handleApplied (handleApplied bytes front) rest := by
  induction front generalizing bytes with
  | nil => rfl
  | cons call later ih =>
      cases call with
      | lookup user => exact ih bytes
      | write user offset data => exact ih (writeAt bytes offset data)

/-- With nodes that are up to date where they write, no update is lost: after each part of a
run of lookups and successful writes, a new lookup reads what the writes give in their order,
and the chain of the file only grows. -/
theorem no_lost_update (sound : fs.Sound) {disk : Disk} (holds : place.Holds fs disk xs bytes)
    (front rest : List (HandleCall ι)) {mid final : FatHandles ι}
    (careful : ∀ before call after results s, front ++ rest = before ++ call :: after →
      handleRun fs place.top place.path ⟨disk, fun _ => none⟩ before = some (results, s) →
      CarefulHandle fs place.top place.path s call)
    (first : handleRun fs place.top place.path ⟨disk, fun _ => none⟩ front =
      some (front.map HandleCall.success, mid))
    (second : handleRun fs place.top place.path mid rest =
      some (rest.map HandleCall.success, final)) :
    ∃ ys zs,
      FatReads fs mid.disk place.top place.path (xs ++ ys) (handleApplied bytes front) ∧
      FatReads fs final.disk place.top place.path (xs ++ ys ++ zs)
        (handleApplied bytes (front ++ rest)) := by
  have noNodes : ∀ (user : ι) (node : FatNode), (none : Option FatNode) = some node →
      place.Handle fs disk node := by
    intro user node found
    cases found
  obtain ⟨ys, heldMid, midNodes⟩ := handleRun_holds sound holds noNodes
    (by
      intro before call after results s split reached
      apply careful before call (after ++ rest) results s
      · rw [split, List.append_assoc, List.cons_append]
      · exact reached) first
  obtain ⟨zs, heldFinal, _⟩ := handleRun_holds sound heldMid midNodes
    (by
      intro before call after results s split reached
      apply careful (front ++ before) call after (front.map HandleCall.success ++ results) s
      · rw [split, List.append_assoc]
      · rw [handleRun_append first, reached, Option.map_some]) second
  rw [handleApplied_append]
  exact ⟨ys, zs, holds_reads sound heldMid, holds_reads sound heldFinal⟩

/-- A volume with the empty file `F` in its root directory. -/
def oneFileDisk : Disk :=
  { emptyDisk with sectors := fun lba =>
      if lba = 2 then putBytes (fun _ => 0) 0 (0x46 :: List.replicate 11 0x20)
      else emptyDisk.sectors lba }

def rootNode : FatNode :=
  { name := [0x66, 0x61, 0x74, 0x33, 0x32], flags := vfsDirectory, length := 0, inode := 2
    parent := none, ptr := none, cluster := 2, fileSize := 0, attr := fat32AttrDirectory
    parentCluster := none }

def pathF : List (List UInt8) := [[0x66]]

/-- Two users look `F` up while it is empty and write in turn: the second write takes a chain
of its own, and the bytes of the first are gone. -/
theorem lost_update :
    let calls : List (HandleCall Bool) :=
      [.lookup false, .lookup true, .write false 0 [1, 1], .write true 0 [2]]
    ((handleRun emptyVolume rootNode pathF ⟨oneFileDisk, fun _ => none⟩ calls).map
        fun (results, s) => (results, (fatLookup emptyVolume emptyVolume.turns s.disk rootNode
          pathF).map fun (node, disk) =>
            node.map fun node => (fat32VfsRead emptyVolume disk node 0 9).2.1)) =
      some (calls.map HandleCall.success, some (some [2])) ∧
    handleApplied [] calls = [2, 1] := by
  refine ⟨?_, ?_⟩
  · decide +kernel
  · rfl

def placeF : FatPlace :=
  { top := rootNode, parents := [], dir := rootNode, name := [0x66], clusters := [2], cluster := 2
    index := 0 }

theorem oneFileDisk_root : oneFileDisk.HasChain emptyVolume [2] := by
  refine ⟨⟨by decide, trivial⟩, fun cluster member => ?_⟩
  obtain rfl := List.mem_singleton.mp member
  exact ⟨by decide, by decide⟩

theorem placeF_holds : placeF.Holds emptyVolume oneFileDisk [] [] := by
  refine ⟨⟨fun _ => rfl, fun _ => rfl⟩, rfl, by decide, oneFileDisk_root, rfl, .nil, ?_, ?_, ?_, ?_,
    ?_, ?_, ?_⟩
  · exact List.disjoint_nil_right _
  · decide
  · decide
  · decide
  · decide
  · decide
  · decide

theorem no_lost_update_one :
    ∃ (mid final : FatHandles Bool) (ys zs : List Nat),
      FatReads emptyVolume mid.disk placeF.top placeF.path ([] ++ ys) [] ∧
      FatReads emptyVolume final.disk placeF.top placeF.path ([] ++ ys ++ zs) [7] := by
  have found := holds_lookup emptyVolume_sound placeF_holds (turns_enough emptyVolume)
  generalize isNode : placeF.lookup emptyVolume oneFileDisk = node at found
  generalize isMid : (⟨oneFileDisk, Function.update (Function.update (fun _ => none) false
    (some node)) true (some node)⟩ : FatHandles Bool) = mid
  have first : handleRun emptyVolume placeF.top placeF.path ⟨oneFileDisk, fun _ => none⟩
      [.lookup false, .lookup true] = some ([0, 0], mid) := by
    simp only [handleRun, handleStep, found, Option.map_some, isMid]
  have results : (handleRun emptyVolume placeF.top placeF.path mid [.write false 0 [7]]).map Prod.fst =
      some [1] := by
    rw [← isMid, ← isNode]
    decide +kernel
  obtain ⟨⟨codes, final⟩, second, isCodes⟩ := Option.map_eq_some_iff.mp results
  obtain rfl : codes = [1] := isCodes
  refine ⟨mid, final, no_lost_update emptyVolume_sound placeF_holds [.lookup false, .lookup true]
    [.write false 0 [7]] ?_ first second⟩
  intro before call after results s split reached
  rcases before with _ | ⟨one, _ | ⟨two, _ | ⟨three, more⟩⟩⟩
  · obtain ⟨rfl, _⟩ : HandleCall.lookup false = call ∧ _ := by simpa using split
    trivial
  · obtain ⟨_, rfl, _⟩ : _ ∧ HandleCall.lookup true = call ∧ _ := by simpa using split
    trivial
  · obtain ⟨rfl, rfl, rfl, _⟩ : HandleCall.lookup false = one ∧ HandleCall.lookup true = two ∧
      HandleCall.write false 0 [7] = call ∧ _ := by simpa using split
    have isState : mid = s := by
      have both := first.symm.trans reached
      simp only [Option.some.injEq, Prod.mk.injEq] at both
      exact both.2
    intro held now disk isHeld isNow
    rw [← isState, ← isMid] at isHeld isNow
    have isOwn : node = held := Option.some.inj isHeld
    have isSame : node = now := by
      have both := found.symm.trans isNow
      simp only [Option.some.injEq, Prod.mk.injEq] at both
      exact both.1
    rw [← isOwn, ← isSame]
    exact ⟨Nat.zero_le _, by decide, by decide, .inr ⟨rfl, Nat.le_max_left ..⟩⟩
  · have length := congrArg List.length split
    simp at length

end Runs

end ZurichOS
