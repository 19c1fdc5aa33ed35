import ZurichOS.FatWrite

set_option linter.all false

/-!
Ownership of the clusters of a volume: whatever directories and files are created and
written, their chains stay apart, so freeing one of them frees nothing of the others.
-/

namespace ZurichOS

open ByteBuffer Words LinkedChains

variable {fs : Fat32Fs} {d after : Disk} {xs ys zs before rest : List Nat} {current : Nat}

section Create

theorem writeCluster_table (sound : fs.Sound) (reliable : d.Reliable)
    (has : fs.HasCluster current) (buf : Buffer) :
    ∃ after, fat32WriteCluster fs d current buf = (true, after) ∧ after.Reliable ∧
      after.table fs = d.table fs := by
  obtain ⟨after, result, keeps, view⟩ := writeCluster_view sound reliable has buf
  refine ⟨after, result, keeps, ?_⟩
  rw [Disk.table, view]
  rfl

theorem createAt_chain (name83 : List UInt8) (attr : UInt8) (buf : Buffer) (i : Nat) (sound : fs.Sound) (reliable : d.Reliable)
    (has : fs.HasCluster current) :
    ∃ result out after zs, createAt fs name83 attr d current buf i = (result, out, after) ∧
      after.Reliable ∧ Grown (d.table fs) (after.table fs) [] zs ∧ zs.head?.getD 0 = out ∧
      (attr &&& fat32AttrDirectory = 0 → zs = []) ∧ (result ≠ 0 → zs = []) := by
  have none : Grown (d.table fs) (d.table fs) [] [] := (Extends.refl reliable .nil).grown
  unfold createAt
  dsimp only
  split
  · rename_i isDirectory
    rcases allocCluster_chain sound reliable with
      ⟨full, _⟩ | ⟨new, grown, result, nonzero, longer, _⟩
    · rw [full]
      dsimp only
      rw [if_pos rfl]
      exact ⟨_, _, d, [], rfl, reliable, none, rfl, fun _ => rfl, fun _ => rfl⟩
    · rw [result]
      dsimp only
      rw [if_neg nonzero, longer.reliable.kmalloc]
      have hasNew := longer.chain.head.1
      obtain ⟨zeroed, isZeroed, reliableZeroed, sameZeroed⟩ :=
        writeCluster_table sound longer.reliable hasNew (fun _ => 0)
      dsimp only
      rw [isZeroed]
      obtain ⟨last, written, reliableLast, sameLast⟩ := writeCluster_table sound reliableZeroed has
        (putBytes (putCluster (putBytes (putBytes (putBytes buf (32 * i) (List.replicate 32 0))
          (32 * i) name83) (32 * i + 11) [attr]) i new) (32 * i + 28) (le32 0))
      dsimp only
      rw [written]
      refine ⟨0, new, last, [new], rfl, reliableLast, ?_, rfl, ?_, ?_⟩
      · rw [sameLast, sameZeroed]
        exact longer.grown
      · exact fun plain => absurd plain isDirectory
      · exact fun failed => absurd rfl failed
  · obtain ⟨last, written, reliableLast, sameLast⟩ := writeCluster_table sound reliable has
      (putBytes (putCluster (putBytes (putBytes (putBytes buf (32 * i) (List.replicate 32 0))
        (32 * i) name83) (32 * i + 11) [attr]) i 0) (32 * i + 28) (le32 0))
    rw [written]
    refine ⟨0, 0, last, [], rfl, reliableLast, ?_, rfl, fun _ => rfl, fun _ => rfl⟩
    rw [sameLast]
    exact none

/-- A cluster that was just filled with zeros has a free entry. -/
theorem createFrom_fresh (name83 : List UInt8) (attr : UInt8) (sound : fs.Sound)
    (reliable : d.Reliable) (has : fs.HasCluster current)
    (zero : (d.view fs).data current 0 = 0) (fuel : Nat) :
    ∃ buf, createFrom fs name83 attr (fuel + 1) d current =
      some (createAt fs name83 attr d current buf 0) := by
  obtain ⟨buf, read, loaded⟩ := readCluster_view sound reliable has
  have positive : 0 < fs.entriesPerCluster := by
    have size : fs.clusterSize = fs.sectorsPerCluster * 512 := rfl
    have sectors := sound.sectorsPerCluster
    unfold Fat32Fs.entriesPerCluster
    omega
  obtain ⟨more, isMore⟩ : ∃ more, fs.entriesPerCluster = more + 1 := ⟨_, (Nat.sub_add_cancel positive).symm⟩
  have first : buf 0 = 0 := by rw [loaded 0 sound.clusterSize_pos, zero]
  have found : freeEntry fs buf = some 0 := by
    simp [freeEntry, isMore, List.range_succ_eq_map, first]
  refine ⟨buf, ?_⟩
  rw [createFrom, if_neg (has.below sound), read]
  dsimp only
  rw [found]

/-- `fat32_create_entry` from a cluster of the directory on: the directory may grow, and
then a new directory gets its cluster. -/
theorem createFrom_chain (name83 : List UInt8) (attr : UInt8) (before : List Nat)
    (sound : fs.Sound) (reliable : d.Reliable) (fuel : Nat)
    (chain : d.HasChain fs (before ++ current :: rest)) (enough : rest.length + 2 ≤ fuel) :
    ∃ result out middle after ys zs,
      createFrom fs name83 attr fuel d current = some (result, out, after) ∧
      Extends fs d middle (before ++ current :: rest) ys ∧ after.Reliable ∧
      Grown (middle.table fs) (after.table fs) [] zs ∧ zs.head?.getD 0 = out ∧
      (attr &&& fat32AttrDirectory = 0 → zs = []) ∧ (result ≠ 0 → zs = []) := by
  induction fuel generalizing before current rest with
  | zero => omega
  | succ fuel ih =>
      have has := chain.mem.1
      have stays := Extends.refl reliable chain
      obtain ⟨buf, read, _⟩ := readCluster_view sound reliable has
      rw [createFrom, if_neg (has.below sound), read]
      dsimp only
      cases slot : freeEntry fs buf with
      | some i =>
          obtain ⟨result, out, after, zs, made, rest⟩ :=
            createAt_chain name83 attr buf i sound reliable has
          refine ⟨result, out, d, after, [], zs, ?_, stays, rest⟩
          dsimp only
          rw [made]
      | none =>
          dsimp only
          rw [nextCluster_chain before sound reliable chain]
          cases rest with
          | cons next later =>
              have nonzero : next ≠ 0 := by
                have lower := (chain.taken next (by simp)).1.1
                omega
              rw [List.head?_cons, Option.getD_some]
              dsimp only
              rw [if_neg nonzero]
              simp only [List.length_cons] at enough
              have regroup : before ++ current :: next :: later =
                  (before ++ [current]) ++ next :: later := by simp
              rw [regroup] at chain ⊢
              exact ih _ chain (by omega)
          | nil =>
              rw [List.head?_nil, Option.getD_none]
              dsimp only
              rw [if_pos rfl]
              rcases allocCluster_chain sound reliable with
                ⟨full, _⟩ | ⟨new, grown, allocated, nonzero, alloc, _⟩
              · rw [full]
                dsimp only
                rw [if_pos rfl]
                refine ⟨_, _, d, d, [], [], rfl, stays, reliable, ?_, rfl, fun _ => rfl, fun _ => rfl⟩
                exact (Extends.refl reliable .nil).grown
              · rw [allocated]
                dsimp only
                rw [if_neg nonzero]
                obtain ⟨linked, result, longer, _⟩ := setCluster_chain sound chain alloc
                rw [result]
                have isNew : new ∈ (before ++ [current]) ++ [new] := by simp
                have hasNew := (longer.chain.taken new isNew).1
                obtain ⟨zeroed, isZeroed, filled, view⟩ :=
                  writeCluster_chain sound longer.reliable longer.chain isNew (fun _ => 0)
                dsimp only
                rw [isZeroed]
                have zero : (zeroed.view fs).data new 0 = 0 := by
                  rw [view]
                  simp [FatView.setData, Fat32Fs.clip]
                obtain ⟨more, rfl⟩ : ∃ more, fuel = more + 1 := ⟨fuel - 1, by omega⟩
                obtain ⟨empty, again⟩ := createFrom_fresh name83 attr sound
                  filled.reliable hasNew zero more
                obtain ⟨code, out, after, zs, made, rest⟩ :=
                  createAt_chain name83 attr empty 0 sound
                    filled.reliable hasNew
                refine ⟨code, out, zeroed, after, [new], zs, ?_, longer.trans filled, rest⟩
                dsimp only
                rw [again, made]

end Create

/-- A volume in use: the first clusters of its directories, and the handle of each file. -/
structure FatState where
  disk : Disk
  dirs : List Nat
  files : List FatFile

inductive FatCall where
  | create (dir : Nat) (name : List UInt8) (attr : UInt8)
  | write (file offset : Nat) (data : List UInt8)

/-- A call on one of the directories or files; `none` if a loop over a directory does not
end within one turn for each cluster and two more. -/
def fatStep (fs : Fat32Fs) (s : FatState) : FatCall → Option FatState
  | .create k name attr =>
      match s.dirs[k]? with
      | none => some s
      | some dir =>
          (fat32CreateEntry fs (fs.totalClusters + 2) s.disk dir name attr).map
            fun (result, out, disk) =>
              if result ≠ 0 then { s with disk }
              else if attr &&& fat32AttrDirectory ≠ 0 then { s with disk, dirs := s.dirs ++ [out] }
              else { s with disk, files := s.files ++ [⟨out, 0⟩] }
  | .write k offset data =>
      match s.files[k]? with
      | none => some s
      | some file =>
          let (_, file, disk) := fat32WriteFile fs s.disk file offset data
          some { s with disk, files := s.files.set k file }

inductive FatOwner where
  | dir (k : Nat)
  | file (k : Nat)
deriving DecidableEq

def FatState.start (s : FatState) : FatOwner → Nat
  | .dir k => s.dirs.getD k 0
  | .file k => (s.files[k]?.map FatFile.startCluster).getD 0

/-- Each directory and each file has the chain that begins at its first cluster. -/
structure FatOwned (fs : Fat32Fs) (s : FatState) (chains : FatOwner → List Nat) : Prop where
  reliable : s.disk.Reliable
  owned : Owned (s.disk.table fs) chains
  start : ∀ owner, (chains owner).head?.getD 0 = s.start owner

section Steps

variable {s : FatState} {chains : FatOwner → List Nat}

theorem FatOwned.chain (owned : FatOwned fs s chains) (owner : FatOwner) :
    s.disk.HasChain fs (chains owner) :=
  ⟨owned.owned.chained owner, owned.owned.taken owner⟩

theorem FatOwned.empty (owned : FatOwned fs s chains) {owner : FatOwner}
    (none : s.start owner = 0) : chains owner = [] := by
  rcases chain_of_start (owned.chain owner) (owned.start owner) with ⟨_, empty⟩ | ⟨nonzero, _⟩
  · exact empty
  · exact absurd none nonzero

theorem FatOwned.grow (owned : FatOwned fs s chains) (owner : FatOwner)
    (nonempty : chains owner ≠ []) (longer : Extends fs s.disk after (chains owner) ys) :
    FatOwned fs { s with disk := after }
      (Function.update chains owner (chains owner ++ ys)) := by
  refine ⟨longer.reliable, owned.owned.grow owner longer.grown, fun other => ?_⟩
  by_cases own : other = owner
  · subst own
    rw [Function.update_self, List.head?_append_of_ne_nil _ nonempty]
    exact owned.start other
  · rw [Function.update_of_ne own]
    exact owned.start other

theorem FatOwned.add (owned : FatOwned fs s chains) (owner : FatOwner)
    (vacant : s.start owner = 0) {next : FatState} (reliable : next.disk.Reliable)
    (grown : Grown (s.disk.table fs) (next.disk.table fs) [] zs)
    (start : next.start owner = zs.head?.getD 0)
    (others : ∀ other, other ≠ owner → next.start other = s.start other) :
    FatOwned fs next (Function.update chains owner zs) := by
  have empty := owned.empty vacant
  have all := owned.owned.grow owner (empty ▸ grown)
  rw [empty, List.nil_append] at all
  refine ⟨reliable, all, fun other => ?_⟩
  by_cases own : other = owner
  · subst own
    rw [Function.update_self, start]
  · rw [Function.update_of_ne own, others other own]
    exact owned.start other

theorem getElem?_concat_ne {α : Type} {xs : List α} {k : Nat} (x : α) (apart : k ≠ xs.length) :
    (xs ++ [x])[k]? = xs[k]? := by
  by_cases below : k < xs.length
  · exact List.getElem?_append_left below
  · have longer : (xs ++ [x]).length ≤ k := by
      rw [List.length_append, List.length_singleton]
      omega
    rw [List.getElem?_eq_none longer, List.getElem?_eq_none (Nat.le_of_not_lt below)]

theorem start_newDir (s : FatState) (disk : Disk) (cluster : Nat) :
    let next := { s with disk, dirs := s.dirs ++ [cluster] }
    s.start (.dir s.dirs.length) = 0 ∧ next.start (.dir s.dirs.length) = cluster ∧
      ∀ other, other ≠ .dir s.dirs.length → next.start other = s.start other := by
  refine ⟨by simp [FatState.start], by simp [FatState.start], fun other different => ?_⟩
  cases other with
  | file _ => rfl
  | dir j =>
      have apart : j ≠ s.dirs.length := fun same => different (congrArg _ same)
      simp only [FatState.start, List.getD_eq_getElem?_getD, getElem?_concat_ne _ apart]

theorem start_newFile (s : FatState) (disk : Disk) (file : FatFile) :
    let next := { s with disk, files := s.files ++ [file] }
    s.start (.file s.files.length) = 0 ∧
      next.start (.file s.files.length) = file.startCluster ∧
      ∀ other, other ≠ .file s.files.length → next.start other = s.start other := by
  refine ⟨by simp [FatState.start], by simp [FatState.start], fun other different => ?_⟩
  cases other with
  | dir _ => rfl
  | file j =>
      have apart : j ≠ s.files.length := fun same => different (congrArg _ same)
      simp only [FatState.start, getElem?_concat_ne _ apart]

theorem step_create (sound : fs.Sound) (owned : FatOwned fs s chains) (k : Nat)
    (name : List UInt8) (attr : UInt8) :
    ∃ next chains', fatStep fs s (.create k name attr) = some next ∧
      FatOwned fs next chains' := by
  cases isDir : s.dirs[k]? with
  | none =>
      refine ⟨s, chains, ?_, owned⟩
      simp [fatStep, isDir]
  | some dir =>
      have start : (chains (.dir k)).head?.getD 0 = dir := by
        rw [owned.start]
        simp [FatState.start, isDir]
      have chain := owned.chain (.dir k)
      simp only [fatStep, isDir, fat32CreateEntry, owned.reliable.kmalloc]
      rcases chain_of_start chain start with ⟨isZero, _⟩ | ⟨_, rest, isRest⟩
      · refine ⟨{ s with disk := s.disk }, chains, ?_, owned⟩
        simp [createFrom, isZero]
      · have short := chain.length_le
        rw [isRest, List.length_cons] at short
        obtain ⟨result, out, middle, after, ys, zs, made, longer, reliable, grown, isOut, plain,
          failed⟩ := createFrom_chain (fat32NameTo83 name) attr []
            sound owned.reliable (fs.totalClusters + 2) (isRest ▸ chain) (by omega)
        have ready := owned.grow (.dir k) (by simp [isRest]) (isRest ▸ longer)
        rw [made]
        simp only [Option.map_some]
        by_cases error : result ≠ 0
        · rw [if_pos error]
          rw [failed error] at grown
          refine ⟨_, _, rfl, ready.add (.file s.files.length) ?_ reliable grown ?_ ?_⟩
          · exact (start_newFile s middle ⟨0, 0⟩).1
          · exact (start_newFile s middle ⟨0, 0⟩).1
          · exact fun _ _ => rfl
        · rw [if_neg error]
          by_cases directory : attr &&& fat32AttrDirectory ≠ 0
          · rw [if_pos directory]
            obtain ⟨vacant, isStart, others⟩ := start_newDir s after out
            exact ⟨_, _, rfl, ready.add (.dir s.dirs.length) vacant reliable grown
              (isStart.trans isOut.symm) others⟩
          · rw [if_neg directory]
            rw [not_not] at directory
            rw [plain directory] at grown isOut
            obtain ⟨vacant, isStart, others⟩ := start_newFile s after ⟨out, 0⟩
            exact ⟨_, _, rfl, ready.add (.file s.files.length) vacant reliable grown (isStart.trans isOut.symm) others⟩

theorem step_write (sound : fs.Sound) (owned : FatOwned fs s chains) (k offset : Nat)
    (data : List UInt8) :
    ∃ next chains', fatStep fs s (.write k offset data) = some next ∧
      FatOwned fs next chains' := by
  cases isFile : s.files[k]? with
  | none =>
      refine ⟨s, chains, ?_, owned⟩
      simp [fatStep, isFile]
  | some file =>
      have bound := (List.getElem?_eq_some_iff.mp isFile).1
      have start : (chains (.file k)).head?.getD 0 = file.startCluster := by
        rw [owned.start]
        simp [FatState.start, isFile]
      simp only [fatStep, isFile]
      by_cases nothing : data.length = 0
      · have same : s.files.set k file = s.files := by
          obtain ⟨_, rfl⟩ := List.getElem?_eq_some_iff.mp isFile
          exact List.set_getElem_self bound
        refine ⟨{ s with disk := s.disk }, chains, ?_, owned⟩
        simp only [fat32WriteFile, if_pos nothing, same]
      · obtain ⟨result, next, after, ys, wrote, spec, _⟩ := writeFile_chain sound owned.reliable
          (owned.chain (.file k)) start offset (Nat.pos_of_ne_zero nothing)
        rw [wrote]
        refine ⟨_, _, rfl, spec.longer.reliable, owned.owned.grow _ spec.longer.grown, fun other => ?_⟩
        by_cases own : other = .file k
        · subst own
          rw [Function.update_self, spec.start]
          simp [FatState.start, bound]
        · rw [Function.update_of_ne own, owned.start]
          cases other with
          | dir _ => rfl
          | file j =>
              have apart : k ≠ j := fun same => own (by rw [same])
              simp [FatState.start, List.getElem?_set_ne apart]

/-- Every run of calls returns, and leaves each directory and file with a chain of its own. -/
theorem run_owned (sound : fs.Sound) (owned : FatOwned fs s chains) (calls : List FatCall) :
    ∃ last chains', calls.foldlM (fatStep fs) s = some last ∧ FatOwned fs last chains' := by
  induction calls generalizing s chains with
  | nil => exact ⟨s, chains, rfl, owned⟩
  | cons call rest ih =>
      have stepped : ∃ next chains', fatStep fs s call = some next ∧ FatOwned fs next chains' := by
        cases call with
        | create k name attr => exact step_create sound owned k name attr
        | write k offset data => exact step_write sound owned k offset data
      obtain ⟨next, chains', result, kept⟩ := stepped
      obtain ⟨last, chains'', run, ends⟩ := ih kept
      refine ⟨last, chains'', ?_, ends⟩
      rw [List.foldlM_cons, result]
      exact run

theorem free_owned (sound : fs.Sound) (owned : FatOwned fs s chains) (owner : FatOwner) :
    ∃ freed, fat32FreeClusterChain fs (fs.totalClusters + 1) s.disk (s.start owner) = some freed ∧
      (∀ cluster, (freed.view fs).entry cluster =
        if cluster ∈ chains owner then 0 else (s.disk.view fs).entry cluster) ∧
      ∀ other, other ≠ owner → freed.HasChain fs (chains other) := by
  have chain := owned.chain owner
  obtain ⟨freed, result, _, view⟩ := freeClusterChain_view sound owned.reliable chain
    (Nat.lt_succ_of_le chain.length_le)
  rw [owned.start owner] at result
  have entries : ∀ cluster, (freed.view fs).entry cluster =
      if cluster ∈ chains owner then 0 else (s.disk.view fs).entry cluster := by
    intro cluster
    rw [view]
    rfl
  refine ⟨freed, result, entries, fun other different => ?_⟩
  have kept := @Owned.free _ _ _ _ (freed.table fs) _ owned.owned owner fun cluster outside => by
    have same := (entries cluster).trans (if_neg outside)
    simp [Disk.table, FatView.table, FatView.next, same]
  have chained := kept.chained other
  have taken := kept.taken other
  rw [Function.update_of_ne different] at chained taken
  exact ⟨chained, taken⟩

/-- Whatever is created and written, the clusters of the directories and files stay
allocated clusters of the volume in chains without cycles and without common clusters, and
freeing one chain clears its entries only. -/
theorem fat_clusters_owned (sound : fs.Sound) (owned : FatOwned fs s chains)
    (calls : List FatCall) :
    ∃ (last : FatState) (chains : FatOwner → List Nat),
      calls.foldlM (fatStep fs) s = some last ∧
      (∀ owner, (chains owner).head?.getD 0 = last.start owner ∧ (chains owner).Nodup ∧
        Chained (last.disk.table fs).next (chains owner) ∧
        ∀ cluster ∈ chains owner, 2 ≤ cluster ∧ cluster < fs.totalClusters + 2 ∧
          (last.disk.view fs).entry cluster ≠ 0) ∧
      (∀ owner other, owner ≠ other → (chains owner).Disjoint (chains other)) ∧
      ∀ owner, ∃ freed,
        fat32FreeClusterChain fs (fs.totalClusters + 1) last.disk (last.start owner) = some freed ∧
        (∀ cluster, (freed.view fs).entry cluster =
          if cluster ∈ chains owner then 0 else (last.disk.view fs).entry cluster) ∧
        ∀ other, other ≠ owner → freed.HasChain fs (chains other) := by
  obtain ⟨last, chains', run, kept⟩ := run_owned sound owned calls
  refine ⟨last, chains', run, fun owner => ?_, fun owner other different => ?_, free_owned sound kept⟩
  · have chain := kept.chain owner
    refine ⟨kept.start owner, chain.chained.nodup, chain.chained, fun cluster member => ?_⟩
    have taken := chain.taken cluster member
    exact ⟨taken.1.1, taken.1.2, taken.2⟩
  · intro cluster member inside
    exact kept.owned.apart owner other different cluster member inside

end Steps

theorem emptyVolume_owned : FatOwned emptyVolume ⟨emptyDisk, [2], []⟩
    fun owner => if owner = .dir 0 then [2] else [] := by
  refine ⟨emptyDisk_reliable, ⟨fun owner => ?_, fun owner => ?_, fun owner other different => ?_⟩,
    fun owner => ?_⟩
  · split
    · exact emptyDisk_root.chained
    · trivial
  · split
    · exact emptyDisk_root.taken
    · exact Disk.HasChain.nil.taken
  · intro cluster member inside
    split at member
    · rename_i isRoot
      rw [if_neg fun also => different (isRoot.trans also.symm)] at inside
      cases inside
    · cases member
  · split
    · rename_i isRoot
      rw [isRoot]
      rfl
    · rename_i notRoot
      cases owner with
      | file k => rfl
      | dir k =>
          cases k with
          | zero => exact absurd rfl notRoot
          | succ k => rfl

theorem fat_clusters_owned_tree :
    ∃ (last : FatState) (chains : FatOwner → List Nat),
      [FatCall.create 0 [0x41] fat32AttrDirectory, .create 1 [0x42] fat32AttrArchive,
        .write 0 0 [1, 2, 3]].foldlM (fatStep emptyVolume) ⟨emptyDisk, [2], []⟩ = some last ∧
      ∀ owner other, owner ≠ other → (chains owner).Disjoint (chains other) := by
  obtain ⟨last, chains, run, _, apart, _⟩ := fat_clusters_owned emptyVolume_sound emptyVolume_owned
    [.create 0 [0x41] fat32AttrDirectory, .create 1 [0x42] fat32AttrArchive, .write 0 0 [1, 2, 3]]
  exact ⟨last, chains, run, apart⟩

end ZurichOS
