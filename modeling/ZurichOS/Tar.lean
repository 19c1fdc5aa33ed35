import ZurichOS.TarCore

set_option linter.all false

/-!
Both loops over an archive end and read inside of it where no length wraps, and the files that
`create` has packed are extracted again where they are within the limits of the reader.
-/

namespace ZurichOS

open ByteBuffer Words FileContents

namespace Tar

section Walks

/-! Positions in an archive whose entries are as long as their lengths say. -/

def nameLen (data : List UInt8) (p : Nat) : Nat := word32 (buffer data) p

def dataLen (data : List UInt8) (p : Nat) : Nat := word32 (buffer data) (p + 4 + nameLen data p)

def nextEntry (data : List UInt8) (p : Nat) : Nat := p + 8 + nameLen data p + dataLen data p

inductive Met (data : List UInt8) : Nat → Prop
  | first : Met data 4
  | next {p : Nat} : Met data p → p + 8 + nameLen data p ≤ data.length →
      Met data (nextEntry data p)

/-- A length that leads behind the archive does so in the sums of 32 bits as well. -/
structure Clean (data : List UInt8) : Prop where
  name : ∀ p, Met data p → p + 4 ≤ data.length → data.length < p + 8 + nameLen data p →
    data.length < wrap32 (wrap32 (p + 4 + int32 (nameLen data p)) + 4)
  contents : ∀ p, Met data p → p + 8 + nameLen data p ≤ data.length →
    data.length < nextEntry data p + 4 →
    data.length < wrap32 (wrap32 (nextEntry data p) + 4)

variable {data : List UInt8} {p : Nat}

theorem readU32_inside (inside : p + 4 ≤ data.length) :
    readU32 data p = some (word32 (buffer data) p) := by
  rw [readU32, if_pos ⟨by omega, by omega⟩, Int.toNat_natCast]

theorem readBytes_inside {count : Nat} (inside : p + count ≤ data.length) :
    readBytes data p count = some (readAt data p count) := by
  rw [readBytes, if_pos ⟨by omega, by omega⟩, Int.toNat_natCast]

def entryAt (data : List UInt8) (p : Nat) : Entry where
  name := cString (readAt data (p + 4) (min (nameLen data p) (vfsMaxName - 1)))
  dataLen := dataLen data p
  offset := (p + 8 + nameLen data p : Nat)

theorem readEntry_fits (small : data.length ≤ 0x30000000)
    (fits : p + 8 + nameLen data p ≤ data.length) :
    readEntry data p = some (some (entryAt data p)) := by
  have first : readU32 data p = some (nameLen data p) := readU32_inside (by omega)
  have start : wrap32 (p + 4) = (p + 4 : Nat) := wrap32_nat (by omega) (by omega)
  have signed : int32 (nameLen data p) = nameLen data p := int32_eq_of_lt (by omega)
  have behind : wrap32 ((p + 4 : Nat) + nameLen data p) = (p + 4 + nameLen data p : Nat) :=
    wrap32_nat (by omega) (by omega)
  have last : wrap32 ((p + 4 + nameLen data p : Nat) + 4) = (p + 8 + nameLen data p : Nat) :=
    wrap32_nat (by omega) (by omega)
  have name : readBytes data (p + 4 : Nat) (min (nameLen data p) (vfsMaxName - 1)) =
      some (readAt data (p + 4) (min (nameLen data p) (vfsMaxName - 1))) :=
    readBytes_inside (by omega)
  have second : readU32 data (p + 4 + nameLen data p : Nat) = some (dataLen data p) :=
    readU32_inside (by omega)
  rw [readEntry, first, Option.bind_some]
  simp only [start, signed, behind, last]
  rw [if_neg (by omega), name, Option.bind_some, second, Option.map_some, entryAt]

theorem nextEntry_wraps : wrap32 ((entryAt data p).offset + (entryAt data p).dataLen) =
    wrap32 (nextEntry data p) := by
  rw [entryAt, nextEntry]
  congr 1

theorem readEntry_leaves (small : data.length ≤ 0x30000000) (inside : p + 4 ≤ data.length)
    (noticed : data.length < wrap32 (wrap32 (p + 4 + int32 (nameLen data p)) + 4)) :
    readEntry data p = some none := by
  have first : readU32 data p = some (nameLen data p) := readU32_inside inside
  have start : wrap32 ((p : Int) + 4) = p + 4 := wrap32_eq (by omega) (by omega)
  rw [readEntry, first, Option.bind_some]
  simp only [start]
  rw [if_pos noticed]

variable {α : Type} {visit : Entry → α → Option (Option α)}

section Turns

variable {offset : Int} {entry : Entry} {state next : α}

theorem walk_left (behind : data.length < wrap32 (offset + 4)) (fuel : Nat) (state : α) :
    walk data visit (fuel + 1) offset state = .done state := by
  rw [walk, if_neg (by omega)]

theorem walk_unnamed (inside : wrap32 (offset + 4) ≤ data.length)
    (read : readEntry data offset = some none) (fuel : Nat) (state : α) :
    walk data visit (fuel + 1) offset state = .done state := by
  rw [walk, if_pos inside, read]

theorem walk_cut (inside : wrap32 (offset + 4) ≤ data.length)
    (read : readEntry data offset = some (some entry))
    (visited : visit entry state = some none) (fuel : Nat) :
    walk data visit (fuel + 1) offset state = .done state := by
  rw [walk, if_pos inside, read]
  simp only [visited]

theorem walk_turn (inside : wrap32 (offset + 4) ≤ data.length)
    (read : readEntry data offset = some (some entry))
    (visited : visit entry state = some (some next)) (fuel : Nat) :
    walk data visit (fuel + 1) offset state =
      walk data visit fuel (wrap32 (entry.offset + entry.dataLen)) next := by
  rw [walk, if_pos inside, read]
  simp only [visited]

end Turns

/-- Each turn moves on by eight bytes or more. -/
theorem walk_ends (small : data.length ≤ 0x30000000) (clean : Clean data)
    (safe : ∀ p state, p + 8 + nameLen data p ≤ data.length →
      visit (entryAt data p) state ≠ none)
    (fuel : Nat) : ∀ {p : Nat}, Met data p → data.length < p + fuel → p < 2147483644 →
      ∀ state, ∃ result, walk data visit (fuel + 1) p state = .done result := by
  induction fuel with
  | zero =>
      intro p _ behind low state
      have isSum : wrap32 ((p : Int) + 4) = p + 4 := wrap32_eq (by omega) (by omega)
      exact ⟨state, walk_left (by omega) 0 state⟩
  | succ fuel ih =>
      intro p met behind low state
      have isSum : wrap32 ((p : Int) + 4) = p + 4 := wrap32_eq (by omega) (by omega)
      by_cases inside : p + 4 ≤ data.length
      · by_cases fits : p + 8 + nameLen data p ≤ data.length
        · have read := readEntry_fits small fits
          cases visited : visit (entryAt data p) state with
          | none => exact absurd visited (safe p state fits)
          | some after =>
              cases after with
              | none => exact ⟨state, walk_cut (by omega) read visited _⟩
              | some next =>
                  rw [walk_turn (by omega) read visited, nextEntry_wraps]
                  by_cases more : nextEntry data p + 4 ≤ data.length
                  · have onward : p + 8 ≤ nextEntry data p := by
                      rw [nextEntry]
                      omega
                    have position : wrap32 (nextEntry data p) = (nextEntry data p : Nat) :=
                      wrap32_nat rfl (by omega)
                    rw [position]
                    exact ih (met.next fits) (by omega) (by omega) next
                  · have behind := clean.contents p met fits (by omega)
                    exact ⟨next, walk_left behind fuel next⟩
        · have noticed := clean.name p met inside (by omega)
          have unnamed := readEntry_leaves small inside noticed
          exact ⟨state, walk_unnamed (by omega) unnamed _ state⟩
      · exact ⟨state, walk_left (by omega) (fuel + 1) state⟩

theorem ramfsWrite_large {memory : Nat → Bool} {node : RamfsNode} {bytes : List UInt8}
    (large : ramfsMaxFileSize < bytes.length) (word : bytes.length < 4294967296) :
    (ramfsWrite memory node 0 (some bytes)).1 = -1 := by
  rw [ramfsWrite]
  simp only [Nat.zero_add, u32_eq_of_lt word, if_pos large]
  split <;> rfl

theorem put_safe (dir : Directory) {offset len : Nat} (word : len < 4294967296)
    (fits : len ≤ ramfsMaxFileSize → offset + len ≤ data.length) (i : Nat) :
    dir.put data offset len i ≠ none := by
  rw [Directory.put]
  cases dir.children[i]? with
  | none => exact Option.some_ne_none _
  | some child =>
      dsimp only
      split_ifs with mounted empty written
      · exact Option.some_ne_none _
      · exact Option.some_ne_none _
      · exact Option.some_ne_none _
      · by_cases large : ramfsMaxFileSize < len
        · have refused := @ramfsWrite_large dir.memory { child with length := 0 }
            (bytesAt (buffer data) (offset : Int).toNat len) (by rwa [bytesAt_length])
            (by rwa [bytesAt_length])
          exact absurd (.inl (by omega)) written
        · have inside := fits (by omega)
          exact absurd (.inr ⟨by omega, by omega⟩) written

/-- A file whose length leads far behind the archive is too large to be written. -/
theorem extractEntry_safe (small : data.length ≤ 0x30000000) (s : Extraction)
    (fits : p + 8 + nameLen data p ≤ data.length) :
    extractEntry data (entryAt data p) s ≠ none := by
  have word : dataLen data p < 4294967296 := word32_lt _
  rw [extractEntry]
  split_ifs with behind
  · exact Option.some_ne_none _
  · cases found : (s.dir.provide (entryAt data p).name).finddir (entryAt data p).name with
    | none =>
        simp only [found]
        exact Option.some_ne_none _
    | some i =>
        simp only [found]
        intro outside
        refine put_safe _ word (fun writable => ?_) i (Option.map_eq_none_iff.mp outside)
        have bound : dataLen data p ≤ 65536 := writable
        have signed : int32 (dataLen data p) = dataLen data p := int32_eq_of_lt (by omega)
        have sum : wrap32 ((entryAt data p).offset + int32 (entryAt data p).dataLen) =
            (p + 8 + nameLen data p + dataLen data p : Nat) := by
          rw [entryAt]
          dsimp only
          rw [signed]
          exact wrap32_nat (by omega) (by omega)
        omega

theorem openArchive_ok {memory : Bool} {file : VfsFile} {contents : List UInt8}
    (holds : file.Holds contents) (opened : openArchive memory file = .ok data) :
    data = contents ∧ 4 ≤ data.length ∧ data.length + 1 ≤ 0x30000000 := by
  rw [openArchive, holds.readFileContents_eq] at opened
  by_cases missing : contents = [] ∨ kmallocSucceeds memory (contents.length + 1) = false
  · rw [if_pos missing] at opened
    cases opened
  · rw [if_neg missing] at opened
    dsimp only at opened
    rw [List.dropLast_concat] at opened
    have room := kmallocSucceeds_le (Bool.eq_true_of_not_eq_false fun short => missing (.inr short))
    split_ifs at opened with foreign
    cases opened
    exact ⟨rfl, Nat.le_of_not_lt fun short => foreign (.inl short), by omega⟩

variable {archive : VfsFile} {contents : List UInt8}

theorem list_ends (holds : archive.Holds contents) (clean : Clean contents) (memory : Bool) :
    ∃ fuel result, list fuel memory archive = .done result := by
  cases opened : openArchive memory archive with
  | error text => exact ⟨0, .error text, by rw [list, opened]⟩
  | ok data =>
      obtain ⟨rfl, -, room⟩ := openArchive_ok holds opened
      have small : data.length ≤ 0x30000000 := by omega
      obtain ⟨listed, ends⟩ := @walk_ends data Listing
        (fun entry listed => some (some (listed ++ [(entry.name, entry.dataLen)]))) small clean
        (fun _ _ _ => nofun) data.length 4 Met.first (by omega) (by omega) []
      rw [Nat.cast_ofNat] at ends
      exact ⟨data.length + 1, .ok listed, by rw [list, opened]; simp only [ends]⟩

theorem extract_ends (holds : archive.Holds contents) (clean : Clean contents) (memory : Bool)
    (dir : Directory) : ∃ fuel result, extract fuel memory archive dir = .done result := by
  cases opened : openArchive memory archive with
  | error text => exact ⟨0, .error text, by rw [extract, opened]⟩
  | ok data =>
      obtain ⟨rfl, -, room⟩ := openArchive_ok holds opened
      have small : data.length ≤ 0x30000000 := by omega
      obtain ⟨extracted, ends⟩ := walk_ends small clean
        (fun p s fits => extractEntry_safe small s fits) data.length Met.first (by omega)
        (by omega) { dir, extracted := [] }
      rw [Nat.cast_ofNat] at ends
      exact ⟨data.length + 1, .ok extracted, by rw [extract, opened]; simp only [ends]⟩

end Walks


section Records

/-- A file as it is in an archive. -/
def record (file : CString × List UInt8) : List UInt8 :=
  le32 file.1.chars.length ++ file.1.chars ++ le32 file.2.length ++ file.2

def archiveOf (files : List (CString × List UInt8)) : List UInt8 := magic ++ files.flatMap record

theorem record_length (file : CString × List UInt8) :
    (record file).length = 8 + file.1.chars.length + file.2.length := by
  simp only [record, List.length_append, le32_length]
  omega

theorem archiveOf_length_ge (files : List (CString × List UInt8)) :
    4 ≤ (archiveOf files).length := by
  rw [archiveOf, List.length_append]
  exact Nat.le_add_right 4 _

variable (before bytes behind : List UInt8)

theorem buffer_appended {i : Nat} (small : i < bytes.length) :
    buffer (before ++ bytes ++ behind) (before.length + i) =
      putBytes (fun _ => 0) before.length bytes (before.length + i) := by
  rw [putBytes_get _ small, buffer, List.append_assoc,
    List.getD_append_right _ _ _ _ (Nat.le_add_right _ _), Nat.add_sub_cancel_left,
    List.getD_append _ _ _ _ small]

theorem word32_appended (value : Nat) :
    word32 (buffer (before ++ le32 value ++ behind)) before.length = value % 4294967296 := by
  rw [word32_congr fun i small => buffer_appended before (le32 value) behind small, word32_put]

theorem bytesAt_appended :
    bytesAt (buffer (before ++ bytes ++ behind)) before.length bytes.length = bytes := by
  rw [bytesAt_congr fun i small => buffer_appended before bytes behind small, bytesAt_putBytes]

end Records

section Packing

variable {resolvePath : CString → Option VfsFile} {files : List (CString × List UInt8)}
  {packed : List (CString × VfsFile)} {kept : Buffer} {block : Nat}

def Resolves (resolvePath : CString → Option VfsFile) (file : CString × List UInt8) : Prop :=
  ∃ found, resolvePath file.1 = some found ∧ found.Holds file.2

def Packs (packed : CString × VfsFile) (file : CString × List UInt8) : Prop :=
  packed.1 = file.1 ∧ packed.2.Holds file.2

theorem packedFiles_packs (resolves : ∀ file ∈ files, Resolves resolvePath file) :
    List.Forall₂ Packs (packedFiles resolvePath (files.map Prod.fst)) files := by
  induction files with
  | nil => exact .nil
  | cons file rest ih =>
      obtain ⟨found, isFound, holds⟩ := resolves file List.mem_cons_self
      have others := ih fun other member => resolves other (List.mem_cons_of_mem _ member)
      rw [packedFiles, List.map_cons, List.filterMap_cons_some (b := (file.1, found))]
      · exact .cons ⟨rfl, holds⟩ others
      · simp [isFound, holds.isFile]

theorem total_packs (packs : List.Forall₂ Packs packed files) :
    total packed = u32 (archiveOf files).length := by
  have sums : ∀ sum < 4294967296,
      packed.foldl (fun sum file => u32 (sum + (4 + file.1.chars.length + 4 + file.2.length))) sum =
        u32 (sum + (files.flatMap record).length) := by
    induction packs with
    | nil =>
        intro sum word
        exact (u32_eq_of_lt word).symm
    | @cons one file _ rest first _ ih =>
        intro sum _
        rw [List.foldl_cons, ih _ (u32_lt _), List.flatMap_cons, List.length_append, record_length,
          first.1, first.2.length]
        unfold u32
        omega
  rw [total, sums 4 (by omega), archiveOf, List.length_append]
  rfl

/-- A file is packed behind the others where the block has room for it. -/
theorem pack_packs (packs : List.Forall₂ Packs packed files) : ∀ archive,
    pack kept block archive packed =
      if files = [] ∨ (archive ++ files.flatMap record).length ≤ block then
        some (archive ++ files.flatMap record)
      else none := by
  induction packs with
  | nil =>
      intro archive
      rw [if_pos (.inl rfl), pack, List.flatMap_nil, List.append_nil]
  | @cons one file _ rest first _ ih =>
      intro archive
      obtain ⟨name, found⟩ := one
      obtain ⟨rfl, holds⟩ := first
      have isLength : found.length = file.2.length := holds.length
      have isRead : (found.read 0 found.length).2 = file.2 := congrArg Prod.snd holds.read
      have read : (if found.length = 0 then [] else (found.read 0 found.length).2.take found.length) =
          file.2 := by
        split
        · rename_i empty
          exact (List.length_eq_zero_iff.mp (isLength ▸ empty)).symm
        · rw [isRead, isLength]
          exact List.take_of_length_le (Nat.le_refl _)
      have behind : archive ++ le32 file.1.chars.length ++ file.1.chars ++ le32 found.length ++
          file.2 = archive ++ record file := by
        simp only [record, isLength, List.append_assoc]
      rw [pack]
      simp only [read, behind]
      rw [isLength, Nat.sub_self, bytesAt, List.range_zero, List.map_nil, List.append_nil, ih, List.flatMap_cons, ← List.append_assoc]
      have more := @List.length_append _ (archive ++ record file) (rest.flatMap record)
      by_cases room : block < (archive ++ record file).length
      · rw [if_pos room, if_neg]
        rintro (none | fits)
        · cases none
        · omega
      · rw [if_neg room]
        by_cases last : rest = []
        · have whole : archive ++ record file ++ rest.flatMap record = archive ++ record file := by
            rw [last, List.flatMap_nil, List.append_nil]
          rw [if_pos (.inl last), whole, if_pos (.inr (Nat.le_of_not_lt room))]
        · simp [last]

/-- The block has room for the archive, unless its size does not fit into a word. -/
theorem create_archive (some : files ≠ []) (resolves : ∀ file ∈ files, Resolves resolvePath file)
    (bytes : List UInt8) :
    create kept true resolvePath (files.map Prod.fst) = .some (.ok bytes) ↔
      (archiveOf files).length ≤ 0x30000000 ∧ bytes = archiveOf files := by
  have packs := packedFiles_packs resolves
  have least := archiveOf_length_ge files
  rw [create, if_neg (by simpa using some)]
  dsimp only
  rw [total_packs packs, pack_packs packs]
  rw [show (magic ++ files.flatMap record) = archiveOf files from rfl]
  by_cases room : (archiveOf files).length ≤ 0x30000000
  · have fits : kmallocSucceeds true (archiveOf files).length = true := by
      rw [kmallocSucceeds]
      simp only [Bool.true_and, Bool.and_eq_true, decide_eq_true_eq]
      omega
    rw [u32_eq_of_lt (by omega), fits]
    simp [room, eq_comm]
  · refine ⟨fun made => absurd ?_ room, fun made => absurd made.1 room⟩
    split_ifs at made with refused packed
    · cases made
    · have small := kmallocSucceeds_le (Bool.eq_true_of_not_eq_false (by simpa using refused))
      rcases packed with none | inside
      · exact absurd none some
      · omega
    · cases made

end Packing

section Extracting

variable {data name : List UInt8} {dir : Directory} {node : RamfsNode} {memory : Nat → Bool}
  {file : CString × List UInt8}

def Ready (memory : Nat → Bool) : Prop := ∀ n, memory n = true

@[simp] theorem ramfsWrite_name (bytes : Option (List UInt8)) :
    (ramfsWrite memory node 0 bytes).2.1.name = node.name := by
  unfold ramfsWrite ramfsPut ramfsGrow
  cases bytes with
  | none => rfl
  | some bytes =>
      dsimp only
      split_ifs <;> rfl

theorem ramfsWrite_ready (ready : Ready memory) (bytes : Option (List UInt8)) :
    Ready (ramfsWrite memory node 0 bytes).2.2 := by
  unfold ramfsWrite
  cases bytes with
  | none => exact ready
  | some bytes =>
      dsimp only
      split_ifs
      · exact ready
      · exact ready
      · exact fun n => ready (n + 1)
      · exact fun n => ready (n + 1)
      · exact ready

theorem finddir_none_iff : dir.finddir name = none ↔ ∀ child ∈ dir.children, child.name ≠ name := by
  simp [Directory.finddir]

theorem addChild_ready (ready : Ready dir.memory) (child : RamfsNode) :
    (dir.addChild child).children = dir.children ++ [child] ∧ Ready (dir.addChild child).memory := by
  rw [Directory.addChild]
  by_cases room : dir.children.length < dir.childCapacity
  · rw [if_pos room]
    exact ⟨rfl, ready⟩
  · rw [if_neg room, if_pos (ready 0)]
    exact ⟨rfl, fun n => ready (n + 1)⟩

theorem provide_fresh (ready : Ready dir.memory) (fresh : dir.finddir name = none) :
    (dir.provide name).children =
        dir.children ++ [ramfsAllocNode name vfsFile dir.nextInode] ∧
      Ready (dir.provide name).memory := by
  rw [Directory.provide, Directory.create, fresh, ready 0]
  exact @addChild_ready { dir.asked with nextInode := dir.nextInode + 1 } (fun n => ready (n + 1)) _

/-- What is put into a new file is all that it holds. -/
theorem put_new {front : List RamfsNode} {inode offset len : Nat}
    (isNew : dir.children = front ++ [ramfsAllocNode name vfsFile inode])
    (ready : Ready dir.memory) (writable : len ≤ ramfsMaxFileSize)
    (inside : offset + len ≤ data.length) :
    ∃ after child, dir.put data offset len front.length = some after ∧
      after.children = front ++ [child] ∧ child.name = (cString name).take (vfsMaxName - 1) ∧
      child.contents = bytesAt (buffer data) offset len ∧ Ready after.memory := by
  obtain ⟨sound, empty⟩ := alloc_sound name inode
  have found : dir.children[front.length]? = some (ramfsAllocNode name vfsFile inode) := by
    rw [isNew, List.getElem?_append_right (Nat.le_refl _), Nat.sub_self]
    rfl
  have replaced : ∀ child, dir.children.set front.length child = front ++ [child] := by
    intro child
    rw [isNew, List.set_append_right _ _ (Nat.le_refl _), Nat.sub_self]
    rfl
  have plain : ¬ ((ramfsAllocNode name vfsFile inode).flags &&& vfsMountpoint ≠ 0 ∧
      (ramfsAllocNode name vfsFile inode).ptr.isSome) := fun mounted =>
    mounted.1 (show vfsFile &&& vfsMountpoint = 0 by decide)
  have truncated : { ramfsAllocNode name vfsFile inode with length := 0 } =
      ramfsAllocNode name vfsFile inode := rfl
  rw [Directory.put, found]
  dsimp only
  rw [if_neg plain, truncated]
  by_cases none : len = 0
  · rw [if_pos none]
    exact ⟨_, _, rfl, replaced _, rfl, by rw [none]; exact empty, ready⟩
  · have bound : len ≤ 65536 := writable
    have accepts : ramfsAccepts dir.memory (ramfsAllocNode name vfsFile inode)
        (0 + (bytesAt (buffer data) (offset : Int).toNat len).length) :=
      ⟨by rw [bytesAt_length]; omega, .inr (ready 0)⟩
    obtain ⟨after, later, wrote, -, -, contents⟩ :=
      ramfsWrite_accepted sound (by rw [bytesAt_length]; omega) accepts
    have isName := @ramfsWrite_name (ramfsAllocNode name vfsFile inode) dir.memory
      (some (bytesAt (buffer data) (offset : Int).toNat len))
    have stillReady := @ramfsWrite_ready (ramfsAllocNode name vfsFile inode) dir.memory ready
      (some (bytesAt (buffer data) (offset : Int).toNat len))
    rw [wrote] at isName stillReady
    rw [if_neg none, wrote, if_pos (.inr ⟨by omega, by omega⟩)]
    refine ⟨_, after, rfl, replaced after, isName, ?_, stillReady⟩
    rw [contents, empty, Int.toNat_natCast, writeAt]
    simp

theorem cString_chars (str : CString) : cString str.chars = str.chars :=
  List.takeWhile_eq_self_iff.mpr fun _ member =>
    decide_eq_true fun zero => str.plain (zero ▸ member)

/-- The files that a reader can get out of an archive. -/
structure Portable (file : CString × List UInt8) : Prop where
  name : file.1.chars.length ≤ 63
  contents : file.2.length ≤ ramfsMaxFileSize

theorem entryAt_record (before behind : List UInt8) (portable : Portable file)
    (isData : data = before ++ record file ++ behind) :
    entryAt data before.length =
        { name := file.1.chars, dataLen := file.2.length
          offset := (before.length + 8 + file.1.chars.length : Nat) } ∧
      nameLen data before.length = file.1.chars.length ∧
      dataLen data before.length = file.2.length := by
  have small : file.2.length ≤ 65536 := portable.contents
  have short := portable.name
  have isName : nameLen data before.length = file.1.chars.length := by
    have word := word32_appended before
      (file.1.chars ++ le32 file.2.length ++ file.2 ++ behind) file.1.chars.length
    rw [nameLen, isData, record]
    simp only [List.append_assoc] at word ⊢
    rw [word, Nat.mod_eq_of_lt (by omega)]
  have isLength : dataLen data before.length = file.2.length := by
    have word := word32_appended (before ++ le32 file.1.chars.length ++ file.1.chars)
      (file.2 ++ behind) file.2.length
    rw [dataLen, isName, isData, record]
    simp only [List.append_assoc, List.length_append, le32_length] at word ⊢
    rw [Nat.add_assoc, word, Nat.mod_eq_of_lt (by omega)]
  have read : readAt data (before.length + 4) file.1.chars.length = file.1.chars := by
    have isFront : data = (before ++ le32 file.1.chars.length) ++
        (file.1.chars ++ (le32 file.2.length ++ file.2 ++ behind)) := by
      simp only [isData, record, List.append_assoc]
    rw [isFront, readAt, List.drop_left' (by simp), List.take_left]
  refine ⟨?_, isName, isLength⟩
  have whole : min file.1.chars.length (vfsMaxName - 1) = file.1.chars.length :=
    Nat.min_eq_left short
  rw [entryAt, isName, isLength, whole, read, cString_chars]

/-- The turn for a file that the directory does not have. -/
theorem extractEntry_record {before behind : List UInt8} {s : Extraction}
    (portable : Portable file) (isData : data = before ++ record file ++ behind)
    (small : data.length ≤ 0x30000000)
    (fresh : ∀ other ∈ s.dir.files, other.1 ≠ file.1.chars) (ready : Ready s.dir.memory) :
    ∃ after, extractEntry data (entryAt data before.length) s = some (some after) ∧
      after.dir.files = s.dir.files ++ [(file.1.chars, file.2)] ∧ Ready after.dir.memory := by
  have total : data.length = before.length + (8 + file.1.chars.length + file.2.length) +
      behind.length := by
    rw [isData, List.length_append, List.length_append, record_length]
  have bound : file.2.length ≤ 65536 := portable.contents
  have short := portable.name
  have absent : s.dir.finddir file.1.chars = none := finddir_none_iff.mpr fun child member =>
    fresh _ (List.mem_map_of_mem member)
  obtain ⟨isNew, stillReady⟩ := provide_fresh ready absent
  have isName : (cString file.1.chars).take (vfsMaxName - 1) = file.1.chars := by
    rw [cString_chars]
    exact List.take_of_length_le short
  have found : (s.dir.provide file.1.chars).finddir file.1.chars = some s.dir.children.length := by
    rw [Directory.finddir, isNew, List.findIdx?_append]
    have before := absent
    rw [Directory.finddir] at before
    have named : (ramfsAllocNode file.1.chars vfsFile s.dir.nextInode).name = file.1.chars :=
      isName
    rw [before]
    simp [named]
  have inside : before.length + 8 + file.1.chars.length + file.2.length ≤ data.length := by omega
  obtain ⟨after, child, puts, children, childName, contents, afterReady⟩ :=
    put_new isNew stillReady portable.contents inside
  have sum : wrap32 ((before.length + 8 + file.1.chars.length : Nat) + int32 file.2.length) =
      (before.length + 8 + file.1.chars.length + file.2.length : Nat) := by
    rw [int32_eq_of_lt (by omega)]
    exact wrap32_nat (by omega) (by omega)
  rw [extractEntry, (entryAt_record before behind portable isData).1]
  dsimp only
  rw [if_neg (by omega), found]
  dsimp only
  rw [puts]
  refine ⟨_, rfl, ?_, afterReady⟩
  have isBytes : bytesAt (buffer data) (before.length + 8 + file.1.chars.length) file.2.length =
      file.2 := by
    have bytes := bytesAt_appended
      (before ++ le32 file.1.chars.length ++ file.1.chars ++ le32 file.2.length) file.2 behind
    have isFront : data = before ++ le32 file.1.chars.length ++ file.1.chars ++
        le32 file.2.length ++ file.2 ++ behind := by
      simp only [isData, record, List.append_assoc]
    have isStart : (before ++ le32 file.1.chars.length ++ file.1.chars ++
        le32 file.2.length).length = before.length + 8 + file.1.chars.length := by
      simp only [List.length_append, le32_length]
      omega
    rwa [isStart, ← isFront] at bytes
  rw [Directory.files, children, List.map_append, List.map_singleton, childName, isName, contents,
    isBytes]
  rfl

/-- Each turn extracts the next file. -/
theorem walk_extracts (files : List (CString × List UInt8)) : ∀ {before : List UInt8}
    {s : Extraction}, data = before ++ files.flatMap record → data.length ≤ 0x30000000 →
    (∀ file ∈ files, Portable file) → (files.map Prod.fst).Nodup →
    (∀ file ∈ files, ∀ other ∈ s.dir.files, other.1 ≠ file.1.chars) → Ready s.dir.memory →
    ∃ after, walk data (extractEntry data) (files.length + 1) before.length s = .done after ∧
      after.dir.files = s.dir.files ++ files.map fun file => (file.1.chars, file.2) := by
  induction files with
  | nil =>
      intro before s isData small _ _ _ _
      rw [List.flatMap_nil, List.append_nil] at isData
      subst isData
      have sum : wrap32 ((data.length : Int) + 4) = data.length + 4 :=
        wrap32_eq (by omega) (by omega)
      exact ⟨s, walk_left (by omega) 0 s, (List.append_nil _).symm⟩
  | cons file rest ih =>
      intro before s isData small portable distinct fresh ready
      rw [List.flatMap_cons, ← List.append_assoc] at isData
      have first := portable file List.mem_cons_self
      obtain ⟨isEntry, isName, isLength⟩ := entryAt_record before _ first isData
      have total : data.length = before.length + (8 + file.1.chars.length + file.2.length) +
          (rest.flatMap record).length := by
        rw [isData, List.length_append, List.length_append, record_length]
      have sum : wrap32 ((before.length : Int) + 4) = before.length + 4 :=
        wrap32_eq (by omega) (by omega)
      obtain ⟨next, visited, isFiles, nextReady⟩ :=
        extractEntry_record first isData small (fresh file List.mem_cons_self) ready
      have isNext : wrap32 (nextEntry data before.length) = (before ++ record file).length := by
        rw [List.length_append, record_length]
        refine wrap32_nat ?_ (by omega)
        rw [nextEntry, isName, isLength]
        omega
      rw [List.map_cons, List.nodup_cons] at distinct
      have others : ∀ other ∈ rest, ∀ old ∈ next.dir.files, old.1 ≠ other.1.chars := by
        intro other member old isOld
        rw [isFiles] at isOld
        rcases List.mem_append.mp isOld with before | last
        · exact fresh other (List.mem_cons_of_mem _ member) old before
        · rw [List.mem_singleton.mp last]
          intro same
          exact distinct.1 (CString.ext same ▸ List.mem_map_of_mem member)
      obtain ⟨after, walked, all⟩ := @ih (before ++ record file) next isData small
        (fun other member => portable other (List.mem_cons_of_mem _ member)) distinct.2 others
        nextReady
      refine ⟨after, ?_, ?_⟩
      · rw [List.length_cons, walk_turn (by omega) (readEntry_fits small (by omega)) visited,
          nextEntry_wraps, isNext, walked]
      · rw [all, isFiles, List.append_assoc, List.map_cons, List.singleton_append]

end Extracting

section Limits

variable {data : List UInt8} {dir after : Directory} {node : RamfsNode} {memory : Nat → Bool}

/-- What holds of the files of a directory, whatever the archive. -/
def Bounded (dir : Directory) : Prop :=
  ∀ child ∈ dir.children, child.name.length ≤ 63 ∧ child.length ≤ ramfsMaxFileSize

theorem ramfsWrite_length_le (small : node.length ≤ ramfsMaxFileSize)
    (bytes : Option (List UInt8)) :
    (ramfsWrite memory node 0 bytes).2.1.length ≤ ramfsMaxFileSize := by
  unfold ramfsWrite ramfsPut ramfsGrow
  cases bytes with
  | none => exact small
  | some bytes =>
      dsimp only
      split_ifs
      all_goals first
        | exact small
        | dsimp only
          omega

theorem Bounded.provide (bounded : Bounded dir) (name : List UInt8) :
    Bounded (dir.provide name) := by
  have short : ((cString name).take (vfsMaxName - 1)).length ≤ 63 := List.length_take_le _ _
  have more : ∀ inode, ∀ child ∈ dir.children ++ [ramfsAllocNode name vfsFile inode],
      child.name.length ≤ 63 ∧ child.length ≤ ramfsMaxFileSize := by
    intro inode child member
    rcases List.mem_append.mp member with old | isNew
    · exact bounded child old
    · rw [List.mem_singleton.mp isNew]
      exact ⟨short, Nat.zero_le _⟩
  unfold Directory.provide Directory.create Directory.addChild
  split_ifs
  · exact bounded
  · exact more _
  · exact more _
  · exact bounded
  · exact bounded

theorem Bounded.put (bounded : Bounded dir) {offset : Int} {len i : Nat}
    (puts : dir.put data offset len i = some after) : Bounded after := by
  have replaced : ∀ child : RamfsNode, child.name.length ≤ 63 ∧ child.length ≤ ramfsMaxFileSize →
      ∀ other ∈ dir.children.set i child,
        other.name.length ≤ 63 ∧ other.length ≤ ramfsMaxFileSize := by
    intro child fits other member
    rcases List.mem_or_eq_of_mem_set member with old | rfl
    · exact bounded other old
    · exact fits
  rw [Directory.put] at puts
  cases isChild : dir.children[i]? with
  | none =>
      rw [isChild] at puts
      cases puts
      exact bounded
  | some child =>
      have short := (bounded child (List.mem_of_getElem? isChild)).1
      rw [isChild] at puts
      dsimp only at puts
      split_ifs at puts
      · cases puts
        exact bounded
      · cases puts
        exact replaced _ ⟨short, Nat.zero_le _⟩
      · cases puts
        refine replaced _ ⟨?_, ramfsWrite_length_le (Nat.zero_le _) _⟩
        rw [ramfsWrite_name]
        exact short

theorem Bounded.extractEntry {s next : Extraction} {entry : Entry} (bounded : Bounded s.dir)
    (visited : extractEntry data entry s = some (some next)) : Bounded next.dir := by
  have provided := bounded.provide entry.name
  rw [Tar.extractEntry] at visited
  split_ifs at visited with behind
  · cases visited
  dsimp only at visited
  cases found : (s.dir.provide entry.name).finddir entry.name with
  | none =>
      rw [found] at visited
      cases visited
      exact provided
  | some i =>
      rw [found] at visited
      obtain ⟨after, puts, same⟩ := Option.map_eq_some_iff.mp visited
      cases same
      exact provided.put puts

theorem walk_keeps {α : Type} {visit : Entry → α → Option (Option α)} {holds : α → Prop}
    (keeps : ∀ entry state next, visit entry state = some (some next) → holds state → holds next)
    (fuel : Nat) : ∀ {offset : Int} {state result : α},
      walk data visit fuel offset state = .done result → holds state → holds result := by
  induction fuel with
  | zero => nofun
  | succ fuel ih =>
      intro offset state result ends start
      rw [walk] at ends
      split_ifs at ends
      · split at ends
        · cases ends
        · cases ends
          exact start
        · split at ends
          · cases ends
          · cases ends
            exact start
          · rename_i next visited
            exact ih ends (keeps _ _ _ visited start)
      · cases ends
        exact start

end Limits

section Archives

variable {resolvePath : CString → Option VfsFile} {files : List (CString × List UInt8)}
  {dir : Directory}

/-- The archive holds what `create` has written, or nothing where its file system does not accept
so many bytes; `extract` makes the files of it. -/
def Recreates (kept : Buffer) (resolvePath : CString → Option VfsFile) (accepts : Nat → Bool)
    (dir : Directory) (files : List (CString × List UInt8)) : Prop :=
  ∃ bytes, create kept true resolvePath (files.map Prod.fst) = some (.ok bytes) ∧
    ∀ archive : VfsFile, archive.Holds (if accepts bytes.length then bytes else []) →
      ∃ fuel after, extract fuel true archive dir = .done (.ok after) ∧
        after.dir.files.Perm (files.map fun file => (file.1.chars, file.2))

def storing (bytes : List UInt8) (word : bytes.length < 4294967296) : VfsFile where
  isDirectory := false
  length := bytes.length
  word := word
  read offset size := ((readAt bytes offset size).length, readAt bytes offset size)

theorem storing_holds (bytes : List UInt8) (word : bytes.length < 4294967296) :
    (storing bytes word).Holds bytes := by
  have whole : readAt bytes 0 bytes.length = bytes := List.take_of_length_le (Nat.le_refl _)
  refine ⟨rfl, rfl, ?_⟩
  change (((readAt bytes 0 bytes.length).length : Int), readAt bytes 0 bytes.length) = _
  rw [whole]

/-- What a new file of ramfs has accepted. -/
theorem ramfs_stores (name bytes : List UInt8) (inode : Nat) {memory : Nat → Bool}
    (ready : Ready memory) (word : bytes.length < 4294967296) :
    (ramfsWrite memory (ramfsAllocNode name vfsFile inode) 0 (some bytes)).2.1.contents =
      if decide (bytes.length ≤ ramfsMaxFileSize) then bytes else [] := by
  obtain ⟨sound, empty⟩ := alloc_sound name inode
  have small : 0 + bytes.length < 4294967296 := by omega
  by_cases writable : bytes.length ≤ ramfsMaxFileSize
  · have accepts : ramfsAccepts memory (ramfsAllocNode name vfsFile inode) (0 + bytes.length) :=
      ⟨by omega, .inr (ready 0)⟩
    obtain ⟨after, later, wrote, -, -, contents⟩ := ramfsWrite_accepted sound small accepts
    rw [wrote, if_pos (decide_eq_true writable), contents, empty, writeAt]
    simp
  · have refuses : ¬ ramfsAccepts memory (ramfsAllocNode name vfsFile inode) (0 + bytes.length) :=
      fun accepts => writable (Nat.zero_add bytes.length ▸ accepts.1)
    obtain ⟨later, refused⟩ := ramfsWrite_refused sound small refuses
    rw [refused, if_neg (by simpa using writable), empty]

theorem openArchive_archiveOf {archive : VfsFile} (holds : archive.Holds (archiveOf files))
    (room : (archiveOf files).length + 1 ≤ 0x30000000) :
    openArchive true archive = .ok (archiveOf files) := by
  have least := archiveOf_length_ge files
  have fits : kmallocSucceeds true ((archiveOf files).length + 1) = true := by
    rw [kmallocSucceeds]
    simp only [Bool.true_and, Bool.and_eq_true, decide_eq_true_eq]
    omega
  have nonempty : archiveOf files ≠ [] := by
    intro none
    rw [none] at least
    cases least
  rw [openArchive, holds.readFileContents_eq, fits, if_neg (by simpa using nonempty)]
  dsimp only
  rw [List.dropLast_concat, if_neg]
  rintro (short | other)
  · omega
  · exact other rfl

/-- Where no length of an archive wraps both loops end and read inside of it, and the files come
back if and only if they and the archive are within the limits. -/
theorem tar_archives_iff (some : files ≠ []) (distinct : (files.map Prod.fst).Nodup)
    (resolves : ∀ file ∈ files, Resolves resolvePath file) (kept : Buffer) (accepts : Nat → Bool)
    (empty : dir.children = []) (ready : Ready dir.memory) :
    (∀ (archive : VfsFile) (data : List UInt8), archive.Holds data → Clean data →
      ∀ (memory : Bool) (target : Directory),
        (∃ fuel result, list fuel memory archive = .done result) ∧
          ∃ fuel result, extract fuel memory archive target = .done result) ∧
    (Recreates kept resolvePath accepts dir files ↔
      (∀ file ∈ files, Portable file) ∧ accepts (archiveOf files).length = true ∧
        (archiveOf files).length + 1 ≤ 0x30000000) := by
  have noFiles : dir.files = [] := by rw [Directory.files, empty, List.map_nil]
  refine ⟨fun archive data holds clean memory target => ⟨list_ends holds clean memory,
    extract_ends holds clean memory target⟩, ?_, ?_⟩
  · rintro ⟨bytes, made, extracts⟩
    obtain ⟨room, rfl⟩ := (create_archive some resolves bytes).mp made
    have stored : (if accepts (archiveOf files).length then archiveOf files else []).length <
        4294967296 := by
      split
      · omega
      · decide
    obtain ⟨fuel, after, ends, perm⟩ := extracts (storing _ stored) (storing_holds _ stored)
    rw [extract] at ends
    cases opened : openArchive true (storing _ stored) with
    | error text =>
        rw [opened] at ends
        cases ends
    | ok data =>
        rw [opened] at ends
        obtain ⟨isData, least, fits⟩ := openArchive_ok (storing_holds _ stored) opened
        have accepted : accepts (archiveOf files).length = true := by
          by_contra refused
          rw [isData, if_neg refused] at least
          cases least
        rw [if_pos accepted] at isData
        have started : Bounded dir := by
          rw [Bounded, empty]
          nofun
        have bounded : Bounded after.dir := by
          cases walked : walk data (extractEntry data) fuel 4 { dir, extracted := [] } with
          | done s =>
              simp only [walked] at ends
              cases ends
              exact @walk_keeps data Extraction (extractEntry data) (fun s => Bounded s.dir)
                (fun _ _ _ visited bounded => bounded.extractEntry visited) fuel _ _ _ walked started
          | outside =>
              simp only [walked] at ends
              cases ends
          | running =>
              simp only [walked] at ends
              cases ends
        refine ⟨fun file member => ?_, accepted, isData ▸ fits⟩
        obtain ⟨child, isChild, same⟩ :=
          List.mem_map.mp (perm.symm.subset (List.mem_map_of_mem member))
        obtain ⟨isName, isContents⟩ := Prod.mk.inj same
        have limits := bounded child isChild
        have isLength : child.contents.length = child.length := length_image
        exact ⟨isName ▸ limits.1, by rw [← isContents, isLength]; exact limits.2⟩
  · rintro ⟨portable, accepted, room⟩
    refine ⟨archiveOf files, (create_archive some resolves _).mpr ⟨by omega, rfl⟩, ?_⟩
    intro archive holds
    rw [if_pos accepted] at holds
    obtain ⟨after, walked, all⟩ := @walk_extracts (archiveOf files) files magic
      { dir, extracted := [] } rfl (by omega) portable distinct
      (fun _ _ other member => by rw [noFiles] at member; cases member) ready
    refine ⟨files.length + 1, after, ?_, ?_⟩
    · have start : ((magic.length : Nat) : Int) = 4 := rfl
      rw [start] at walked
      rw [extract, openArchive_archiveOf holds room]
      simp only [walked]
    · rw [all, noFiles]
      exact .refl _

def newDirectory : Directory where
  children := []
  childCapacity := 8
  nextInode := 1
  memory _ := true

def emptyNamed : List UInt8 := magic ++ [1, 0, 0, 0, 97, 0, 0, 0, 0]

theorem emptyNamed_met {p : Nat} (met : Met emptyNamed p) : p = 4 ∨ p = 13 := by
  induction met with
  | first => exact .inl rfl
  | next _ fits ih =>
      rcases ih with rfl | rfl
      · exact .inr rfl
      · have short : emptyNamed.length = 13 := rfl
        omega

theorem emptyNamed_clean : Clean emptyNamed := by
  have short : emptyNamed.length = 13 := rfl
  constructor
  · intro p met inside behind
    rcases emptyNamed_met met with rfl | rfl
    · have name : nameLen emptyNamed 4 = 1 := rfl
      omega
    · omega
  · intro p met fits behind
    rcases emptyNamed_met met with rfl | rfl
    · exact (by decide : (13 : Int) < wrap32 (wrap32 13 + 4))
    · omega

theorem tar_archives_notes :
    (∃ fuel result, list fuel true (storing emptyNamed (by decide)) = .done result) ∧
    Recreates (fun _ => 0) (fun _ => some notes) (fun size => size ≤ ramfsMaxFileSize)
      newDirectory [(.ofString "notes", [98, 10, 10, 97, 10])] := by
  have archives := @tar_archives_iff (fun _ => some notes)
    [(.ofString "notes", [98, 10, 10, 97, 10])] newDirectory
    (List.cons_ne_nil _ _) (List.nodup_singleton _)
    (fun file member => ⟨notes, rfl, List.mem_singleton.mp member ▸ ⟨rfl, rfl, rfl⟩⟩)
    (fun _ => 0) (fun size => size ≤ ramfsMaxFileSize) rfl fun _ => rfl
  have portable : ∀ file ∈ [(CString.ofString "notes", ([98, 10, 10, 97, 10] : List UInt8))],
      Portable file := by
    intro file member
    rw [List.mem_singleton.mp member]
    exact ⟨by decide, by decide⟩
  exact ⟨(archives.1 _ _ (storing_holds _ _) emptyNamed_clean true newDirectory).1,
    archives.2.mpr ⟨portable, by decide, by decide⟩⟩

/-- A name that begins near the start of the address space, and an entry that leads back to
itself. -/
theorem wrapping_lengths :
    (∀ fuel, list (fuel + 1) true (storing (magic ++ [0, 0, 0, 128]) (by decide)) = .outside) ∧
    ∀ fuel, list fuel true (storing (magic ++ [0, 0, 0, 0, 248, 255, 255, 255]) (by decide)) =
      .running := by
  constructor
  · intro fuel
    have opened : openArchive true (storing (magic ++ [0, 0, 0, 128]) (by decide)) =
        .ok (magic ++ [0, 0, 0, 128]) := rfl
    have outside : readEntry (magic ++ [0, 0, 0, 128]) 4 = none := by decide
    rw [list, opened]
    dsimp only
    rw [walk, if_pos (by decide), outside]
  · intro fuel
    have opened : openArchive true
        (storing (magic ++ [0, 0, 0, 0, 248, 255, 255, 255]) (by decide)) =
          .ok (magic ++ [0, 0, 0, 0, 248, 255, 255, 255]) := rfl
    have read : readEntry (magic ++ [0, 0, 0, 0, 248, 255, 255, 255]) 4 =
        some (some { name := [], dataLen := 4294967288, offset := 12 }) := by decide
    have same : wrap32 (12 + (4294967288 : Nat)) = 4 := by decide
    have running : ∀ listed : Listing, walk (magic ++ [0, 0, 0, 0, 248, 255, 255, 255])
        (fun entry listed => some (some (listed ++ [(entry.name, entry.dataLen)]))) fuel 4 listed =
          .running := by
      induction fuel with
      | zero => exact fun _ => rfl
      | succ fuel ih =>
          intro listed
          rw [walk_turn (by decide) read rfl, same]
          exact ih _
    rw [list, opened]
    simp only [running]

end Archives

end Tar

end ZurichOS
