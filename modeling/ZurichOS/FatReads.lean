import ZurichOS.FatImage

set_option linter.all false

/-!
Which bytes `fat32_read_file` hands out, on any image and with transfers that may fail.  It
follows the chain as far as the requested size goes, and the chain may go on behind the end
of the file.
-/

namespace ZurichOS

open ByteBuffer Words

variable {fs : Fat32Fs} {d other : Disk} {current index size first offsetInCluster fuel : Nat}
  {out : List UInt8}

/-- The cluster that the driver comes to from `start` in that many steps. -/
def Disk.clusterAt (d : Disk) (fs : Fat32Fs) (start step : Nat) : Nat := (d.link fs)^[step] start

/-- The byte at a position of the clusters from `start` on. -/
def Disk.walkByte (d : Disk) (fs : Fat32Fs) (start position : Nat) : UInt8 :=
  d.loaded fs (d.clusterAt fs start (position / fs.clusterSize)) (position % fs.clusterSize)

theorem clusterAt_link {start step : Nat} :
    d.clusterAt fs start (step + 1) = d.link fs (d.clusterAt fs start step) :=
  Function.iterate_succ_apply' ..

@[simp] theorem advance_clusterAt (count : Nat) :
    (d.advance count).clusterAt fs = d.clusterAt fs := rfl

@[simp] theorem advance_walkByte (count : Nat) : (d.advance count).walkByte fs = d.walkByte fs := rfl

section Seeking

/-- The way to the cluster of the offset: each step reads an entry, and none ends the chain. -/
def Disk.Seeks (d : Disk) (fs : Fat32Fs) (start steps : Nat) : Prop :=
  d.SteadyFor steps ∧ ∀ step < steps, d.clusterAt fs start step ≠ 0

theorem seeks_succ {start steps : Nat} : d.Seeks fs start (steps + 1) ↔
    start ≠ 0 ∧ d.transfers 0 = true ∧ (d.advance 1).Seeks fs (d.link fs start) steps := by
  rw [Disk.Seeks, Nat.add_comm, steadyFor_advance]
  constructor
  · rintro ⟨⟨one, later⟩, nonzero⟩
    refine ⟨nonzero 0 (by omega), one 0 (by omega), later, fun step below => ?_⟩
    exact nonzero (step + 1) (by omega)
  · rintro ⟨positive, one, later, nonzero⟩
    refine ⟨⟨fun n below => ?_, later⟩, fun step below => ?_⟩
    · obtain rfl : n = 0 := by omega
      exact one
    · cases step with
      | zero => exact positive
      | succ step => exact nonzero step (by omega)

theorem seekRead_spec (steps current index : Nat) :
    ∃ stop reached taken, seekRead fs steps d current index = (stop, reached, d.advance taken) ∧
      (d.Seeks fs current steps →
        stop = d.clusterAt fs current steps ∧ reached = index + steps ∧ taken = steps) ∧
      (¬ d.Seeks fs current steps → stop = 0) := by
  induction steps generalizing d current index with
  | zero =>
      refine ⟨current, index, 0, rfl, fun _ => ⟨rfl, rfl, rfl⟩, fun missing => ?_⟩
      exact absurd ⟨fun n below => absurd below (Nat.not_lt_zero n),
        fun step below => absurd below (Nat.not_lt_zero step)⟩ missing
  | succ steps ih =>
      rw [seekRead, seeks_succ]
      by_cases nonzero : current ≠ 0
      · rw [if_pos nonzero, nextCluster_eq]
        dsimp only
        by_cases read : d.transfers 0 = true
        · rw [if_pos read]
          obtain ⟨stop, reached, taken, sought, found, lost⟩ :=
            @ih (d.advance 1) (d.link fs current) (index + 1)
          refine ⟨stop, reached, 1 + taken, ?_, ?_, ?_⟩
          · rw [sought, advance_advance]
          · rintro ⟨_, _, later⟩
            obtain ⟨isStop, isReached, isTaken⟩ := found later
            exact ⟨isStop, by omega, by omega⟩
          · intro missing
            exact lost fun later => missing ⟨nonzero, read, later⟩
        · rw [if_neg read]
          obtain ⟨stop, reached, taken, sought, found, lost⟩ := @ih (d.advance 1) 0 (index + 1)
          refine ⟨stop, reached, 1 + taken, ?_, ?_, ?_⟩
          · rw [sought, advance_advance]
          · rintro ⟨_, isRead, _⟩
            exact absurd isRead read
          · intro _
            cases steps with
            | zero =>
                have isZero : stop = 0 := by
                  have same := congrArg Prod.fst sought
                  exact same.symm
                exact isZero
            | succ steps => exact lost fun sought => sought.2 0 (Nat.succ_pos steps) rfl
      · rw [if_neg nonzero]
        exact ⟨current, index, 0, rfl, fun sought => absurd sought.1 nonzero,
          fun _ => not_not.mp nonzero⟩

end Seeking

section Rounds

abbrev Going (size current : Nat) (out : List UInt8) : Prop :=
  out.length < size ∧ current ≠ 0 ∧ current < fat32ClusterEnd

/-- Where the copy from a cluster begins, and how long it is. -/
def copyStart (first offsetInCluster index : Nat) : Nat :=
  if index = first then offsetInCluster else 0

def copySize (fs : Fat32Fs) (size first offsetInCluster index done : Nat) : Nat :=
  min (fs.clusterSize - copyStart first offsetInCluster index) (size - done)

theorem readLoop_stop (stopped : ¬ Going size current out) :
    readLoop fs size first offsetInCluster fuel d out current index =
      (int32 out.length, out, d) := by
  cases fuel with
  | zero => rfl
  | succ fuel => rw [readLoop, if_neg stopped]

theorem readLoop_fails (going : Going size current out)
    (failing : current < 2 ∨ ¬ d.SteadyFor fs.sectorsPerCluster) :
    ∃ taken, readLoop fs size first offsetInCluster (fuel + 1) d out current index =
      (-1, out, d.advance taken) := by
  obtain ⟨taken, failed⟩ := readCluster_fails failing
  refine ⟨taken, ?_⟩
  rw [readLoop, if_pos going, failed]

theorem readLoop_turn (going : Going size current out) (valid : 2 ≤ current)
    (steady : d.SteadyFor fs.sectorsPerCluster) :
    readLoop fs size first offsetInCluster (fuel + 1) d out current index =
      readLoop fs size first offsetInCluster fuel (d.advance (fs.sectorsPerCluster + 1))
        (out ++ bytesAt (d.loaded fs current) (copyStart first offsetInCluster index)
          (copySize fs size first offsetInCluster index out.length))
        (if d.transfers fs.sectorsPerCluster = true then d.link fs current else 0) (index + 1) := by
  rw [readLoop, if_pos going, readCluster_steady valid steady]
  dsimp only
  rw [nextCluster_eq, advance_advance, advance_transfers, Nat.zero_add]
  rfl

/-- How a round of the loop goes. -/
theorem readLoop_cases (fuel : Nat) (current : Nat) (out : List UInt8) :
    readLoop fs size first offsetInCluster (fuel + 1) d out current index =
        (int32 out.length, out, d) ∨
      (∃ taken, readLoop fs size first offsetInCluster (fuel + 1) d out current index =
        (-1, out, d.advance taken)) ∨
      (Going size current out ∧ 2 ≤ current ∧ d.SteadyFor fs.sectorsPerCluster) := by
  by_cases going : Going size current out
  · by_cases fine : 2 ≤ current ∧ d.SteadyFor fs.sectorsPerCluster
    · exact .inr (.inr ⟨going, fine⟩)
    · refine .inr (.inl (readLoop_fails going ?_))
      rw [not_and_or, Nat.not_le] at fine
      exact fine
  · exact .inl (readLoop_stop going)

/-- The copy stays inside the cluster, and takes the next bytes of the walk. -/
theorem copied_bytes {start offset : Nat} (isCluster : current = d.clusterAt fs start index)
    (inCluster : offsetInCluster < fs.clusterSize)
    (place : index * fs.clusterSize + copyStart first offsetInCluster index = offset + out.length) :
    bytesAt (d.loaded fs current) (copyStart first offsetInCluster index)
        (copySize fs size first offsetInCluster index out.length) =
      bytesAt (d.walkByte fs start) (offset + out.length)
        (copySize fs size first offsetInCluster index out.length) := by
  apply List.map_congr_left
  intro i member
  have short := List.mem_range.mp member
  have inside : copyStart first offsetInCluster index + i < fs.clusterSize := by
    unfold copySize at short
    omega
  have quotient : (offset + out.length + i) / fs.clusterSize = index := by
    rw [← place, Nat.add_assoc, Nat.add_comm, Nat.add_mul_div_right _ _ (by omega),
      Nat.div_eq_of_lt inside, Nat.zero_add]
  have remainder : (offset + out.length + i) % fs.clusterSize =
      copyStart first offsetInCluster index + i := by
    rw [← place, Nat.add_assoc, Nat.add_comm, Nat.add_mul_mod_self_right,
      Nat.mod_eq_of_lt inside]
  rw [Disk.walkByte, quotient, remainder, isCluster]

/-- A copy that leaves something to read reaches the end of the cluster. -/
theorem copied_place {offset : Nat} (ordered : first ≤ index)
    (inCluster : offsetInCluster < fs.clusterSize)
    (place : index * fs.clusterSize + copyStart first offsetInCluster index = offset + out.length)
    (more : out.length + copySize fs size first offsetInCluster index out.length < size) :
    (index + 1) * fs.clusterSize + copyStart first offsetInCluster (index + 1) =
      offset + (out.length + copySize fs size first offsetInCluster index out.length) := by
  have start : copyStart first offsetInCluster (index + 1) = 0 := if_neg (by omega)
  have below : copyStart first offsetInCluster index < fs.clusterSize := by
    unfold copyStart
    split <;> omega
  rw [start, Nat.succ_mul]
  unfold copySize at more ⊢
  omega

theorem readLoop_bytes {start offset : Nat} (inCluster : offsetInCluster < fs.clusterSize)
    (fuel : Nat) (isCurrent : current = 0 ∨ current = d.clusterAt fs start index)
    (ordered : first ≤ index)
    (place : out.length < size →
      index * fs.clusterSize + copyStart first offsetInCluster index = offset + out.length) :
    ∃ code count taken, readLoop fs size first offsetInCluster fuel d out current index =
        (code, out ++ bytesAt (d.walkByte fs start) (offset + out.length) count, d.advance taken) ∧
      out.length + count ≤ max size out.length ∧
      (code = -1 ∨ code = int32 (out.length + count)) := by
  have nothing : out ++ bytesAt (d.walkByte fs start) (offset + out.length) 0 = out :=
    List.append_nil out
  induction fuel generalizing d current index out with
  | zero =>
      refine ⟨int32 out.length, 0, 0, ?_, by omega, .inr rfl⟩
      rw [nothing]
      rfl
  | succ fuel ih =>
      rcases @readLoop_cases fs d index size first offsetInCluster fuel current out with
        stopped | ⟨taken, failed⟩ | ⟨going, valid, steady⟩
      · refine ⟨int32 out.length, 0, 0, ?_, by omega, .inr rfl⟩
        rw [nothing, stopped]
        rfl
      · refine ⟨-1, 0, taken, ?_, by omega, .inl rfl⟩
        rw [nothing, failed]
      · have here := isCurrent.resolve_left going.2.1
        have bytes := @copied_bytes fs d current index size first offsetInCluster out start offset
          here inCluster (place going.1)
        have length : (out ++ bytesAt (d.walkByte fs start) (offset + out.length)
            (copySize fs size first offsetInCluster index out.length)).length =
            out.length + copySize fs size first offsetInCluster index out.length := by
          rw [List.length_append, bytesAt_length]
        rw [readLoop_turn going valid steady, bytes]
        obtain ⟨code, count, taken, result, bound, isCode⟩ :=
          @ih (d.advance (fs.sectorsPerCluster + 1))
            (if d.transfers fs.sectorsPerCluster = true then d.link fs current else 0) (index + 1)
            (out ++ bytesAt (d.walkByte fs start) (offset + out.length)
              (copySize fs size first offsetInCluster index out.length))
            (by
              rw [here, advance_clusterAt, clusterAt_link]
              by_cases read : d.transfers fs.sectorsPerCluster = true
              · rw [if_pos read]
                exact .inr rfl
              · rw [if_neg read]
                exact .inl rfl)
            (by omega)
            (by
              intro more
              rw [length] at more ⊢
              exact copied_place ordered inCluster (place going.1) more)
            (List.append_nil _)
        rw [length, advance_walkByte] at result
        rw [length] at bound isCode
        have few : copySize fs size first offsetInCluster index out.length ≤ size - out.length :=
          Nat.min_le_right ..
        have less := going.1
        refine ⟨code, copySize fs size first offsetInCluster index out.length + count,
          fs.sectorsPerCluster + 1 + taken, ?_, by omega, ?_⟩
        · rw [result, List.append_assoc, ← Nat.add_assoc, bytesAt_append, advance_advance]
        · rwa [← Nat.add_assoc]

/-- How much is read, and whether it fails, depends on the transfers and the FAT only. -/
theorem readLoop_shape (sameTransfers : other.transfers = d.transfers)
    (sameLinks : other.link fs = d.link fs) (fuel : Nat) {out' : List UInt8}
    (sameLength : out'.length = out.length) :
    (readLoop fs size first offsetInCluster fuel other out' current index).1 =
        (readLoop fs size first offsetInCluster fuel d out current index).1 ∧
      (readLoop fs size first offsetInCluster fuel other out' current index).2.1.length =
        (readLoop fs size first offsetInCluster fuel d out current index).2.1.length := by
  induction fuel generalizing d other current index out out' with
  | zero => exact ⟨by rw [readLoop, readLoop, sameLength], sameLength⟩
  | succ fuel ih =>
      by_cases going : Going size current out
      · have goingOther : Going size current out' := by rwa [Going, sameLength]
        have sameSteady : other.SteadyFor fs.sectorsPerCluster ↔
            d.SteadyFor fs.sectorsPerCluster := by
          rw [Disk.SteadyFor, sameTransfers, Disk.SteadyFor]
        by_cases failing : current < 2 ∨ ¬ d.SteadyFor fs.sectorsPerCluster
        · obtain ⟨_, failed⟩ := @readLoop_fails fs d current index size first offsetInCluster fuel
            out going failing
          obtain ⟨_, failedOther⟩ := @readLoop_fails fs other current index size first
            offsetInCluster fuel out' goingOther (by rwa [sameSteady])
          rw [failed, failedOther]
          exact ⟨rfl, sameLength⟩
        · rw [not_or, Nat.not_lt, not_not] at failing
          rw [readLoop_turn going failing.1 failing.2,
            readLoop_turn goingOther failing.1 (sameSteady.mpr failing.2), sameTransfers, sameLinks]
          apply ih
          · simp only [Disk.advance, sameTransfers]
          · exact sameLinks
          · simp only [List.length_append, bytesAt_length, sameLength]
      · have stoppedOther : ¬ Going size current out' := by rwa [Going, sameLength]
        rw [readLoop_stop going, readLoop_stop stoppedOther, sameLength]
        exact ⟨rfl, rfl⟩

end Rounds

section Reach

/-- The loop can read the clusters from `current` on, up to the one after that many links. -/
def Disk.Readable (d : Disk) (fs : Fat32Fs) (current links : Nat) : Prop :=
  (∀ step ≤ links, 2 ≤ d.clusterAt fs current step ∧
    d.clusterAt fs current step < fat32ClusterEnd) ∧
  d.SteadyFor (links * (fs.sectorsPerCluster + 1) + fs.sectorsPerCluster)

theorem readable_first {links : Nat} (readable : d.Readable fs current links) :
    (2 ≤ current ∧ current < fat32ClusterEnd) ∧ d.SteadyFor fs.sectorsPerCluster := by
  refine ⟨readable.1 0 (Nat.zero_le _), fun n below => ?_⟩
  exact readable.2 n (by omega)

theorem readable_zero : d.Readable fs current 0 ↔
    (2 ≤ current ∧ current < fat32ClusterEnd) ∧ d.SteadyFor fs.sectorsPerCluster := by
  refine ⟨readable_first, fun ⟨valid, steady⟩ => ⟨fun step none => ?_, ?_⟩⟩
  · obtain rfl : step = 0 := by omega
    exact valid
  · rwa [Nat.zero_mul, Nat.zero_add]

theorem readable_succ {links : Nat} : d.Readable fs current (links + 1) ↔
    ((2 ≤ current ∧ current < fat32ClusterEnd) ∧ d.SteadyFor fs.sectorsPerCluster) ∧
      d.transfers fs.sectorsPerCluster = true ∧
      (d.advance (fs.sectorsPerCluster + 1)).Readable fs (d.link fs current) links := by
  have turns : (links + 1) * (fs.sectorsPerCluster + 1) + fs.sectorsPerCluster =
      fs.sectorsPerCluster + 1 + (links * (fs.sectorsPerCluster + 1) + fs.sectorsPerCluster) := by
    rw [Nat.succ_mul]
    omega
  constructor
  · intro readable
    obtain ⟨valid, steady⟩ := readable
    rw [turns, steadyFor_advance] at steady
    refine ⟨readable_first ⟨valid, by rw [turns, steadyFor_advance]; exact steady⟩,
      steady.1 _ (by omega), fun step below => ?_, steady.2⟩
    exact valid (step + 1) (by omega)
  · rintro ⟨⟨first, steady⟩, read, later⟩
    refine ⟨fun step below => ?_, ?_⟩
    · cases step with
      | zero => exact first
      | succ step => exact later.1 step (by omega)
    · rw [turns, steadyFor_advance, steadyFor_advance]
      refine ⟨⟨steady, fun n below => ?_⟩, later.2⟩
      obtain rfl : n = 0 := by omega
      rwa [advance_transfers, Nat.zero_add]

theorem readLoop_grows (fuel : Nat) :
    out.length ≤ (readLoop fs size first offsetInCluster fuel d out current index).2.1.length := by
  induction fuel generalizing d current index out with
  | zero => exact Nat.le_refl _
  | succ fuel ih =>
      rcases @readLoop_cases fs d index size first offsetInCluster fuel current out with
        stopped | ⟨taken, failed⟩ | ⟨going, valid, steady⟩
      · rw [stopped]
      · rw [failed]
      · rw [readLoop_turn going valid steady]
        refine Nat.le_trans ?_ ih
        rw [List.length_append]
        exact Nat.le_add_right ..

/-- What the loop needs to read anything from the cluster. -/
abbrev Disk.CanRead (d : Disk) (fs : Fat32Fs) (current : Nat) : Prop :=
  (2 ≤ current ∧ current < fat32ClusterEnd) ∧ d.SteadyFor fs.sectorsPerCluster

theorem readLoop_missing (missing : ¬ d.CanRead fs current) :
    (readLoop fs size first offsetInCluster fuel d out current index).2.1 = out := by
  cases fuel with
  | zero => rfl
  | succ fuel =>
      by_cases going : Going size current out
      · have failing : current < 2 ∨ ¬ d.SteadyFor fs.sectorsPerCluster := by
          by_cases low : current < 2
          · exact .inl low
          · exact .inr fun steady => missing ⟨⟨by omega, going.2.2⟩, steady⟩
        obtain ⟨taken, failed⟩ := @readLoop_fails fs d current index size first offsetInCluster fuel
          out going failing
        rw [failed]
      · rw [readLoop_stop going]

theorem copyStart_lt (inCluster : offsetInCluster < fs.clusterSize) :
    copyStart first offsetInCluster index < fs.clusterSize := by
  unfold copyStart
  split <;> omega

theorem copied_length {done : Nat} {buf : Buffer} :
    (out ++ bytesAt buf (copyStart first offsetInCluster index)
      (copySize fs size first offsetInCluster index done)).length =
      out.length + copySize fs size first offsetInCluster index done := by
  rw [List.length_append, bytesAt_length]

/-- A position of the range is read exactly if all clusters up to its own can be read. -/
theorem readLoop_reaches {offset position : Nat} (inCluster : offsetInCluster < fs.clusterSize)
    (links : Nat) (ordered : first ≤ index)
    (place : index * fs.clusterSize + copyStart first offsetInCluster index = offset + out.length)
    (isLast : position / fs.clusterSize = index + links)
    (lower : offset + out.length ≤ position) (upper : position < offset + size)
    (enough : size ≤ out.length + fuel) :
    position < offset +
        (readLoop fs size first offsetInCluster fuel d out current index).2.1.length ↔
      d.Readable fs current links := by
  induction links generalizing d current index out fuel with
  | zero =>
      rw [readable_zero]
      by_cases fine : d.CanRead fs current
      · refine iff_of_true ?_ fine
        obtain ⟨more, rfl⟩ : ∃ more, fuel = more + 1 := ⟨fuel - 1, by omega⟩
        have going : Going size current out := ⟨by omega, by omega, fine.1.2⟩
        have stop := Nat.lt_div_mul_add (a := position) (b := fs.clusterSize) (by omega)
        rw [isLast, Nat.add_zero] at stop
        have covered : position < offset +
            (out.length + copySize fs size first offsetInCluster index out.length) := by
          unfold copySize
          omega
        rw [readLoop_turn going fine.1.1 fine.2]
        have length : (out ++ bytesAt (d.loaded fs current) (copyStart first offsetInCluster index)
            (copySize fs size first offsetInCluster index out.length)).length = _ := copied_length
        rw [← length] at covered
        exact Nat.lt_of_lt_of_le covered (Nat.add_le_add_left (readLoop_grows more) _)
      · refine iff_of_false ?_ fine
        rw [readLoop_missing fine]
        omega
  | succ links ih =>
      rw [readable_succ]
      by_cases fine : d.CanRead fs current
      · obtain ⟨more, rfl⟩ : ∃ more, fuel = more + 1 := ⟨fuel - 1, by omega⟩
        have going : Going size current out := ⟨by omega, by omega, fine.1.2⟩
        have startBelow := @copyStart_lt fs index first offsetInCluster inCluster
        have behind : (index + 1) * fs.clusterSize ≤ position := by
          refine Nat.le_trans (Nat.mul_le_mul_right _ ?_) (Nat.div_mul_le_self position fs.clusterSize)
          omega
        have whole : copySize fs size first offsetInCluster index out.length =
            fs.clusterSize - copyStart first offsetInCluster index := by
          apply Nat.min_eq_left
          rw [Nat.succ_mul] at behind
          omega
        have placed : (index + 1) * fs.clusterSize = offset +
            (out.length + copySize fs size first offsetInCluster index out.length) := by
          rw [whole, Nat.succ_mul]
          omega
        rw [readLoop_turn going fine.1.1 fine.2]
        by_cases read : d.transfers fs.sectorsPerCluster = true
        · rw [if_pos read, and_iff_right fine, and_iff_right read]
          apply ih
          · omega
          · rw [copied_length, ← placed, copyStart, if_neg (by omega), Nat.add_zero]
          · omega
          · rw [copied_length, ← placed]
            exact behind
          · rw [copied_length]
            omega
        · refine iff_of_false ?_ fun readable => read readable.2.1
          rw [if_neg read, readLoop_stop fun going => going.2.1 rfl, copied_length, ← placed]
          omega
      · refine iff_of_false ?_ fun readable => fine readable.1
        rw [readLoop_missing fine]
        omega

end Reach

section File

variable {file : FatFile} {offset : Nat}

/-- The size that the driver asks for after its check against the end of the file. -/
def clampedSize (fileSize offset size : Nat) : Nat :=
  if fileSize < u32 (offset + size) then fileSize - offset else size

theorem clampedSize_le {fileSize : Nat} (inside : offset < fileSize) (word : fileSize < 4294967296)
    (sizeWord : size < 4294967296) : clampedSize fileSize offset size ≤ size := by
  unfold clampedSize u32
  split <;> omega

theorem readFile_outside (outside : file.fileSize ≤ offset) :
    fat32ReadFile fs d file offset size = (0, [], d) := by
  rw [fat32ReadFile, if_pos outside]

theorem readFile_unbuffered (inside : offset < file.fileSize) (refused : d.memory 0 = false) :
    fat32ReadFile fs d file offset size = (-1, [], d.granted) := by
  rw [fat32ReadFile, if_neg (by omega), kmalloc_eq, refused]

theorem readFile_buffered (inside : offset < file.fileSize) (granted : d.memory 0 = true) :
    ∃ current index taken,
      fat32ReadFile fs d file offset size =
        readLoop fs (clampedSize file.fileSize offset size) (offset / fs.clusterSize)
          (offset % fs.clusterSize) (clampedSize file.fileSize offset size)
          (d.granted.advance taken) [] current index ∧
      (d.Seeks fs file.startCluster (offset / fs.clusterSize) →
        current = d.clusterAt fs file.startCluster (offset / fs.clusterSize) ∧
          index = offset / fs.clusterSize ∧ taken = offset / fs.clusterSize) ∧
      (¬ d.Seeks fs file.startCluster (offset / fs.clusterSize) → current = 0) := by
  obtain ⟨current, index, taken, sought, found, lost⟩ := @seekRead_spec fs d.granted
    (offset / fs.clusterSize) file.startCluster 0
  refine ⟨current, index, taken, ?_, fun seeks => ?_, lost⟩
  · rw [fat32ReadFile, if_neg (by omega), kmalloc_eq, granted]
    dsimp only
    rw [sought]
    rfl
  · obtain ⟨isCurrent, isIndex, isTaken⟩ := found seeks
    exact ⟨isCurrent, by omega, isTaken⟩

/-- A read hands out the next bytes of the walk from the offset on. -/
theorem readFile_bytes (positive : 0 < fs.sectorsPerCluster) :
    ∃ code count rest, fat32ReadFile fs d file offset size =
        (code, bytesAt (d.walkByte fs file.startCluster) offset count, rest) ∧
      (code = -1 ∨ code = int32 count) ∧
      count ≤ if file.fileSize ≤ offset then 0 else clampedSize file.fileSize offset size := by
  by_cases outside : file.fileSize ≤ offset
  · rw [readFile_outside outside, if_pos outside]
    exact ⟨0, 0, d, rfl, .inr rfl, Nat.le_refl 0⟩
  rw [if_neg outside]
  cases memory : d.memory 0 with
  | false =>
      rw [readFile_unbuffered (by omega) memory]
      exact ⟨-1, 0, d.granted, rfl, .inl rfl, Nat.zero_le _⟩
  | true =>
      obtain ⟨current, index, taken, result, found, lost⟩ :=
        @readFile_buffered fs d size file offset (by omega) memory
      rw [result]
      by_cases seeks : d.Seeks fs file.startCluster (offset / fs.clusterSize)
      · obtain ⟨isCurrent, isIndex, isTaken⟩ := found seeks
        have inCluster : offset % fs.clusterSize < fs.clusterSize :=
          Nat.mod_lt _ (Nat.mul_pos positive (by decide))
        obtain ⟨code, count, more, looped, bound, isCode⟩ :=
          @readLoop_bytes fs (d.granted.advance taken) current index
            (clampedSize file.fileSize offset size) (offset / fs.clusterSize)
            (offset % fs.clusterSize) [] file.startCluster offset inCluster
            (clampedSize file.fileSize offset size) (.inr (by rw [isCurrent, isIndex]; rfl))
            (by omega) (by
              intro _
              rw [isIndex, copyStart, if_pos rfl]
              exact Nat.div_add_mod' ..)
        rw [List.length_nil, Nat.zero_add] at bound isCode
        rw [Nat.max_eq_left (Nat.zero_le _)] at bound
        exact ⟨code, count, _, looped, isCode, bound⟩
      · rw [readLoop_stop fun going => going.2.1 (lost seeks)]
        exact ⟨_, 0, _, rfl, .inr rfl, Nat.zero_le _⟩

/-- The two images have the same transfers, memory and chains, and the same bytes up to the end
of the file. -/
structure SameInside (fs : Fat32Fs) (file : FatFile) (d other : Disk) : Prop where
  transfers : other.transfers = d.transfers
  memory : other.memory = d.memory
  links : other.link fs = d.link fs
  bytes : ∀ position < file.fileSize,
    other.walkByte fs file.startCluster position = d.walkByte fs file.startCluster position

theorem sameInside_seeks (same : SameInside fs file d other) (steps : Nat) :
    other.Seeks fs file.startCluster steps ↔ d.Seeks fs file.startCluster steps := by
  simp only [Disk.Seeks, Disk.SteadyFor, Disk.clusterAt, same.transfers, same.links]

theorem readFile_shape (same : SameInside fs file d other) :
    (fat32ReadFile fs other file offset size).1 = (fat32ReadFile fs d file offset size).1 ∧
      (fat32ReadFile fs other file offset size).2.1.length =
        (fat32ReadFile fs d file offset size).2.1.length := by
  by_cases outside : file.fileSize ≤ offset
  · rw [readFile_outside outside, readFile_outside outside]
    exact ⟨rfl, rfl⟩
  cases memory : d.memory 0 with
  | false =>
      rw [readFile_unbuffered (by omega) memory,
        readFile_unbuffered (by omega) (by rw [same.memory]; exact memory)]
      exact ⟨rfl, rfl⟩
  | true =>
      obtain ⟨current, index, taken, result, found, lost⟩ :=
        @readFile_buffered fs d size file offset (by omega) memory
      obtain ⟨current', index', taken', result', found', lost'⟩ :=
        @readFile_buffered fs other size file offset (by omega) (by rw [same.memory]; exact memory)
      rw [result, result']
      by_cases seeks : d.Seeks fs file.startCluster (offset / fs.clusterSize)
      · obtain ⟨isCurrent, isIndex, isTaken⟩ := found seeks
        obtain ⟨isCurrent', isIndex', isTaken'⟩ := found' ((sameInside_seeks same _).mpr seeks)
        rw [isCurrent, isCurrent', isIndex, isIndex', isTaken, isTaken', Disk.clusterAt, same.links]
        apply readLoop_shape
        · simp only [Disk.advance, Disk.granted, same.transfers]
        · exact same.links
        · rfl
      · have missing := lost seeks
        have missing' := lost' (mt (sameInside_seeks same _).mp seeks)
        rw [readLoop_stop fun going => going.2.1 missing,
          readLoop_stop fun going => going.2.1 missing']
        exact ⟨rfl, rfl⟩

/-- A read stays inside the file: it counts and copies no more than is left of the file and of
the buffer, and what is behind the end of the file makes no difference. -/
structure ReadsInside (fs : Fat32Fs) (d : Disk) (file : FatFile) (offset size : Nat) : Prop where
  count : (fat32ReadFile fs d file offset size).1 ≤ ((file.fileSize - offset : Nat) : Int)
  nothing : file.fileSize ≤ offset → (fat32ReadFile fs d file offset size).1 = 0
  copied : (fat32ReadFile fs d file offset size).2.1.length ≤ file.fileSize - offset
  buffer : (fat32ReadFile fs d file offset size).2.1.length ≤ size
  blind : ∀ other, SameInside fs file d other →
    (fat32ReadFile fs other file offset size).1 = (fat32ReadFile fs d file offset size).1 ∧
      (fat32ReadFile fs other file offset size).2.1 = (fat32ReadFile fs d file offset size).2.1

theorem readsInside_of_copied (positive : 0 < fs.sectorsPerCluster)
    (fileWord : file.fileSize < 4294967296) (sizeWord : size < 4294967296)
    (copied : (fat32ReadFile fs d file offset size).2.1.length ≤ file.fileSize - offset) :
    ReadsInside fs d file offset size := by
  obtain ⟨code, count, rest, result, isCode, few⟩ :=
    @readFile_bytes fs d size file offset positive
  have length : (fat32ReadFile fs d file offset size).2.1.length = count := by
    rw [result, bytesAt_length]
  refine ⟨?_, fun outside => ?_, copied, ?_, fun other same => ?_⟩
  · have counted := int32_le count
    rw [length] at copied
    rw [result]
    rcases isCode with failed | counts
    · rw [failed]
      omega
    · rw [counts]
      omega
  · rw [readFile_outside outside]
  · rw [length]
    refine Nat.le_trans few ?_
    split
    · exact Nat.zero_le _
    · exact clampedSize_le (by omega) fileWord sizeWord
  · obtain ⟨sameCode, sameLength⟩ := @readFile_shape fs d other size file offset same
    refine ⟨sameCode, ?_⟩
    obtain ⟨code', count', rest', result', _, _⟩ :=
      @readFile_bytes fs other size file offset positive
    have sameCount : count' = count := by
      rw [← length, ← sameLength, result', bytesAt_length]
    rw [result, result', sameCount]
    apply bytesAt_congr
    intro i below
    apply same.bytes
    rw [length] at copied
    omega

theorem copied_of_noWrap (positive : 0 < fs.sectorsPerCluster)
    (fits : offset + size < 4294967296) :
    (fat32ReadFile fs d file offset size).2.1.length ≤ file.fileSize - offset := by
  obtain ⟨code, count, rest, result, isCode, few⟩ :=
    @readFile_bytes fs d size file offset positive
  rw [result, bytesAt_length]
  refine Nat.le_trans few ?_
  rw [clampedSize, u32_eq_of_lt fits]
  split <;> [omega; split <;> omega]

/-- The first byte behind the file is read: the driver gets to the cluster of the offset, and
from there to the cluster behind the file. -/
def Disk.ReachesEnd (d : Disk) (fs : Fat32Fs) (file : FatFile) (offset : Nat) : Prop :=
  let first := offset / fs.clusterSize
  d.Seeks fs file.startCluster first ∧
    (d.advance first).Readable fs (d.clusterAt fs file.startCluster first)
      (file.fileSize / fs.clusterSize - first)

theorem copied_iff_of_wrap (positive : 0 < fs.sectorsPerCluster) (inside : offset < file.fileSize)
    (fileWord : file.fileSize < 4294967296) (sizeWord : size < 4294967296)
    (wraps : 4294967296 ≤ offset + size) (granted : d.memory 0 = true) :
    (fat32ReadFile fs d file offset size).2.1.length ≤ file.fileSize - offset ↔
      ¬ d.ReachesEnd fs file offset := by
  have kept : clampedSize file.fileSize offset size = size := by
    unfold clampedSize u32
    rw [if_neg (by omega)]
  obtain ⟨current, index, taken, result, found, lost⟩ :=
    @readFile_buffered fs d size file offset inside granted
  rw [kept] at result
  rw [result, ← Nat.not_lt, not_iff_not, Disk.ReachesEnd]
  by_cases seeks : d.Seeks fs file.startCluster (offset / fs.clusterSize)
  · obtain ⟨isCurrent, isIndex, isTaken⟩ := found seeks
    have ordered := Nat.div_le_div_right (c := fs.clusterSize) (Nat.le_of_lt inside)
    rw [and_iff_right seeks, isCurrent, isIndex, isTaken]
    have reaches := @readLoop_reaches fs (d.granted.advance (offset / fs.clusterSize))
      (d.clusterAt fs file.startCluster (offset / fs.clusterSize)) (offset / fs.clusterSize) size
      (offset / fs.clusterSize) (offset % fs.clusterSize) size [] offset file.fileSize
      (Nat.mod_lt _ (Nat.mul_pos positive (by decide)))
      (file.fileSize / fs.clusterSize - offset / fs.clusterSize) (Nat.le_refl _)
      (by rw [copyStart, if_pos rfl]; exact Nat.div_add_mod' ..) (by omega) (by
        rw [List.length_nil]
        omega) (by omega) (by omega)
    rw [← Nat.sub_lt_iff_lt_add' (Nat.le_of_lt inside)] at reaches
    exact reaches
  · rw [readLoop_stop fun going => going.2.1 (lost seeks)]
    exact iff_of_false (Nat.not_lt_zero _) fun reached => seeks reached.1

theorem reads_inside_iff (positive : 0 < fs.sectorsPerCluster)
    (fileWord : file.fileSize < 4294967296) (sizeWord : size < 4294967296) :
    ReadsInside fs d file offset size ↔
      offset + size < 4294967296 ∨ file.fileSize ≤ offset ∨ d.memory 0 = false ∨
        ¬ d.ReachesEnd fs file offset := by
  have byCopied : ReadsInside fs d file offset size ↔
      (fat32ReadFile fs d file offset size).2.1.length ≤ file.fileSize - offset :=
    ⟨ReadsInside.copied, readsInside_of_copied positive fileWord sizeWord⟩
  rw [byCopied]
  by_cases fits : offset + size < 4294967296
  · exact iff_of_true (copied_of_noWrap positive fits) (.inl fits)
  by_cases outside : file.fileSize ≤ offset
  · rw [readFile_outside outside]
    exact iff_of_true (Nat.zero_le _) (.inr (.inl outside))
  cases granted : d.memory 0 with
  | false =>
      rw [readFile_unbuffered (by omega) granted]
      exact iff_of_true (Nat.zero_le _) (.inr (.inr (.inl rfl)))
  | true =>
      rw [copied_iff_of_wrap positive (by omega) fileWord sizeWord (by omega) granted]
      simp [fits, outside]

/-- Cluster 2 is the last one of its chain. -/
def lastClusterDisk : Disk :=
  { sectors := fun lba =>
      if lba = 1 then putBytes (fun _ => 0) 8 (le32 0x0FFFFFFF) else fun _ => 0x41
    transfers := fun _ => true
    memory := fun _ => true }

/-- The sum of the offset 1 and the largest size is 0, so a file of two bytes is read on to the
end of its cluster. -/
theorem read_wraps_past_file : ¬ ReadsInside emptyVolume lastClusterDisk ⟨2, 2⟩ 1 4294967295 := by
  intro inside
  have copied := inside.copied
  rw [copied_iff_of_wrap (by decide) (by decide) (by decide) (by decide) (by decide) rfl] at copied
  apply copied
  have steady : lastClusterDisk.Steady := fun _ => rfl
  refine ⟨⟨steady.for _, fun step below => absurd below (Nat.not_lt_zero step)⟩, ?_⟩
  exact readable_zero.mpr ⟨by decide, steady.for _⟩

theorem reads_inside_short : ReadsInside emptyVolume lastClusterDisk ⟨2, 2⟩ 1 4294967294 :=
  (reads_inside_iff (by decide) (by decide) (by decide)).mpr (.inl (by decide))

end File

end ZurichOS
