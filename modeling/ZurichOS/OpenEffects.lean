import ZurichOS.FileTree
import ZurichOS.SyscallFsCore

/-!
What a `sys_open` that fails leaves behind: the file it created, where the creation went well
and only a later step failed.
-/

namespace ZurichOS

open ByteBuffer Faulting

section Open

variable {Files Fault : Type} {calls : VfsCalls Files Fault} {s t : SyscallState Files}
  {path filename : List UInt8} {flags parent : Nat} {after : Files}

/-- The open comes to a `vfs_create` that succeeds, with these files behind it. -/
def CreatesFile (calls : VfsCalls Files Fault) (files : Files) (path : List UInt8) (flags parent : Nat)
    (filename : List UInt8) (after : Files) : Prop :=
  flags &&& vfsOCreat ≠ 0 ∧ ∃ looked placed, calls.lookup path files = .ok (none, looked) ∧
    calls.placeFor path looked = .ok (some (parent, filename), placed) ∧
    calls.create parent filename vfsFile placed = .ok (0, after)

/-- `vfs_finddir` finds the name, and not on a directory. -/
def FindsFile (calls : VfsCalls Files Fault) (files : Files) (dir : Nat) (name : List UInt8) : Prop :=
  ∃ node found asked, calls.finddir dir name files = .ok (some node, found) ∧
    calls.isDirectory node found = .ok (false, asked)

def HasFreeFd (s : Processes) : Prop := (allocFd s).1 ≠ none

/-- A file that the open creates is found under its name, and a descriptor is free for it. -/
def OpenCareful (calls : VfsCalls Files Fault) (m : Mm) (memory : Nat → Nat) (path flags : Nat)
    (s : SyscallState Files) : Prop :=
  (validateUserString m memory path vfsMaxPath).1 = true → ∀ parent filename after,
    CreatesFile calls s.files (userString memory path vfsMaxPath) flags parent filename after →
      FindsFile calls after parent filename ∧ HasFreeFd s.ipc.processes

/-- If the call failed, it created and truncated no file and left the descriptors alone. -/
def OpenUndone (s : SyscallState Files) (result : Int) (t : SyscallState Files) : Prop :=
  result < 0 → t.effects = s.effects ∧ t.ipc = s.ipc

theorem CreatesFile.unique {files : Files} {other : Nat} {name : List UInt8} {behind : Files}
    (creates : CreatesFile calls files path flags parent filename after)
    (again : CreatesFile calls files path flags other name behind) :
    other = parent ∧ name = filename ∧ behind = after := by
  obtain ⟨_, looked, placed, isLooked, isPlaced, isCreated⟩ := creates
  obtain ⟨_, looked', placed', isLooked', isPlaced', isCreated'⟩ := again
  cases isLooked.symm.trans isLooked'
  cases isPlaced.symm.trans isPlaced'
  cases isCreated.symm.trans isCreated'
  exact ⟨rfl, rfl, rfl⟩

theorem allocFd_none (s : Processes) (full : (allocFd s).1 = none) : (allocFd s).2 = s := by
  unfold allocFd at full ⊢
  cases current : processCurrent s with
  | none => rfl
  | some i =>
      simp only [current] at full ⊢
      split at full
      · rfl
      · cases full

theorem allocFd_current {s : Processes} {fd : Nat} (got : (allocFd s).1 = some fd) :
    (processCurrent (allocFd s).2).isSome = true := by
  unfold allocFd at got ⊢
  cases current : processCurrent s with
  | none =>
      rw [current] at got
      cases got
  | some i =>
      simp only [current] at got ⊢
      split at got
      · cases got
      · dsimp only
        rw [processCurrent_set (by rfl) (by rfl), current]
        rfl

theorem truncateOpened_ipc {node : Nat} (ran : calls.truncateOpened node flags s = .ok ((), t)) :
    t.ipc = s.ipc := by
  unfold VfsCalls.truncateOpened at ran
  split at ran
  · obtain ⟨_, u, cut, recorded⟩ := bind_ok.mp ran
    obtain ⟨_, _, rfl⟩ := onFiles_ok.mp cut
    rw [recordEffect_ok.mp recorded]
  · obtain ⟨_, rfl⟩ := pure_ok.mp ran
    rfl

theorem fillDescriptor_ok {fd node i : Nat} {result : Int}
    (current : processCurrent s.ipc.processes = some i)
    (ran : calls.fillDescriptor fd node flags s = .ok (result, t)) :
    result = fd ∧ ∃ length, t.ipc.processes = s.ipc.processes.set i
      ((s.ipc.processes.table i).setFd fd
        { (s.ipc.processes.table i).fdTable fd with
          node := some node, flags, offset := if flags &&& vfsOAppend ≠ 0 then length else 0 }) := by
  obtain ⟨running, u, found, ran⟩ := bind_ok.mp ran
  obtain ⟨isRunning, rfl⟩ := onProcesses_ok.mp found
  obtain rfl : running = some i := isRunning.symm.trans current
  obtain ⟨offset, v, measured, ran⟩ := bind_ok.mp ran
  obtain ⟨files, isOffset, rfl⟩ := onFiles_ok.mp measured
  obtain ⟨_, w, filled, ran⟩ := bind_ok.mp ran
  obtain ⟨_, rfl⟩ := onProcesses_ok.mp filled
  obtain ⟨_, x, opened, ran⟩ := bind_ok.mp ran
  obtain ⟨_, _, rfl⟩ := onFiles_ok.mp opened
  obtain ⟨rfl, rfl⟩ := pure_ok.mp ran
  refine ⟨rfl, offset, ?_⟩
  split at isOffset
  case isTrue append => rw [if_pos append]; rfl
  case isFalse plain =>
    rw [if_neg plain, (pure_ok.mp isOffset).1]
    rfl

/-- With a node at hand, the call does to the descriptors what `sys_open` does without its
files; it fails for a directory or for want of a descriptor only, and then changes nothing. -/
theorem openFound_cases {node : Nat} {result : Int}
    (ran : calls.openFound node flags s = .ok (result, t)) :
    (∃ directory length, sysOpen s.ipc.processes true (some ⟨node, directory, length⟩) flags =
        (result, t.ipc.processes)) ∧
      ((result < 0 ∧ t.effects = s.effects ∧ t.ipc = s.ipc ∧
          ¬ ((∃ asked, calls.isDirectory node s.files = .ok (false, asked)) ∧
            HasFreeFd s.ipc.processes)) ∨
        0 ≤ result ∧ (∃ asked, calls.isDirectory node s.files = .ok (false, asked)) ∧
          HasFreeFd s.ipc.processes) := by
  obtain ⟨directory, u, asked, ran⟩ := bind_ok.mp ran
  obtain ⟨files, isAsked, rfl⟩ := onFiles_ok.mp asked
  cases directory with
  | true =>
      rw [if_pos rfl] at ran
      obtain ⟨rfl, rfl⟩ := pure_ok.mp ran
      refine ⟨⟨true, 0, rfl⟩, .inl ⟨by decide, rfl, rfl, ?_⟩⟩
      rintro ⟨⟨_, isFile⟩, _⟩
      cases isAsked.symm.trans isFile
  | false =>
      rw [if_neg Bool.false_ne_true] at ran
      obtain ⟨fd, v, allocated, ran⟩ := bind_ok.mp ran
      obtain ⟨isFd, rfl⟩ := onProcesses_ok.mp allocated
      have isFd : (allocFd s.ipc.processes).1 = fd := isFd
      obtain ⟨after, both⟩ : ∃ after, allocFd s.ipc.processes = (fd, after) := ⟨_, Prod.ext isFd rfl⟩
      cases fd with
      | none =>
          obtain ⟨rfl, rfl⟩ := pure_ok.mp ran
          refine ⟨⟨false, 0, ?_⟩, .inl ⟨by decide, rfl, ?_, fun free => free.2 isFd⟩⟩
          · simp only [sysOpen, both]
            rfl
          · dsimp only
            rw [allocFd_none _ isFd]
            rfl
      | some fd =>
          have free : HasFreeFd s.ipc.processes := by
            rw [HasFreeFd, isFd]
            exact Option.some_ne_none fd
          obtain ⟨_, w, truncated, ran⟩ := bind_ok.mp ran
          have same : w.ipc.processes = after := by
            rw [truncateOpened_ipc truncated]
            exact congrArg Prod.snd both
          obtain ⟨i, current⟩ := Option.isSome_iff_exists.mp (allocFd_current isFd)
          rw [both] at current
          obtain ⟨rfl, length, filled⟩ := fillDescriptor_ok (same ▸ current) ran
          refine ⟨⟨false, length, ?_⟩, .inr ⟨Int.natCast_nonneg fd, ⟨files, isAsked⟩, free⟩⟩
          rw [filled, same]
          simp only [sysOpen, both, current]
          rfl

/-- The node is found or missing with nothing done, or it is what `vfs_finddir` says after a
creation. -/
theorem openNode_cases {node : Option Nat}
    (ran : calls.openNode path flags s = .ok (node, t)) :
    (t.effects = s.effects ∧ t.ipc = s.ipc ∧
        ∀ parent filename after, ¬ CreatesFile calls s.files path flags parent filename after) ∨
      ∃ parent filename after, CreatesFile calls s.files path flags parent filename after ∧
        t.effects = .created parent filename :: s.effects ∧ t.ipc = s.ipc ∧
        calls.finddir parent filename after = .ok (node, t.files) := by
  obtain ⟨first, u, looked, ran⟩ := bind_ok.mp ran
  obtain ⟨files, isLooked, rfl⟩ := onFiles_ok.mp looked
  cases first with
  | some found =>
      obtain ⟨_, rfl⟩ := pure_ok.mp ran
      refine .inl ⟨rfl, rfl, fun parent filename after creates => ?_⟩
      obtain ⟨_, _, _, isMissing, _⟩ := creates
      cases isLooked.symm.trans isMissing
  | none =>
      dsimp only at ran
      split at ran
      case isFalse keep =>
        obtain ⟨_, rfl⟩ := pure_ok.mp ran
        exact .inl ⟨rfl, rfl, fun parent filename after creates => keep creates.1⟩
      case isTrue creat =>
        obtain ⟨place, u, placed, ran⟩ := bind_ok.mp ran
        obtain ⟨files', isPlaced, rfl⟩ := onFiles_ok.mp placed
        cases place with
        | none =>
            obtain ⟨_, rfl⟩ := pure_ok.mp ran
            refine .inl ⟨rfl, rfl, fun parent filename after creates => ?_⟩
            obtain ⟨_, _, _, isLooked', isPlaced', _⟩ := creates
            cases isLooked.symm.trans isLooked'
            cases isPlaced.symm.trans isPlaced'
        | some place =>
            obtain ⟨parent, filename⟩ := place
            obtain ⟨result, u, created, ran⟩ := bind_ok.mp ran
            obtain ⟨after, isCreated, rfl⟩ := onFiles_ok.mp created
            split at ran
            case isTrue done =>
              subst done
              obtain ⟨_, u, recorded, ran⟩ := bind_ok.mp ran
              obtain rfl := recordEffect_ok.mp recorded
              obtain ⟨files'', isFound, rfl⟩ := onFiles_ok.mp ran
              exact .inr ⟨parent, filename, after,
                ⟨creat, files, files', isLooked, isPlaced, isCreated⟩, rfl, rfl, isFound⟩
            case isFalse failed =>
              obtain ⟨_, rfl⟩ := pure_ok.mp ran
              refine .inl ⟨rfl, rfl, fun other name behind creates => ?_⟩
              obtain ⟨_, _, _, isLooked', isPlaced', isCreated'⟩ := creates
              cases isLooked.symm.trans isLooked'
              cases isPlaced.symm.trans isPlaced'
              cases isCreated.symm.trans isCreated'
              exact failed rfl

/-- A call that fails has no effect exactly if a file that it creates is found again and gets a
descriptor. -/
theorem sys_open_undone_iff {m : Mm} {memory : Nat → Nat} {path flags : Nat} {result : Int}
    (ran : calls.sysOpen m memory path flags s = .ok (result, t)) :
    OpenUndone s result t ↔ OpenCareful calls m memory path flags s := by
  unfold VfsCalls.sysOpen at ran
  unfold OpenUndone OpenCareful
  split at ran
  case isTrue refused =>
    obtain ⟨_, rfl⟩ := pure_ok.mp ran
    exact iff_of_true (fun _ => ⟨rfl, rfl⟩) fun valid => absurd (refused.symm.trans valid) (by decide)
  case isFalse valid =>
    have valid : (validateUserString m memory path vfsMaxPath).1 = true := Bool.not_eq_false _ ▸ valid
    obtain ⟨node, u, opened, ran⟩ := bind_ok.mp ran
    rcases openNode_cases opened with ⟨effects, ipc, nothing⟩ |
      ⟨parent, filename, after, creates, effects, ipc, found⟩
    · refine iff_of_true (fun failed => ?_) fun _ parent filename after creates =>
        absurd creates (nothing parent filename after)
      cases node with
      | none =>
          obtain ⟨_, rfl⟩ := pure_ok.mp ran
          exact ⟨effects, ipc⟩
      | some node =>
          rcases (openFound_cases ran).2 with ⟨_, same, sameIpc, _⟩ | ⟨opened, _⟩
          · exact ⟨same.trans effects, sameIpc.trans ipc⟩
          · omega
    · have grown : u.effects ≠ s.effects := by
        rw [effects]
        exact List.cons_ne_self _ _
      have careful : (FindsFile calls after parent filename ∧ HasFreeFd s.ipc.processes) ↔
          ((validateUserString m memory path vfsMaxPath).1 = true → ∀ parent filename after,
            CreatesFile calls s.files (userString memory path vfsMaxPath) flags parent filename
              after → FindsFile calls after parent filename ∧ HasFreeFd s.ipc.processes) := by
        refine ⟨fun both _ other name behind again => ?_, fun all => all valid _ _ _ creates⟩
        obtain ⟨rfl, rfl, rfl⟩ := creates.unique again
        exact both
      rw [← careful]
      cases node with
      | none =>
          obtain ⟨rfl, rfl⟩ := pure_ok.mp ran
          refine iff_of_false (fun undone => grown (undone (by decide)).1) ?_
          rintro ⟨⟨_, _, _, isFound, _⟩, _⟩
          cases found.symm.trans isFound
      | some node =>
          have finds : FindsFile calls after parent filename ↔
              ∃ asked, calls.isDirectory node u.files = .ok (false, asked) := by
            constructor
            · rintro ⟨_, _, asked, isFound, isFile⟩
              cases found.symm.trans isFound
              exact ⟨asked, isFile⟩
            · rintro ⟨asked, isFile⟩
              exact ⟨node, u.files, asked, found, isFile⟩
          rw [finds, ← ipc]
          rcases (openFound_cases ran).2 with ⟨failed, same, _, missing⟩ | ⟨opened, isFile, free⟩
          · exact iff_of_false (fun undone => grown (same.symm.trans (undone failed).1)) missing
          · exact iff_of_true (fun failed => by omega) ⟨isFile, free⟩

end Open

/-- A file `/f`, named at the start of a user page. -/
def newFileName (addr : Nat) : Nat :=
  if addr = 0x40000000 then 0x2F else if addr = 0x40000001 then 0x66 else 0

/-- The shell has an empty tree and no descriptor left. -/
def crowdedShell : SyscallState FileTree :=
  { files := match FileTree.plantRoot startedTree with
      | .ok (_, planted) => planted
      | .error _ => startedTree
    ipc := { pipeBoot with
      processes := processInit.set 1
        { processInit.table 1 with fdTable := fun _ => ⟨some 0, 0, 0, true, -1⟩ } }
    console := [], effects := [] }

def openNewFile : Except FileFault (Int × SyscallState FileTree) :=
  (FileTree.calls fun _ _ _ => (0, [])).sysOpen onePage newFileName 0x40000000 vfsOCreat crowdedShell

theorem openNewFile_run :
    ∃ t, openNewFile = .ok (-24, t) ∧ t.effects ≠ crowdedShell.effects := by
  have shape : (openNewFile.toOption.map fun r => (r.1, r.2.effects.length)) = some (-24, 1) := by
    decide +kernel
  cases ran : openNewFile with
  | error fault =>
      rw [ran] at shape
      cases shape
  | ok result =>
      obtain ⟨number, t⟩ := result
      rw [ran] at shape
      obtain ⟨rfl, one⟩ := Prod.mk.inj (Option.some.inj shape)
      refine ⟨t, rfl, fun none => ?_⟩
      rw [none] at one
      cases one

theorem sys_open_undone_crowded :
    ¬ OpenCareful (FileTree.calls fun _ _ _ => (0, [])) onePage newFileName 0x40000000 vfsOCreat
      crowdedShell := by
  obtain ⟨t, ran, grown⟩ := openNewFile_run
  exact fun careful => grown ((sys_open_undone_iff ran).mpr careful (by decide)).1

/-- The open fails for want of a descriptor and leaves the new file behind. -/
theorem sys_open_leaves_file : ¬ ∀ (m : Mm) (memory : Nat → Nat) (path flags : Nat)
    (s t : SyscallState FileTree) (result : Int),
      (FileTree.calls fun _ _ _ => (0, [])).sysOpen m memory path flags s = .ok (result, t) →
        OpenUndone s result t := by
  intro undone
  obtain ⟨t, ran, grown⟩ := openNewFile_run
  exact grown (undone _ _ _ _ _ _ _ ran (by decide)).1

namespace FileTree

variable {s t : FileTree} {answer : Nat → Nat → Nat → Int × List UInt8} {parent : Nat}
  {name : List UInt8}

/-- In a tree of ramfs the file that was created is found again exactly if its name is not cut. -/
theorem created_found_iff (sound : s.Sound)
    (created : (calls answer).create parent name vfsFile s = .ok (0, t))
    {found : Option Nat} {u : FileTree} (looked : (calls answer).finddir parent name t = .ok (found, u)) :
    FindsFile (calls answer) t parent name ↔ (cString name).length < vfsMaxName := by
  obtain ⟨vfs, v, asked, created⟩ := bind_ok.mp created
  obtain ⟨object, held, isVfs, rfl⟩ := nodeAt_ok.mp asked
  split at created
  · cases (pure_ok.mp created).1
  cases table : vfs.table .create with
  | none =>
      simp only [table] at created
      cases (pure_ok.mp created).1
  | some function =>
      cases function
      simp only [table] at created
      rcases ramfsCreate_ok sound created with ⟨failed, _⟩ | ⟨_, dir, child, creates⟩
      · exact absurd rfl failed
      have isChild := creates.born.after_child sound
      constructor
      · rintro ⟨node, after, _, isFound, _⟩
        rcases (creates.find sound isFound).2 with ⟨nothing, _⟩ | ⟨_, short⟩
        · cases nothing
        · exact short
      · intro short
        obtain ⟨rfl, ⟨_, long⟩ | ⟨rfl, _⟩⟩ := creates.find sound looked
        · exact absurd short long
        refine ⟨s.allocated, t, t, looked, bind_ok.mpr ⟨child.vfs, t, ?_, pure_ok.mpr ⟨?_, rfl⟩⟩⟩
        · exact nodeAt_ok.mpr ⟨_, isChild, rfl, rfl⟩
        · rw [VfsNode.isDirectory, creates.flags]
          decide

end FileTree

end ZurichOS
