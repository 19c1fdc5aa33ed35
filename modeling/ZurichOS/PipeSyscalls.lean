import ZurichOS.FileTree
import ZurichOS.Pipe
import ZurichOS.SyscallFsCore

/-!
Pipes behind the system calls.  The descriptors of a pipe have no node, so `sys_read` and
`sys_write` refuse them, and nothing that a process writes comes out again.
-/

namespace ZurichOS

open Faulting

/-- A `sys_write` on the write end of a pipe, or a `sys_read` on its read end. -/
inductive PipeIo where
  | write (buf : Nat) (data : List UInt8)
  | read (buf count : Nat)

def PipeIo.Valid (m : Mm) : PipeIo → Prop
  | .write buf data => validateUserPtr m buf data.length = true
  | .read buf count => validateUserPtr m buf count = true

/-- What `pipe_write` takes of a write at this moment. -/
def takenBy (s : PipeSystem) (writeFd : Nat) : PipeIo → List UInt8
  | .write _ data => data.take (pipeWrite s writeFd data).1.toNat
  | .read _ _ => []

/-- A call with the bytes that the pipe takes of it, and with what the call returns. -/
structure PipeRecord where
  call : PipeIo
  taken : List UInt8
  result : Int
  bytes : List UInt8

/-- The bytes that were read are the first of those that the pipe took, and a read behind a
write of which the pipe took some returns at least one byte. -/
structure PipeLaw (records : List PipeRecord) : Prop where
  order : records.flatMap PipeRecord.bytes <+: records.flatMap PipeRecord.taken
  prompt : ∀ front first second rest, records = front ++ first :: second :: rest →
    first.taken ≠ [] → ∀ buf count, second.call = .read buf count → 0 < count → 1 ≤ second.result

/-- No read of some bytes comes directly behind a write of some bytes. -/
def NeverReadBack (ios : List PipeIo) : Prop :=
  ∀ front rest buf data buf' count, ios = front ++ .write buf data :: .read buf' count :: rest →
    data = [] ∨ count = 0

section Calls

variable {Files Fault : Type} (calls : VfsCalls Files Fault) (m : Mm) (keys : Nat → List UInt8)
  (readFd writeFd : Nat)

def pipeIo : PipeIo → SyscallProgram Files Fault (Int × List UInt8)
  | .write buf data => do
      let result ← calls.sysWrite m writeFd buf data
      pure (result, [])
  | .read buf count => calls.sysRead m keys readFd buf count

def pipeRecords : List PipeIo → SyscallProgram Files Fault (List PipeRecord)
  | [] => pure []
  | call :: rest => do
      let taken ← modifyGet fun s => (takenBy s.ipc writeFd call, s)
      let (result, bytes) ← pipeIo calls m keys readFd writeFd call
      let later ← pipeRecords rest
      pure ({ call, taken, result, bytes } :: later)

end Calls

/-- The two ends of a pipe that is empty and open, in the table of the current process. -/
structure PipeEnds (s : PipeSystem) (readFd writeFd : Nat) : Prop where
  high : 3 ≤ readFd ∧ 3 ≤ writeFd
  reader : ∃ i entry, openDescriptor s readFd = some (i, entry) ∧ entry.node = none
  writer : ∃ i entry, openDescriptor s writeFd = some (i, entry) ∧ entry.node = none
  takes : ∀ data, data ≠ [] → 0 < (pipeWrite s writeFd data).1

/-- What the call returns: nothing happens for an empty buffer, and any other is refused. -/
def PipeIo.answer : PipeIo → Int
  | .write _ data => if data = [] then 0 else -9
  | .read _ count => if count = 0 then 0 else -9

section Ends

variable {s created : PipeSystem} {readFd writeFd : Nat}

theorem pipePut_some {pipe : Pipe} (room : pipe.count < pipeBufSize) {data : List UInt8}
    (some : data ≠ []) : 0 < (pipePut pipe data).1 := by
  cases data with
  | nil => exact absurd rfl some
  | cons byte rest =>
      rw [pipePut, if_pos room]
      exact Nat.succ_pos _

theorem openDescriptor_set {i : Nat} {proc : Process} {fd : Nat}
    (current : processCurrent s.processes = some i) (state : proc.state = (s.processes.table i).state)
    (pid : proc.pid = (s.processes.table i).pid) (below : fd < maxFdsPerProc)
    (inUse : (proc.fdTable fd).inUse = true) :
    openDescriptor (s.setProcess i proc) fd = some (i, proc.fdTable fd) := by
  have running : processCurrent (s.processes.set i proc) = some i :=
    (processCurrent_set state pid).trans current
  have table : (s.processes.set i proc).table i = proc := by simp [Processes.set]
  have range : ¬ ((fd : Int) < 0 ∨ (maxFdsPerProc : Int) ≤ fd) := by omega
  simp only [openDescriptor, PipeSystem.setProcess, running, table, if_neg range,
    Int.toNat_natCast, inUse, if_true]

theorem pipeCreate_ends (made : pipeCreate s = (0, some (readFd, writeFd), created)) :
    PipeEnds created readFd writeFd := by
  unfold pipeCreate at made
  split at made
  · cases made
  rename_i id slot
  split at made
  · cases made
  rename_i i current
  dsimp only at made
  split at made
  · rename_i first second more found
    obtain ⟨⟨readLow, readHigh, _⟩, ⟨writeLow, writeHigh, _⟩, apart⟩ := freeDescriptors_two found
    cases made
    let pipe : Pipe :=
      { Pipe.zero with inUse := true, readers := 1, writers := 1, readFd, writeFd }
    let proc := ((s.processes.table i).setFd readFd
      (((s.processes.table i).fdTable readFd).reader id)).setFd writeFd
        (((s.processes.table i).fdTable writeFd).writer id)
    have isReader : proc.fdTable readFd = ((s.processes.table i).fdTable readFd).reader id := by
      simp [proc, Process.setFd, apart.symm]
    have isWriter : proc.fdTable writeFd = ((s.processes.table i).fdTable writeFd).writer id := by
      simp [proc, Process.setFd]
    have reader : openDescriptor ((s.setPipe id pipe).setProcess i proc) readFd =
        some (i, proc.fdTable readFd) :=
      openDescriptor_set current rfl rfl readHigh (by rw [isReader]; rfl)
    have writer : openDescriptor ((s.setPipe id pipe).setProcess i proc) writeFd =
        some (i, proc.fdTable writeFd) :=
      openDescriptor_set current rfl rfl writeHigh (by rw [isWriter]; rfl)
    rw [isReader] at reader
    rw [isWriter] at writer
    refine ⟨⟨readLow, writeLow⟩, ⟨i, _, reader, rfl⟩, ⟨i, _, writer, rfl⟩, fun data some => ?_⟩
    have bound := List.mem_range.mp (List.mem_of_find?_eq_some slot)
    have range : ¬ ((id : Int) < 0 ∨ (maxPipes : Int) ≤ id) := by omega
    change 0 < (pipeWrite ((s.setPipe id pipe).setProcess i proc) writeFd data).1
    simp only [pipeWrite, writer, FdEntry.writer, if_neg range, Int.toNat_natCast]
    simp only [PipeSystem.setProcess, PipeSystem.setPipe, Function.update_self, pipe]
    exact Int.natCast_pos.mpr (pipePut_some (show 0 < pipeBufSize by decide) some)
  · cases made

end Ends

section Run

variable {Files Fault : Type} (calls : VfsCalls Files Fault) {m : Mm} (keys : Nat → List UInt8)
  {s : SyscallState Files} {readFd writeFd : Nat}

theorem pipeIo_answer (ends : PipeEnds s.ipc readFd writeFd) {call : PipeIo} (valid : call.Valid m) :
    pipeIo calls m keys readFd writeFd call s = .ok ((call.answer, []), s) := by
  cases call with
  | write buf data =>
      refine bind_ok.mpr ⟨PipeIo.answer (.write buf data), s, ?_, rfl⟩
      have valid : ¬ validateUserPtr m buf data.length = false := by
        rw [PipeIo.Valid] at valid
        simp [valid]
      have file : ¬ (writeFd = 1 ∨ writeFd = 2) := by
        have := ends.high.2
        omega
      obtain ⟨i, entry, found, node⟩ := ends.writer
      rw [VfsCalls.sysWrite, PipeIo.answer]
      by_cases empty : data = []
      · rw [if_pos empty, if_pos (by simp [empty])]
        rfl
      · rw [if_neg empty, if_neg (by simpa using empty), if_neg valid, if_neg file]
        refine bind_ok.mpr ⟨some (i, entry), s, modifyGet_ok.mpr ⟨found, rfl⟩, ?_⟩
        simp only [node]
        rfl
  | read buf count =>
      have valid : ¬ validateUserPtr m buf count = false := by
        rw [PipeIo.Valid] at valid
        simp [valid]
      have file : ¬ readFd = 0 := by
        have := ends.high.1
        omega
      obtain ⟨i, entry, found, node⟩ := ends.reader
      rw [pipeIo, VfsCalls.sysRead, PipeIo.answer]
      by_cases empty : count = 0
      · rw [if_pos empty, if_pos empty]
        rfl
      · rw [if_neg empty, if_neg empty, if_neg valid, if_neg file]
        refine bind_ok.mpr ⟨some (i, entry), s, modifyGet_ok.mpr ⟨found, rfl⟩, ?_⟩
        simp only [node]
        rfl

def pipeRecord (s : PipeSystem) (writeFd : Nat) (call : PipeIo) : PipeRecord :=
  { call, taken := takenBy s writeFd call, result := call.answer, bytes := [] }

theorem pipeRecords_run (ends : PipeEnds s.ipc readFd writeFd) {ios : List PipeIo}
    (valid : ∀ call ∈ ios, call.Valid m) :
    pipeRecords calls m keys readFd writeFd ios s =
      .ok (ios.map (pipeRecord s.ipc writeFd), s) := by
  induction ios with
  | nil => rfl
  | cons call rest ih =>
      have first := pipeIo_answer calls keys ends (valid call List.mem_cons_self)
      have later := ih fun other member => valid other (List.mem_cons_of_mem _ member)
      refine bind_ok.mpr ⟨takenBy s.ipc writeFd call, s, modifyGet_ok.mpr ⟨rfl, rfl⟩, ?_⟩
      refine bind_ok.mpr ⟨(call.answer, []), s, first, ?_⟩
      exact bind_ok.mpr ⟨_, s, later, rfl⟩

theorem taken_ne_nil (ends : PipeEnds s.ipc readFd writeFd) {call : PipeIo} :
    takenBy s.ipc writeFd call ≠ [] ↔ ∃ buf data, call = .write buf data ∧ data ≠ [] := by
  cases call with
  | read buf count =>
      refine iff_of_false (fun some => some rfl) ?_
      rintro ⟨_, _, isWrite, _⟩
      cases isWrite
  | write buf data =>
      constructor
      · intro some
        refine ⟨buf, data, rfl, fun empty => some ?_⟩
        rw [takenBy, empty, List.take_nil]
      · rintro ⟨_, _, isWrite, some⟩
        cases isWrite
        have taken := ends.takes data some
        rw [takenBy, Ne, List.take_eq_nil_iff]
        rintro (none | empty)
        · omega
        · exact some empty

theorem pipeLaw_iff (ends : PipeEnds s.ipc readFd writeFd) (ios : List PipeIo) :
    PipeLaw (ios.map (pipeRecord s.ipc writeFd)) ↔ NeverReadBack ios := by
  constructor
  · intro law front rest buf data buf' count shape
    by_contra both
    obtain ⟨some, wants⟩ := not_or.mp both
    have prompt := law.prompt (front.map (pipeRecord s.ipc writeFd))
      (pipeRecord s.ipc writeFd (.write buf data)) (pipeRecord s.ipc writeFd (.read buf' count))
      (rest.map (pipeRecord s.ipc writeFd)) (by rw [shape]; simp)
      ((taken_ne_nil ends).mpr ⟨buf, data, rfl, some⟩) buf' count rfl (Nat.pos_of_ne_zero wants)
    have refused : (pipeRecord s.ipc writeFd (.read buf' count)).result = -9 := if_neg wants
    rw [refused] at prompt
    omega
  · intro never
    constructor
    · have nothing : (ios.map (pipeRecord s.ipc writeFd)).flatMap PipeRecord.bytes = [] := by
        simp [List.flatMap_eq_nil_iff, pipeRecord]
      rw [nothing]
      exact List.nil_prefix
    · intro front first second rest shape taken buf count isRead wants
      obtain ⟨before, after, rfl, _, tail⟩ := List.map_eq_append_iff.mp shape
      obtain ⟨call, more, rfl, rfl, behind⟩ := List.map_eq_cons_iff.mp tail
      obtain ⟨next, later, rfl, rfl, _⟩ := List.map_eq_cons_iff.mp behind
      obtain ⟨buf', data, rfl, some⟩ := (taken_ne_nil ends).mp taken
      obtain rfl : next = .read buf count := isRead
      rcases never before later buf' data buf count rfl with empty | none
      · exact absurd empty some
      · omega

theorem sysPipe_ends {pipefd : Nat} {before created : PipeSystem}
    (made : sysPipe m before pipefd = (0, some (readFd, writeFd), created)) :
    PipeEnds created readFd writeFd := by
  unfold sysPipe at made
  split at made
  · cases made
  · exact pipeCreate_ends made

end Run

def shellState : SyscallState FileTree :=
  { files := startedTree, ipc := pipeBoot, console := [], effects := [] }

def writeThenRead : List PipeIo := [.write 0x40000100 [7], .read 0x40000200 1]

def shellPipe : PipeSystem := (sysPipe onePage pipeBoot 0x40000000).2.2

theorem shellPipe_made : sysPipe onePage shellState.ipc 0x40000000 = (0, some (3, 4), shellPipe) := by
  have result : ((sysPipe onePage pipeBoot 0x40000000).1,
      (sysPipe onePage pipeBoot 0x40000000).2.1) = (0, some (3, 4)) := by decide
  exact Prod.ext (Prod.mk.inj result).1 (Prod.ext (Prod.mk.inj result).2 rfl)

theorem writeThenRead_valid : ∀ call ∈ writeThenRead, call.Valid onePage := by
  intro call member
  rcases List.mem_pair.mp member with rfl | rfl
  · change validateUserPtr onePage 0x40000100 1 = true
    decide
  · change validateUserPtr onePage 0x40000200 1 = true
    decide

theorem writeThenRead_reads : ¬ NeverReadBack writeThenRead := by
  intro never
  rcases never [] [] _ _ _ _ rfl with empty | none
  · cases empty
  · cases none

end ZurichOS
