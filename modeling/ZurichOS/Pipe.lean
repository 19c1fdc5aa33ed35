import ZurichOS.PipeCore
import ZurichOS.RingBuffer

/-!
A pipe is a queue of bytes: its reads return, in order, the bytes its writes accepted.
-/

namespace ZurichOS

open RingBuffer

variable {p : Pipe} {s : PipeSystem}

structure PipeSound (p : Pipe) : Prop where
  bound : p.count ≤ pipeBufSize
  readPos : p.readPos < pipeBufSize
  writePos : p.writePos = (p.readPos + p.count) % pipeBufSize

def Pipe.buffered (p : Pipe) : List UInt8 := elements p.buffer pipeBufSize p.readPos p.count

theorem pipePut_appends (sound : PipeSound p) (data : List UInt8) :
    PipeSound (pipePut p data).2 ∧ (pipePut p data).2.buffered =
      p.buffered ++ data.take (pipePut p data).1 := by
  induction data generalizing p with
  | nil => exact ⟨sound, by simp [pipePut]⟩
  | cons byte rest ih =>
      rw [pipePut]
      split
      · rename_i room
        have next := ih (p := { p with
            buffer := Function.update p.buffer p.writePos byte
            writePos := (p.writePos + 1) % pipeBufSize, count := p.count + 1 })
          ⟨room, sound.readPos, by
            change (p.writePos + 1) % pipeBufSize = (p.readPos + (p.count + 1)) % pipeBufSize
            rw [sound.writePos, Nat.mod_add_mod, Nat.add_assoc]⟩
        refine ⟨next.1, next.2.trans ?_⟩
        have pushed := elements_push p.buffer p.readPos room byte
        rw [← sound.writePos] at pushed
        simp only [Pipe.buffered, pushed, List.take_succ_cons, List.append_assoc,
          List.singleton_append]
      · exact ⟨sound, by simp⟩

theorem pipeTake_removes (sound : PipeSound p) (count : Nat) :
    PipeSound (pipeTake p count).2 ∧
      p.buffered = (pipeTake p count).1 ++ (pipeTake p count).2.buffered := by
  induction count generalizing p with
  | zero => exact ⟨sound, rfl⟩
  | succ more ih =>
      rw [pipeTake]
      split
      · rename_i some
        obtain ⟨left, isLeft⟩ : ∃ left, p.count = left + 1 := ⟨p.count - 1, by omega⟩
        have bound := sound.bound
        have next := ih (p := { p with
            readPos := (p.readPos + 1) % pipeBufSize, count := p.count - 1 })
          ⟨by dsimp only; omega, Nat.mod_lt _ (by decide), by
            dsimp only
            rw [sound.writePos, Nat.mod_add_mod, isLeft, Nat.add_sub_cancel, Nat.add_assoc,
              Nat.add_comm 1 left]⟩
        refine ⟨next.1, ?_⟩
        have popped := elements_pop p.buffer sound.readPos left
        simp only [Pipe.buffered, isLeft, Nat.add_sub_cancel] at next ⊢
        rw [popped, List.cons_append, ← next.2]
      · exact ⟨sound, rfl⟩

def pipeOf (s : PipeSystem) (fd : Int) : Option Nat :=
  (openDescriptor s fd).bind fun found =>
    if found.2.pipeId < 0 ∨ maxPipes ≤ found.2.pipeId then none else some found.2.pipeId.toNat

/-- A write fails and leaves the pipes alone, or runs its loop on the pipe of its
descriptor. -/
theorem pipeWrite_cases (s : PipeSystem) (fd : Int) (data : List UInt8) :
    ((pipeWrite s fd data).1 < 0 ∧ (pipeWrite s fd data).2.pipes = s.pipes) ∨
      ∃ id, pipeOf s fd = some id ∧ pipeWrite s fd data =
        (((pipePut (s.pipes id) data).1 : Int), s.setPipe id (pipePut (s.pipes id) data).2) := by
  unfold pipeWrite pipeOf
  cases openDescriptor s fd with
  | none => exact .inl ⟨by simp, rfl⟩
  | some found =>
      obtain ⟨i, entry⟩ := found
      dsimp only [Option.bind_some]
      split
      · exact .inl ⟨by simp, rfl⟩
      · split
        · exact .inl ⟨by simp, rfl⟩
        · split
          · exact .inl ⟨by simp, rfl⟩
          · split
            · exact .inl ⟨by simp, rfl⟩
            · exact .inr ⟨_, rfl, rfl⟩

theorem pipeRead_cases (s : PipeSystem) (fd : Int) (count : Nat) :
    pipeRead s fd count = (-9, [], s) ∨
      ∃ id, pipeOf s fd = some id ∧ pipeRead s fd count =
        (((pipeTake (s.pipes id) count).1.length : Int), (pipeTake (s.pipes id) count).1,
          s.setPipe id (pipeTake (s.pipes id) count).2) := by
  unfold pipeRead pipeOf
  cases openDescriptor s fd with
  | none => exact .inl rfl
  | some found =>
      obtain ⟨i, entry⟩ := found
      dsimp only [Option.bind_some]
      split
      · exact .inl rfl
      · split
        · exact .inl rfl
        · split
          · exact .inl rfl
          · exact .inr ⟨_, rfl, rfl⟩

inductive PipeCall where
  | write (pid : Nat) (fd : Int) (data : List UInt8)
  | read (pid : Nat) (fd : Int) (count : Nat)

def PipeSystem.switch (s : PipeSystem) (pid : Nat) : PipeSystem :=
  { s with processes := processSetCurrent s.processes pid }

@[simp] theorem switch_pipes (s : PipeSystem) (pid : Nat) : (s.switch pid).pipes = s.pipes := rfl

@[simp] theorem setPipe_pipes (s : PipeSystem) (id : Nat) (pipe : Pipe) :
    (s.setPipe id pipe).pipes = Function.update s.pipes id pipe := rfl

def PipeSystem.after (s : PipeSystem) : PipeCall → PipeSystem
  | .write pid fd data => (pipeWrite (s.switch pid) fd data).2
  | .read pid fd count => (pipeRead (s.switch pid) fd count).2.2

def acceptedBy (s : PipeSystem) (id : Nat) : PipeCall → List UInt8
  | .write pid fd data =>
      if pipeOf (s.switch pid) fd = some id then
        data.take (pipeWrite (s.switch pid) fd data).1.toNat
      else []
  | .read _ _ _ => []

def returnedBy (s : PipeSystem) (id : Nat) : PipeCall → List UInt8
  | .write _ _ _ => []
  | .read pid fd count =>
      if pipeOf (s.switch pid) fd = some id then (pipeRead (s.switch pid) fd count).2.1 else []

def accepted (id : Nat) : PipeSystem → List PipeCall → List UInt8
  | _, [] => []
  | s, call :: rest => acceptedBy s id call ++ accepted id (s.after call) rest

def returned (id : Nat) : PipeSystem → List PipeCall → List UInt8
  | _, [] => []
  | s, call :: rest => returnedBy s id call ++ returned id (s.after call) rest

/-- A call keeps a pipe sound and moves bytes in at the back and out at the front. -/
theorem call_fifo {id : Nat} (sound : PipeSound (s.pipes id)) (call : PipeCall) :
    PipeSound ((s.after call).pipes id) ∧ (s.pipes id).buffered ++ acceptedBy s id call =
      returnedBy s id call ++ ((s.after call).pipes id).buffered := by
  cases call with
  | write pid fd data =>
      simp only [PipeSystem.after, acceptedBy, returnedBy, List.nil_append]
      rcases pipeWrite_cases (s.switch pid) fd data with ⟨failed, same⟩ | ⟨other, isPipe, ran⟩
      · rw [same, Int.toNat_of_nonpos (Int.le_of_lt failed)]
        exact ⟨sound, by simp⟩
      · rw [ran]
        by_cases own : other = id
        · subst own
          obtain ⟨kept, grown⟩ := pipePut_appends sound data
          simp only [setPipe_pipes, switch_pipes, Function.update_self]
          exact ⟨kept, by simpa [isPipe] using grown.symm⟩
        · simp only [setPipe_pipes, switch_pipes, Function.update_of_ne (Ne.symm own)]
          exact ⟨sound, by simp [isPipe, own]⟩
  | read pid fd count =>
      simp only [PipeSystem.after, acceptedBy, returnedBy, List.append_nil]
      rcases pipeRead_cases (s.switch pid) fd count with failed | ⟨other, isPipe, ran⟩
      · rw [failed]
        exact ⟨sound, by simp⟩
      · rw [ran]
        by_cases own : other = id
        · subst own
          obtain ⟨kept, shrunk⟩ := pipeTake_removes sound count
          simp only [setPipe_pipes, switch_pipes, Function.update_self]
          exact ⟨kept, by simpa [isPipe] using shrunk⟩
        · simp only [setPipe_pipes, switch_pipes, Function.update_of_ne (Ne.symm own)]
          exact ⟨sound, by simp [isPipe, own]⟩

theorem run_fifo {id : Nat} (sound : PipeSound (s.pipes id)) (calls : List PipeCall) :
    PipeSound ((calls.foldl .after s).pipes id) ∧ (s.pipes id).buffered ++ accepted id s calls =
      returned id s calls ++ ((calls.foldl .after s).pipes id).buffered := by
  induction calls generalizing s with
  | nil => exact ⟨sound, by simp [accepted, returned]⟩
  | cons call rest ih =>
      obtain ⟨kept, moved⟩ := call_fifo sound call
      obtain ⟨last, later⟩ := ih kept
      refine ⟨last, ?_⟩
      simp only [accepted, returned, List.foldl_cons, List.append_assoc]
      rw [← List.append_assoc, moved, List.append_assoc, later]

theorem pipeCreate_empty {id : Nat} (slot : freePipe s = some id)
    (made : (pipeCreate s).1 = 0) :
    PipeSound ((pipeCreate s).2.2.pipes id) ∧ ((pipeCreate s).2.2.pipes id).buffered = [] := by
  unfold pipeCreate at made ⊢
  simp only [slot] at made ⊢
  split at made
  · cases made
  · split at made
    · rename_i fds
      simp only [PipeSystem.setProcess, PipeSystem.setPipe, Function.update_self]
      exact ⟨⟨Nat.zero_le _, Nat.zero_lt_succ _, rfl⟩, rfl⟩
    · cases made

/-- From its creation on, whatever reads and writes run, the bytes read from a pipe and
then those still in it are the bytes its writes reported. -/
theorem pipe_fifo {id : Nat} (slot : freePipe s = some id) (made : (pipeCreate s).1 = 0)
    (calls : List PipeCall) :
    let start := (pipeCreate s).2.2
    let pipe := (calls.foldl .after start).pipes id
    pipe.count ≤ pipeBufSize ∧ pipe.writePos = (pipe.readPos + pipe.count) % pipeBufSize ∧
      accepted id start calls = returned id start calls ++ pipe.buffered := by
  obtain ⟨sound, empty⟩ := pipeCreate_empty slot made
  obtain ⟨kept, moved⟩ := run_fifo sound calls
  rw [empty, List.nil_append] at moved
  exact ⟨kept.bound, kept.writePos, moved⟩

def pipeBoot : PipeSystem := { processes := processInit, pipes := fun _ => Pipe.zero }

theorem pipe_fifo_boot :
    freePipe pipeBoot = some 0 ∧
      let start := (pipeCreate pipeBoot).2.2
      let calls := [PipeCall.write 1 4 [7, 8, 9], .read 1 3 2]
      accepted 0 start calls = [7, 8, 9] ∧
        [7, 8, 9] = returned 0 start calls ++ ((calls.foldl .after start).pipes 0).buffered := by
  have fifo := @pipe_fifo pipeBoot 0 (by decide) (by decide) [.write 1 4 [7, 8, 9], .read 1 3 2]
  refine ⟨by decide, by decide, ?_⟩
  rw [← fifo.2.2]
  decide

end ZurichOS
