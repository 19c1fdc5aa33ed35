import ZurichOS.ProcessCore

/-!
The pipes of `kernel/ipc/ipc.c`.
-/

namespace ZurichOS

abbrev pipeBufSize : Nat := 4096
abbrev maxPipes : Nat := 32

structure Pipe where
  buffer : Nat → UInt8
  readPos : Nat
  writePos : Nat
  count : Nat
  readers : Nat
  writers : Nat
  readFd : Int
  writeFd : Int
  inUse : Bool

def Pipe.zero : Pipe := ⟨fun _ => 0, 0, 0, 0, 0, 0, 0, 0, false⟩

structure PipeSystem where
  processes : Processes
  pipes : Nat → Pipe

def PipeSystem.setPipe (s : PipeSystem) (id : Nat) (pipe : Pipe) : PipeSystem :=
  { s with pipes := Function.update s.pipes id pipe }

def PipeSystem.setProcess (s : PipeSystem) (index : Nat) (proc : Process) : PipeSystem :=
  { s with processes := s.processes.set index proc }

def freePipe (s : PipeSystem) : Option Nat :=
  (List.range maxPipes).find? fun i => (s.pipes i).inUse = false

def freeDescriptors (proc : Process) : List Nat :=
  (List.range maxFdsPerProc).filter fun i => 3 ≤ i && !(proc.fdTable i).inUse

/-- `pipe_create`, with the descriptors it writes to `pipefd`. -/
def pipeCreate (s : PipeSystem) : Int × Option (Nat × Nat) × PipeSystem :=
  match freePipe s with
  | none => (-24, none, s)
  | some id =>
      match processCurrent s.processes with
      | none => (-1, none, s)
      | some i =>
          let proc := s.processes.table i
          match freeDescriptors proc with
          | readFd :: writeFd :: _ =>
              let pipe := { Pipe.zero with
                inUse := true, readers := 1, writers := 1, readFd, writeFd }
              let reader := { proc.fdTable readFd with
                inUse := true, pipeId := id, flags := 0, node := none }
              let writer := { proc.fdTable writeFd with
                inUse := true, pipeId := id, flags := 1, node := none }
              (0, some (readFd, writeFd),
                (s.setPipe id pipe).setProcess i ((proc.setFd readFd reader).setFd writeFd writer))
          | _ => (-24, none, s)

/-- The current process and its open descriptor `fd`; `none` is the error -9. -/
def openDescriptor (s : PipeSystem) (fd : Int) : Option (Nat × FdEntry) :=
  match processCurrent s.processes with
  | none => none
  | some i =>
      if fd < 0 ∨ maxFdsPerProc ≤ fd then none
      else
        let entry := (s.processes.table i).fdTable fd.toNat
        if entry.inUse then some (i, entry) else none

/-- The loop of `pipe_read`; its other branches all leave the loop. -/
def pipeTake (pipe : Pipe) : Nat → List UInt8 × Pipe
  | 0 => ([], pipe)
  | more + 1 =>
      if 0 < pipe.count then
        let byte := pipe.buffer pipe.readPos
        let (bytes, pipe) := pipeTake { pipe with
          readPos := (pipe.readPos + 1) % pipeBufSize, count := pipe.count - 1 } more
        (byte :: bytes, pipe)
      else ([], pipe)

def pipeRead (s : PipeSystem) (fd : Int) (count : Nat) : Int × List UInt8 × PipeSystem :=
  match openDescriptor s fd with
  | none => (-9, [], s)
  | some (_, entry) =>
      if entry.pipeId < 0 ∨ maxPipes ≤ entry.pipeId then (-9, [], s)
      else
        let id := entry.pipeId.toNat
        if (s.pipes id).inUse = false then (-9, [], s)
        else if entry.flags ≠ 0 then (-9, [], s)
        else
          let (bytes, pipe) := pipeTake (s.pipes id) count
          (bytes.length, bytes, s.setPipe id pipe)

/-- The loop of `pipe_write`, with the number of bytes it has written. -/
def pipePut (pipe : Pipe) : List UInt8 → Nat × Pipe
  | [] => (0, pipe)
  | byte :: rest =>
      if pipe.count < pipeBufSize then
        let (written, pipe) := pipePut { pipe with
          buffer := Function.update pipe.buffer pipe.writePos byte
          writePos := (pipe.writePos + 1) % pipeBufSize
          count := pipe.count + 1 } rest
        (written + 1, pipe)
      else (0, pipe)

def pipeWrite (s : PipeSystem) (fd : Int) (data : List UInt8) : Int × PipeSystem :=
  match openDescriptor s fd with
  | none => (-9, s)
  | some (i, entry) =>
      if entry.pipeId < 0 ∨ maxPipes ≤ entry.pipeId then (-9, s)
      else
        let id := entry.pipeId.toNat
        if (s.pipes id).inUse = false then (-9, s)
        else if entry.flags ≠ 1 then (-9, s)
        else if (s.pipes id).readers = 0 then
          (-32, { s with
            processes := (processSignal s.processes (s.processes.table i).pid sigpipe).2 })
        else
          let (written, pipe) := pipePut (s.pipes id) data
          (written, s.setPipe id pipe)

/-- The pipe after `pipe_close` has given back a descriptor with these flags. -/
def Pipe.giveBack (pipe : Pipe) (flags : Nat) : Pipe :=
  let pipe :=
    if flags = 0 then { pipe with readers := pipe.readers - 1 }
    else { pipe with writers := pipe.writers - 1 }
  if pipe.readers = 0 ∧ pipe.writers = 0 then { pipe with inUse := false } else pipe

def pipeClose (s : PipeSystem) (fd : Int) : Int × PipeSystem :=
  match openDescriptor s fd with
  | none => (-9, s)
  | some (i, entry) =>
      if entry.pipeId < 0 ∨ maxPipes ≤ entry.pipeId then (0, s)
      else
        let id := entry.pipeId.toNat
        if (s.pipes id).inUse = false then (0, s)
        else
          let proc := s.processes.table i
          (0, (s.setPipe id ((s.pipes id).giveBack entry.flags)).setProcess i
            (proc.setFd fd.toNat { entry with inUse := false, pipeId := -1 }))

end ZurichOS
