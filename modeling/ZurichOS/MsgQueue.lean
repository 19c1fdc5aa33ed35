import Mathlib.Data.List.InsertIdx
import ZurichOS.RingBuffer

/-!
The message queues of `kernel/ipc/ipc.c`: a circular array of messages that behaves as a
list from which a typed receive takes the earliest match.
-/

namespace ZurichOS

open RingBuffer

abbrev maxMsgQueues : Nat := 16
abbrev maxMsgSize : Nat := 256
abbrev maxMsgsPerQueue : Nat := 32

structure Msg where
  mtype : Int
  mtext : Nat → UInt8
  msize : Nat

structure MsgQueue where
  key : Nat
  messages : Nat → Msg
  head : Nat
  tail : Nat
  count : Nat
  inUse : Bool

abbrev MsgQueues := Nat → MsgQueue

def MsgQueue.zero : MsgQueue := ⟨0, fun _ => ⟨0, fun _ => 0, 0⟩, 0, 0, 0, false⟩

def msgqCreate (queues : MsgQueues) (key : Nat) : Int × MsgQueues :=
  match (List.range maxMsgQueues).find? fun i => (queues i).inUse && (queues i).key == key with
  | some i => (i, queues)
  | none =>
      match (List.range maxMsgQueues).find? fun i => !(queues i).inUse with
      | none => (-28, queues)
      | some msqid =>
          (msqid, Function.update queues msqid { MsgQueue.zero with key, inUse := true })

/-- The message that `msgq_send` puts at the tail. -/
def MsgQueue.put (mq : MsgQueue) (msgp : List UInt8) (mtype : Int) : MsgQueue :=
  let msg := mq.messages mq.tail
  let msg := { mtype, msize := msgp.length, mtext := fun i => msgp.getD i (msg.mtext i) }
  { mq with
    messages := Function.update mq.messages mq.tail msg
    tail := (mq.tail + 1) % maxMsgsPerQueue
    count := mq.count + 1 }

def MsgQueue.message (mq : MsgQueue) (i : Nat) : Msg :=
  mq.messages ((mq.head + i) % maxMsgsPerQueue)

/-- What `msgq_receive` leaves when it takes the message at the offset `i`. -/
def MsgQueue.remove (mq : MsgQueue) (i : Nat) : MsgQueue :=
  { mq with
    messages := shift maxMsgsPerQueue mq.head i (mq.count - 1 - i) mq.messages
    count := mq.count - 1
    tail := if 0 < mq.tail then mq.tail - 1 else maxMsgsPerQueue - 1 }

/-- `msgq_send` of the bytes at `msgp`; their number is `msgsz`. -/
def msgqSend (queues : MsgQueues) (msqid : Int) (msgp : List UInt8) (mtype : Int) :
    Int × MsgQueues :=
  if msqid < 0 ∨ maxMsgQueues ≤ msqid then (-22, queues)
  else if maxMsgSize < msgp.length then (-22, queues)
  else
    let mq := queues msqid.toNat
    if mq.inUse = false then (-22, queues)
    else if maxMsgsPerQueue ≤ mq.count then (-11, queues)
    else (0, Function.update queues msqid.toNat (mq.put msgp mtype))

/-- `msgq_receive`, with the bytes it copies to `msgp`. -/
def msgqReceive (queues : MsgQueues) (msqid : Int) (msgsz : Nat) (mtype : Int) :
    Int × List UInt8 × MsgQueues :=
  if msqid < 0 ∨ maxMsgQueues ≤ msqid then (-22, [], queues)
  else
    let mq := queues msqid.toNat
    if mq.inUse = false then (-22, [], queues)
    else if mq.count = 0 then (-11, [], queues)
    else
      match (List.range mq.count).find? fun i =>
          mtype == 0 || (mq.message i).mtype == mtype with
      | none => (-42, [], queues)
      | some i =>
          let msg := mq.message i
          let copySize := if msg.msize < msgsz then msg.msize else msgsz
          (copySize, (List.range copySize).map msg.mtext,
            Function.update queues msqid.toNat (mq.remove i))

def msgqDestroy (queues : MsgQueues) (msqid : Int) : Int × MsgQueues :=
  if msqid < 0 ∨ maxMsgQueues ≤ msqid then (-22, queues)
  else if (queues msqid.toNat).inUse = false then (-22, queues)
  else (0, Function.update queues msqid.toNat { queues msqid.toNat with inUse := false })

/-- A message of the list a queue stands for: its type and its payload. -/
structure Message where
  mtype : Int
  payload : List UInt8
deriving DecidableEq

def Msg.message (msg : Msg) : Message := ⟨msg.mtype, (List.range msg.msize).map msg.mtext⟩

def MsgQueue.contents (mq : MsgQueue) : List Message :=
  (elements mq.messages maxMsgsPerQueue mq.head mq.count).map Msg.message

def Message.matches (mtype : Int) (message : Message) : Bool :=
  mtype == 0 || message.mtype == mtype

inductive MsgCall where
  | send (msgp : List UInt8) (mtype : Int)
  | receive (msgsz : Nat) (mtype : Int)

abbrev MsgResult := Int × List UInt8

def listCall (queue : List Message) : MsgCall → MsgResult × List Message
  | .send msgp mtype =>
      if maxMsgSize < msgp.length then ((-22, []), queue)
      else if maxMsgsPerQueue ≤ queue.length then ((-11, []), queue)
      else ((0, []), queue ++ [⟨mtype, msgp⟩])
  | .receive msgsz mtype =>
      if queue = [] then ((-11, []), queue)
      else
        match queue.find? (Message.matches mtype) with
        | none => ((-42, []), queue)
        | some message =>
            let payload := message.payload.take msgsz
            ((payload.length, payload), queue.eraseP (Message.matches mtype))

def msgqCall (msqid : Nat) (queues : MsgQueues) : MsgCall → MsgResult × MsgQueues
  | .send msgp mtype =>
      let (result, queues) := msgqSend queues msqid msgp mtype
      ((result, []), queues)
  | .receive msgsz mtype =>
      let (result, bytes, queues) := msgqReceive queues msqid msgsz mtype
      ((result, bytes), queues)

def runCalls {State : Type} (call : State → MsgCall → MsgResult × State) :
    State → List MsgCall → List MsgResult × State
  | s, [] => ([], s)
  | s, c :: rest =>
      let (result, s) := call s c
      let (results, s) := runCalls call s rest
      (result :: results, s)

structure MsgQueueSound (mq : MsgQueue) : Prop where
  live : mq.inUse = true
  bound : mq.count ≤ maxMsgsPerQueue
  tail : mq.tail = (mq.head + mq.count) % maxMsgsPerQueue
  sizes : ∀ msg ∈ elements mq.messages maxMsgsPerQueue mq.head mq.count, msg.msize ≤ maxMsgSize

section Simulation

theorem MsgQueue.contents_length (mq : MsgQueue) : mq.contents.length = mq.count := by
  simp [MsgQueue.contents]

theorem MsgQueue.contents_getElem {mq : MsgQueue} {i : Nat} (inside : i < mq.contents.length) :
    mq.contents[i] = (mq.message i).message := by
  simp [MsgQueue.contents, elements, MsgQueue.message]

theorem payload_sent (msgp : List UInt8) (old : Nat → UInt8) :
    (List.range msgp.length).map (fun i => msgp.getD i (old i)) = msgp := by
  refine List.ext_getElem (by simp) fun i _ inside => ?_
  simp [inside]

theorem payload_cut (msg : Msg) (msgsz : Nat) :
    (List.range (if msg.msize < msgsz then msg.msize else msgsz)).map msg.mtext =
      msg.message.payload.take msgsz := by
  have shorter : (if msg.msize < msgsz then msg.msize else msgsz) = min msgsz msg.msize := by
    split <;> omega
  rw [shorter, Msg.message, ← List.map_take, List.take_range]

/-- Where the first match of a list stands at `i`, it is what a search finds, and removing
the first match removes the position. -/
theorem first_match {xs : List Message} (hit : Message → Bool) {i : Nat} (inside : i < xs.length)
    (isHit : hit xs[i] = true) (before : ∀ j (below : j < i), hit xs[j] = false) :
    xs.find? hit = some xs[i] ∧ xs.eraseP hit = xs.eraseIdx i := by
  constructor
  · refine List.find?_eq_some_iff_getElem.mpr ⟨isHit, i, inside, rfl, fun j below => ?_⟩
    simp [before j below]
  · have index : xs.findIdx? hit = some i :=
      List.findIdx?_eq_some_iff_getElem.mpr ⟨inside, isHit, fun j below => by simp [before j below]⟩
    rw [List.eraseP_eq_eraseIdx, index]

variable {mq : MsgQueue}

theorem put_sound (sound : MsgQueueSound mq) {msgp : List UInt8} (mtype : Int)
    (short : msgp.length ≤ maxMsgSize) (room : mq.count < maxMsgsPerQueue) :
    MsgQueueSound (mq.put msgp mtype) ∧ (mq.put msgp mtype).contents = mq.contents ++ [⟨mtype, msgp⟩] := by
  have pushed := elements_push mq.messages mq.head room
    ⟨mtype, fun i => msgp.getD i ((mq.messages mq.tail).mtext i), msgp.length⟩
  rw [← sound.tail] at pushed
  refine ⟨⟨sound.live, room, ?_, fun msg member => ?_⟩, ?_⟩
  · change (mq.tail + 1) % maxMsgsPerQueue = (mq.head + (mq.count + 1)) % maxMsgsPerQueue
    rw [sound.tail, Nat.mod_add_mod, Nat.add_assoc]
  · rcases List.mem_append.mp (pushed ▸ member) with old | new
    · exact sound.sizes msg old
    · exact List.mem_singleton.mp new ▸ short
  · refine (congrArg (List.map Msg.message) pushed).trans ?_
    rw [List.map_append, List.map_singleton, Msg.message, payload_sent, MsgQueue.contents]

theorem remove_sound (sound : MsgQueueSound mq) {i : Nat} (inside : i < mq.count) :
    MsgQueueSound (mq.remove i) ∧ (mq.remove i).contents = mq.contents.eraseIdx i := by
  have closed := elements_shift mq.messages mq.head sound.bound inside
  have bound : mq.count ≤ 32 := sound.bound
  have isTail : mq.tail = (mq.head + mq.count) % 32 := sound.tail
  refine ⟨⟨sound.live, ?_, ?_, fun msg member => ?_⟩, ?_⟩
  · change mq.count - 1 ≤ 32
    omega
  · change (if 0 < mq.tail then mq.tail - 1 else 31) = (mq.head + (mq.count - 1)) % 32
    split <;> omega
  · exact sound.sizes msg (List.mem_of_mem_eraseIdx (closed ▸ member))
  · refine (congrArg (List.map Msg.message) closed).trans ?_
    rw [MsgQueue.contents, List.eraseIdx_map]

variable {queues : MsgQueues} {msqid : Nat}

theorem msgqCall_list (inTable : msqid < maxMsgQueues) (sound : MsgQueueSound (queues msqid))
    (call : MsgCall) :
    MsgQueueSound ((msgqCall msqid queues call).2 msqid) ∧
      listCall (queues msqid).contents call =
        ((msgqCall msqid queues call).1, ((msgqCall msqid queues call).2 msqid).contents) := by
  have valid : ¬ ((msqid : Int) < 0 ∨ (maxMsgQueues : Int) ≤ msqid) := by omega
  have live : ¬ (queues msqid).inUse = false := by simp [sound.live]
  have length := (queues msqid).contents_length
  cases call with
  | send msgp mtype =>
      simp only [msgqCall, msgqSend, listCall, Int.toNat_natCast, length]
      rw [if_neg valid, if_neg live]
      by_cases long : maxMsgSize < msgp.length
      · rw [if_pos long, if_pos long]
        exact ⟨sound, rfl⟩
      · rw [if_neg long, if_neg long]
        by_cases full : maxMsgsPerQueue ≤ (queues msqid).count
        · rw [if_pos full, if_pos full]
          exact ⟨sound, rfl⟩
        · obtain ⟨kept, grown⟩ := put_sound sound mtype (Nat.le_of_not_lt long) (by omega)
          rw [if_neg full, if_neg full]
          dsimp only
          rw [Function.update_self]
          exact ⟨kept, by rw [grown]⟩
  | receive msgsz mtype =>
      simp only [msgqCall, msgqReceive, listCall, Int.toNat_natCast]
      rw [if_neg valid, if_neg live]
      by_cases empty : (queues msqid).count = 0
      · have nil : (queues msqid).contents = [] := List.eq_nil_of_length_eq_zero (length.trans empty)
        rw [if_pos empty, if_pos nil]
        exact ⟨sound, rfl⟩
      · have some : (queues msqid).contents ≠ [] := fun nil => by simp [nil] at length; omega
        have hits : ∀ i (inside : i < (queues msqid).contents.length),
            (queues msqid).contents[i].matches mtype =
              (mtype == 0 || ((queues msqid).message i).mtype == mtype) := fun i inside => by
          rw [MsgQueue.contents_getElem]
          rfl
        rw [if_neg empty, if_neg some]
        split
        · rename_i found
          have missing : (queues msqid).contents.find? (Message.matches mtype) = none := by
            refine List.find?_eq_none.mpr fun message member => ?_
            obtain ⟨i, inside, rfl⟩ := List.getElem_of_mem member
            have miss := List.find?_range_eq_none.mp found i (length ▸ inside)
            simpa [hits i inside] using miss
          rw [missing]
          exact ⟨sound, rfl⟩
        · rename_i i found
          obtain ⟨isHit, member, before⟩ := List.find?_range_eq_some.mp found
          have below : i < (queues msqid).count := List.mem_range.mp member
          have inside : i < (queues msqid).contents.length := length.symm ▸ below
          obtain ⟨first, erased⟩ := first_match (Message.matches mtype) inside
            ((hits i inside).trans isHit) fun j earlier => by
              simpa [hits j (earlier.trans inside)] using before j earlier
          obtain ⟨kept, shrunk⟩ := remove_sound sound below
          rw [first]
          dsimp only
          rw [Function.update_self]
          refine ⟨kept, ?_⟩
          rw [shrunk, erased, MsgQueue.contents_getElem, payload_cut]
          refine congrArg (fun size : Nat => (((size : Int), _), _)) ?_
          simp only [Msg.message, List.length_take, List.length_map, List.length_range]
          split <;> omega

theorem msgqCreate_sound {key : Nat}
    (fresh : ∀ i, (queues i).inUse = true → (queues i).key ≠ key)
    (made : (msgqCreate queues key).1 = msqid) :
    MsgQueueSound ((msgqCreate queues key).2 msqid) ∧
      ((msgqCreate queues key).2 msqid).contents = [] := by
  have noKey : (List.range maxMsgQueues).find? (fun i => (queues i).inUse &&
      (queues i).key == key) = none := by simpa using fun i _ live => fresh i live
  unfold msgqCreate at made ⊢
  rw [noKey] at made ⊢
  dsimp only at made ⊢
  split at made
  · have negative : (-28 : Int) = msqid := made
    omega
  · rename_i slot _
    obtain rfl : slot = msqid := Int.ofNat_inj.mp made
    dsimp only
    rw [Function.update_self]
    exact ⟨⟨rfl, Nat.zero_le _, rfl, by simp [MsgQueue.zero]⟩, rfl⟩

/-- Whatever calls run on a live queue, it returns what a list of messages would. -/
theorem msgq_refines_list (inTable : msqid < maxMsgQueues) (sound : MsgQueueSound (queues msqid))
    (calls : List MsgCall) :
    let ran := runCalls (msgqCall msqid) queues calls
    (ran.2 msqid).tail = ((ran.2 msqid).head + (ran.2 msqid).count) % maxMsgsPerQueue ∧
      MsgQueueSound (ran.2 msqid) ∧
      runCalls listCall (queues msqid).contents calls = (ran.1, (ran.2 msqid).contents) := by
  induction calls generalizing queues with
  | nil => exact ⟨sound.tail, sound, rfl⟩
  | cons call rest ih =>
      obtain ⟨kept, stepped⟩ := msgqCall_list inTable sound call
      obtain ⟨tail, last, later⟩ := ih kept
      refine ⟨tail, last, ?_⟩
      simp only [runCalls, stepped, later]

theorem msgq_refines_list_typed :
    (runCalls (msgqCall 0) (msgqCreate (fun _ => MsgQueue.zero) 5).2
      [.send [1, 2, 3] 7, .send [4] 8, .receive 9 8, .receive 2 0, .receive 1 0]).1 =
      [(0, []), (0, []), (1, [4]), (2, [1, 2]), (-11, [])] := by
  have created := @msgqCreate_sound (fun _ => MsgQueue.zero) 0 5 (by simp [MsgQueue.zero]) (by decide)
  have ran := (msgq_refines_list (by decide) created.1
    [.send [1, 2, 3] 7, .send [4] 8, .receive 9 8, .receive 2 0, .receive 1 0]).2.2
  rw [created.2] at ran
  exact (congrArg Prod.fst ran).symm.trans (by decide)

end Simulation

end ZurichOS
