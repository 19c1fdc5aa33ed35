import Mathlib.Data.List.Nodup
import Mathlib.Logic.Function.Basic
import ZurichOS.LinkedQueue
import ZurichOS.Transitions

set_option linter.all false

/-!
The wait queues of `kernel/sync/waitqueue.c` as linked entries.  Each section under the lock is
one step, and the steps of all contexts interleave freely.
-/

namespace ZurichOS

open LinkedQueue Transitions

variable {Context Task : Type}

/-- `wait_queue_entry_t`. -/
structure WaitQueueEntry (Task : Type) where
  task : Task
  next : Option Nat

/-- `wait_queue_t` without its lock, and the memory that entries lie in by its addresses. -/
structure WaitQueue (Task : Type) where
  head : Option Nat
  tail : Option Nat
  entries : Nat → WaitQueueEntry Task
  allocated : Nat → Bool

namespace WaitQueue

def next (wq : WaitQueue Task) (entry : Nat) : Option Nat := (wq.entries entry).next

/-- What `kmalloc` hands out is filled in before the lock is taken. -/
def newEntry (wq : WaitQueue Task) (entry : Nat) (current : Task) : WaitQueue Task :=
  { wq with
    entries := Function.update wq.entries entry ⟨current, none⟩
    allocated := Function.update wq.allocated entry true }

def kfree (wq : WaitQueue Task) (entry : Nat) : WaitQueue Task :=
  { wq with allocated := Function.update wq.allocated entry false }

/-- The section of `waitqueue_wait`. -/
def waitSection (wq : WaitQueue Task) (entry : Nat) : WaitQueue Task :=
  match wq.tail with
  | some last =>
      { wq with
        entries := Function.update wq.entries last { wq.entries last with next := some entry }
        tail := some entry }
  | none => { wq with head := some entry, tail := some entry }

/-- The section of `waitqueue_wake_one`, with the entry it has removed and freed. -/
def wakeOneSection (wq : WaitQueue Task) : Option Nat × WaitQueue Task :=
  match wq.head with
  | some entry =>
      let head := wq.next entry
      let wq := { wq with head, tail := if head.isNone then none else wq.tail }
      (some entry, wq.kfree entry)
  | none => (none, wq)

/-- The section of `waitqueue_wake_all`, with the entries it has removed and freed; `none` is for
too few turns of its loop. -/
def wakeAllSection : (fuel : Nat) → WaitQueue Task → Option (List Nat × WaitQueue Task)
  | 0, _ => none
  | fuel + 1, wq =>
      match wq.head with
      | some entry =>
          (wakeAllSection fuel ({ wq with head := wq.next entry }.kfree entry)).map
            fun (woken, wq) => (entry :: woken, wq)
      | none => some ([], { wq with tail := none })

section Sections

variable {wq after : WaitQueue Task} {nodes : List Nat}

theorem wakeAllSection_nil (fuel : Nat) (empty : wq.head = none) :
    wq.wakeAllSection (fuel + 1) = some ([], { wq with tail := none }) := by
  rw [wakeAllSection, empty]

theorem wakeAllSection_cons {entry : Nat} (fuel : Nat) (first : wq.head = some entry) :
    wq.wakeAllSection (fuel + 1) =
      (wakeAllSection fuel ({ wq with head := wq.next entry }.kfree entry)).map
        fun (woken, wq) => (entry :: woken, wq) := by
  rw [wakeAllSection, first]

/-- As many turns as there are entries, and one more, are enough. -/
theorem wakeAllSection_ends {fuel : Nat} (head : wq.head = nodes.head?) (chain : Chain wq.next nodes)
    (enough : nodes.length < fuel) : ∃ result, wq.wakeAllSection fuel = some result := by
  induction nodes generalizing wq fuel with
  | nil =>
      obtain ⟨turns, rfl⟩ : ∃ turns, fuel = turns + 1 := ⟨fuel - 1, by omega⟩
      exact ⟨_, wakeAllSection_nil turns head⟩
  | cons entry rest ih =>
      obtain ⟨turns, rfl⟩ : ∃ turns, fuel = turns + 1 := ⟨fuel - 1, by omega⟩
      obtain ⟨link, chain⟩ := chain
      obtain ⟨result, more⟩ := @ih ({ wq with head := wq.next entry }.kfree entry) turns link chain
        (Nat.lt_of_succ_lt_succ enough)
      rw [wakeAllSection_cons turns head, more]
      exact ⟨_, rfl⟩

/-- All entries are taken out in their order, and nothing else changes. -/
theorem wakeAllSection_takes {fuel : Nat} {entries : List Nat} (head : wq.head = nodes.head?)
    (chain : Chain wq.next nodes) (ran : wq.wakeAllSection fuel = some (entries, after)) :
    entries = nodes ∧ after.head = none ∧ after.tail = none ∧ after.entries = wq.entries ∧
      ∀ other ∉ nodes, after.allocated other = wq.allocated other := by
  induction nodes generalizing wq fuel entries with
  | nil =>
      cases fuel with
      | zero => cases ran
      | succ turns =>
          rw [wakeAllSection_nil turns head] at ran
          cases ran
          exact ⟨rfl, head, rfl, rfl, fun _ _ => rfl⟩
  | cons entry rest ih =>
      cases fuel with
      | zero => cases ran
      | succ turns =>
          rw [wakeAllSection_cons turns head] at ran
          obtain ⟨⟨woken, last⟩, more, same⟩ := Option.map_eq_some_iff.mp ran
          cases same
          obtain ⟨link, chain⟩ := chain
          obtain ⟨rfl, head, tail, kept, others⟩ :=
            @ih ({ wq with head := wq.next entry }.kfree entry) turns woken link chain more
          refine ⟨rfl, head, tail, kept, fun other absent => ?_⟩
          obtain ⟨apart, absent⟩ := not_or.mp (List.mem_cons.not.mp absent)
          exact (others other absent).trans (Function.update_of_ne apart ..)

theorem wakeOneSection_some {entry : Nat} (ran : wq.wakeOneSection = (some entry, after)) :
    wq.head = some entry ∧ after = { wq with
      head := wq.next entry
      tail := if (wq.next entry).isNone then none else wq.tail
      allocated := Function.update wq.allocated entry false } := by
  rw [wakeOneSection] at ran
  cases first : wq.head with
  | none =>
      rw [first] at ran
      cases ran
  | some entry =>
      rw [first] at ran
      cases ran
      exact ⟨rfl, rfl⟩

theorem wakeOneSection_none (ran : wq.wakeOneSection = (none, after)) :
    wq.head = none ∧ after = wq := by
  rw [wakeOneSection] at ran
  cases first : wq.head with
  | none =>
      rw [first] at ran
      cases ran
      exact ⟨rfl, rfl⟩
  | some entry =>
      rw [first] at ran
      cases ran

/-- The entry gets behind those that are linked, whose tasks stay. -/
theorem waitSection_holds {entry : Nat} (holds : Holds wq.head wq.tail wq.next nodes)
    (absent : entry ∉ nodes) (ends : wq.next entry = none) :
    Holds (wq.waitSection entry).head (wq.waitSection entry).tail (wq.waitSection entry).next
      (nodes ++ [entry]) ∧ (wq.waitSection entry).allocated = wq.allocated ∧
    (∀ other, ((wq.waitSection entry).entries other).task = (wq.entries other).task) ∧
    ∀ other, other ∉ nodes → (wq.waitSection entry).next other = wq.next other := by
  cases isTail : wq.tail with
  | none =>
      have isHead := holds.tail_none_iff.mp isTail
      have added : wq.waitSection entry = { wq with head := some entry, tail := some entry } := by
        rw [waitSection, isTail]
      have pushed := holds.push absent ends (fun last isLast => by rw [isTail] at isLast; cases isLast)
        (fun _ _ _ => rfl)
      rw [isHead] at pushed
      rw [added]
      exact ⟨pushed, rfl, fun _ => rfl, fun _ _ => rfl⟩
  | some last =>
      have inside : last ∈ nodes := List.mem_of_getLast? (holds.tail.symm.trans isTail)
      have added : wq.waitSection entry = { wq with
          entries := Function.update wq.entries last { wq.entries last with next := some entry }
          tail := some entry } := by
        rw [waitSection, isTail]
      obtain ⟨first, isHead⟩ : ∃ first, wq.head = some first := by
        cases isHead : wq.head with
        | none =>
            rw [holds.tail_none_iff.mpr isHead] at isTail
            cases isTail
        | some first => exact ⟨first, rfl⟩
      have linked : (wq.waitSection entry).next last = some entry := by
        rw [added]
        dsimp only [next]
        rw [Function.update_self]
      have others : ∀ other, other ≠ last → (wq.waitSection entry).next other = wq.next other := by
        intro other apart
        rw [added]
        dsimp only [next]
        rw [Function.update_of_ne apart]
      have pushed := @Holds.push Nat _ _ _ (wq.waitSection entry).next _ entry holds absent
        ((others entry fun same => absent (same ▸ inside)).trans ends)
        (fun other isLast => by
          cases isTail.symm.trans isLast
          exact linked)
        (fun node _ notLast => others node fun same => notLast (same ▸ isTail))
      rw [isHead] at pushed
      refine ⟨?_, by rw [added], fun other => ?_, fun other outside => ?_⟩
      · rw [added] at pushed ⊢
        dsimp only
        rw [isHead]
        exact pushed
      · rw [added]
        by_cases same : other = last
        · rw [same]
          dsimp only
          rw [Function.update_self]
        · dsimp only
          rw [Function.update_of_ne same]
      · exact others other fun same => outside (same ▸ inside)

end Sections

end WaitQueue

/-- An entry that was allocated as number `ticket`, whatever its address was used for before. -/
structure Waiter (Task : Type) where
  ticket : Nat
  task : Task

/-- Where a context is in one of the calls: in front of the section of `waitqueue_wait`, in
`task_block`, or in front of the `task_unblock` of `waitqueue_wake_one`. -/
inductive WaitPlace (Task : Type) where
  | outside
  | enqueue (entry : Nat)
  | block
  | unblock (waiter : Waiter Task)

/-- A queue, the contexts that call it, and what has become of each entry so far. -/
structure WaitSystem (Context Task : Type) where
  queue : WaitQueue Task
  place : Context → WaitPlace Task
  ticket : Nat → Nat
  issued : Nat
  enqueued : List (Waiter Task)
  removed : List (Waiter Task)
  freed : List (Waiter Task)
  unblocked : List (Waiter Task)

inductive WaitEvent (Context Task : Type) where
  | wait (context : Context) (current : Option (Task × Nat))
  | enqueue (context : Context)
  | blocked (context : Context)
  | wakeOne (context : Context)
  | unblock (context : Context)
  | wakeAll (context : Context)

namespace WaitSystem

def waiter (s : WaitSystem Context Task) (entry : Nat) : Waiter Task :=
  ⟨s.ticket entry, (s.queue.entries entry).task⟩

variable [DecidableEq Context]

def move (s : WaitSystem Context Task) (context : Context) (place : WaitPlace Task) :
    WaitSystem Context Task :=
  { s with place := Function.update s.place context place }

/-- The entries have been taken out of the queue and freed. -/
def takeOut (s : WaitSystem Context Task) (queue : WaitQueue Task) (entries : List Nat) :
    WaitSystem Context Task :=
  { s with
    queue
    removed := s.removed ++ entries.map s.waiter
    freed := s.freed ++ entries.map s.waiter }

/-- Without a task or without memory `waitqueue_wait` returns at once. -/
inductive Step : WaitSystem Context Task → WaitEvent Context Task → WaitSystem Context Task → Prop
  | refused {s context} : s.place context = .outside → Step s (.wait context none) s
  | allocated {s context current entry} : s.place context = .outside →
      s.queue.allocated entry = false →
      Step s (.wait context (some (current, entry)))
        ({ s with
          queue := s.queue.newEntry entry current
          ticket := Function.update s.ticket entry s.issued
          issued := s.issued + 1 }.move context (.enqueue entry))
  | enqueued {s context entry} : s.place context = .enqueue entry →
      Step s (.enqueue context)
        ({ s with
          queue := s.queue.waitSection entry
          enqueued := s.enqueued ++ [s.waiter entry] }.move context .block)
  | returned {s context} : s.place context = .block →
      Step s (.blocked context) (s.move context .outside)
  | none {s context queue} : s.place context = .outside →
      s.queue.wakeOneSection = (none, queue) → Step s (.wakeOne context) { s with queue }
  | one {s context entry queue} : s.place context = .outside →
      s.queue.wakeOneSection = (some entry, queue) →
      Step s (.wakeOne context) ((s.takeOut queue [entry]).move context (.unblock (s.waiter entry)))
  | unblocked {s context waiter} : s.place context = .unblock waiter →
      Step s (.unblock context)
        ({ s with unblocked := s.unblocked ++ [waiter] }.move context .outside)
  | all {s context fuel entries queue} : s.place context = .outside →
      s.queue.wakeAllSection fuel = some (entries, queue) →
      Step s (.wakeAll context)
        { s.takeOut queue entries with unblocked := s.unblocked ++ entries.map s.waiter }

/-- A queue after `waitqueue_init`, with no context in a call. -/
structure Fresh (s : WaitSystem Context Task) : Prop where
  head : s.queue.head = Option.none
  tail : s.queue.tail = Option.none
  place : ∀ context, s.place context = .outside
  enqueued : s.enqueued = []
  removed : s.removed = []
  freed : s.freed = []
  unblocked : s.unblocked = []

/-- What a queue with the entries `nodes` has done so far. -/
structure Sound (s : WaitSystem Context Task) (nodes : List Nat) : Prop where
  holds : Holds s.queue.head s.queue.tail s.queue.next nodes
  order : s.enqueued = s.removed ++ nodes.map s.waiter
  freed : s.freed = s.removed
  tickets : (s.enqueued.map Waiter.ticket).Nodup
  issued : ∀ waiter ∈ s.enqueued, waiter.ticket < s.issued
  allocated : ∀ entry ∈ nodes, s.queue.allocated entry = true
  waiting : ∀ context entry, s.place context = .enqueue entry →
    s.queue.allocated entry = true ∧ s.queue.next entry = none ∧ entry ∉ nodes ∧
      s.ticket entry < s.issued ∧ s.ticket entry ∉ s.enqueued.map Waiter.ticket
  apart : ∀ context other entry entry', s.place context = .enqueue entry →
    s.place other = .enqueue entry' → s.ticket entry = s.ticket entry' → context = other
  once : s.unblocked.Nodup
  woken : ∀ waiter, waiter ∈ s.removed ↔
    waiter ∈ s.unblocked ∨ ∃ context, s.place context = .unblock waiter
  pending : ∀ context waiter, s.place context = .unblock waiter →
    waiter ∉ s.unblocked ∧ ∀ other, s.place other = .unblock waiter → other = context

variable {s after : WaitSystem Context Task} {nodes : List Nat}

theorem move_place {context other : Context} {place there : WaitPlace Task} :
    (s.move context place).place other = there ↔
      other = context ∧ place = there ∨ other ≠ context ∧ s.place other = there := by
  by_cases own : other = context
  · simp [move, own]
  · simp [move, own]

omit [DecidableEq Context] in
theorem Fresh.sound (fresh : Fresh s) : Sound s [] := by
  have idle : ∀ context place, s.place context = place → place = .outside :=
    fun context place here => here.symm.trans (fresh.place context)
  refine ⟨⟨fresh.head, fresh.tail, trivial, List.nodup_nil⟩, ?_, ?_, ?_, ?_, ?_, ?_, ?_, ?_, ?_, ?_⟩
  · rw [fresh.enqueued, fresh.removed]
    rfl
  · rw [fresh.freed, fresh.removed]
  · rw [fresh.enqueued]
    exact List.nodup_nil
  · rw [fresh.enqueued]
    exact List.forall_mem_nil _
  · exact List.forall_mem_nil _
  · exact fun context entry here => nomatch idle context _ here
  · exact fun context other entry entry' here => nomatch idle context _ here
  · rw [fresh.unblocked]
    exact List.nodup_nil
  · intro waiter
    rw [fresh.removed, fresh.unblocked]
    refine iff_of_false List.not_mem_nil ?_
    rintro (member | ⟨context, here⟩)
    · cases member
    · cases idle context _ here
  · exact fun context waiter here => nomatch idle context _ here

/-- A context that was not about to unblock a task goes to a place in front of another call. -/
theorem move_unblock {context other : Context} {place : WaitPlace Task} {waiter : Waiter Task}
    (before : ∀ waiter, s.place context ≠ .unblock waiter) (there : ∀ waiter, place ≠ .unblock waiter) :
    (s.move context place).place other = .unblock waiter ↔ s.place other = .unblock waiter := by
  rw [move_place]
  constructor
  · rintro (⟨-, here⟩ | ⟨-, here⟩)
    · exact absurd here (there waiter)
    · exact here
  · intro here
    exact .inr ⟨fun own => before waiter (own ▸ here), here⟩

theorem Sound.allocate (sound : Sound s nodes) {context : Context} {entry : Nat}
    (outside : s.place context = .outside) (unused : s.queue.allocated entry = false)
    (current : Task) :
    Sound ({ s with
      queue := s.queue.newEntry entry current
      ticket := Function.update s.ticket entry s.issued
      issued := s.issued + 1 }.move context (.enqueue entry)) nodes := by
  have absent : ∀ node, s.queue.allocated node = true → node ≠ entry := by
    rintro node used rfl
    rw [unused] at used
    cases used
  have kept : ∀ node, node ≠ entry →
      (s.queue.newEntry entry current).entries node = s.queue.entries node :=
    fun node apart => Function.update_of_ne apart ..
  have places := fun other waiter => @move_unblock Context Task _ { s with
      queue := s.queue.newEntry entry current
      ticket := Function.update s.ticket entry s.issued
      issued := s.issued + 1 } context other (.enqueue entry) waiter
      (fun _ here => nomatch outside.symm.trans here) (fun _ => nofun)
  refine ⟨?_, ?_, sound.freed, sound.tickets, ?_, ?_, ?_, ?_, sound.once, ?_, ?_⟩
  · refine sound.holds.congr fun node member => ?_
    exact congrArg WaitQueueEntry.next (kept node (absent node (sound.allocated node member)))
  · refine sound.order.trans (congrArg (s.removed ++ ·) (List.map_congr_left fun node member => ?_))
    have apart := absent node (sound.allocated node member)
    dsimp only [waiter, move]
    rw [kept node apart, Function.update_of_ne apart]
  · exact fun waiter member => Nat.lt_succ_of_lt (sound.issued waiter member)
  · intro node member
    have used := sound.allocated node member
    exact (Function.update_of_ne (absent node used) ..).trans used
  · intro other held here
    rcases move_place.mp here with ⟨-, same⟩ | ⟨-, before⟩
    · cases same
      dsimp only [move, WaitQueue.newEntry, WaitQueue.next]
      rw [Function.update_self, Function.update_self, Function.update_self]
      refine ⟨rfl, rfl, fun member => absent _ (sound.allocated _ member) rfl, Nat.lt_succ_self _, ?_⟩
      intro member
      obtain ⟨waiter, enqueued, same⟩ := List.mem_map.mp member
      exact absurd (sound.issued waiter enqueued) (same ▸ Nat.lt_irrefl _)
    · obtain ⟨used, ends, outside, small, new⟩ := sound.waiting other held before
      have apart := absent held used
      dsimp only [move, WaitQueue.newEntry, WaitQueue.next]
      rw [Function.update_of_ne apart, Function.update_of_ne apart, Function.update_of_ne apart]
      exact ⟨used, ends, outside, Nat.lt_succ_of_lt small, new⟩
  · intro first second held held' here there
    dsimp only [move] at here there ⊢
    intro same
    have old : ∀ other held, s.place other = .enqueue held →
        Function.update s.ticket entry s.issued held = s.ticket held ∧ s.ticket held < s.issued := by
      intro other held before
      obtain ⟨used, -, -, small, -⟩ := sound.waiting other held before
      exact ⟨Function.update_of_ne (absent held used) .., small⟩
    rcases move_place.mp here with ⟨ownFirst, isFirst⟩ | ⟨-, before⟩
    · rcases move_place.mp there with ⟨ownSecond, -⟩ | ⟨-, before⟩
      · rw [ownFirst, ownSecond]
      · cases isFirst
        obtain ⟨kept, small⟩ := old second held' before
        rw [Function.update_self, kept] at same
        omega
    · obtain ⟨keptFirst, smallFirst⟩ := old first held before
      rcases move_place.mp there with ⟨-, isSecond⟩ | ⟨-, later⟩
      · cases isSecond
        rw [Function.update_self, keptFirst] at same
        omega
      · obtain ⟨keptSecond, -⟩ := old second held' later
        rw [keptFirst, keptSecond] at same
        exact sound.apart first second held held' before later same
  · intro waiter
    exact (sound.woken waiter).trans (or_congr Iff.rfl (exists_congr fun other => (places other waiter).symm))
  · intro other waiter here
    obtain ⟨fresh, only⟩ := sound.pending other waiter ((places other waiter).mp here)
    exact ⟨fresh, fun third there => only third ((places third waiter).mp there)⟩

theorem Sound.enqueue (sound : Sound s nodes) {context : Context} {entry : Nat}
    (here : s.place context = .enqueue entry) :
    Sound ({ s with
      queue := s.queue.waitSection entry
      enqueued := s.enqueued ++ [s.waiter entry] }.move context .block) (nodes ++ [entry]) := by
  obtain ⟨used, ends, absent, small, new⟩ := sound.waiting context entry here
  obtain ⟨holds, allocated, tasks, links⟩ := WaitQueue.waitSection_holds sound.holds absent ends
  have places := fun other waiter => @move_unblock Context Task _ { s with
      queue := s.queue.waitSection entry
      enqueued := s.enqueued ++ [s.waiter entry] } context other .block waiter
      (fun _ there => nomatch here.symm.trans there) (fun _ => nofun)
  have waiters : ∀ node, waiter ({ s with
      queue := s.queue.waitSection entry
      enqueued := s.enqueued ++ [s.waiter entry] }.move context .block) node = s.waiter node := by
    intro node
    dsimp only [waiter, move]
    rw [tasks]
  have others : ∀ other held,
      ({ s with
        queue := s.queue.waitSection entry
        enqueued := s.enqueued ++ [s.waiter entry] }.move context .block).place other =
          .enqueue held → other ≠ context ∧ s.place other = .enqueue held := by
    intro other held there
    rcases move_place.mp there with ⟨-, same⟩ | before
    · cases same
    · exact before
  refine ⟨holds, ?_, sound.freed, ?_, ?_, ?_, ?_, ?_, sound.once, ?_, ?_⟩
  · rw [List.map_congr_left fun node _ => waiters node]
    dsimp only [move]
    rw [sound.order, List.map_append, List.append_assoc]
    rfl
  · dsimp only [move]
    rw [List.map_append]
    refine List.nodup_append.mpr ⟨sound.tickets, List.nodup_singleton _, ?_⟩
    rintro ticket member other isNew rfl
    rw [List.map_singleton, List.mem_singleton] at isNew
    rw [isNew] at member
    exact new member
  · intro waiter member
    rcases List.mem_append.mp member with old | isNew
    · exact sound.issued waiter old
    · rw [List.mem_singleton.mp isNew]
      exact small
  · intro node member
    dsimp only [move]
    rw [allocated]
    rcases List.mem_append.mp member with old | isNew
    · exact sound.allocated node old
    · rw [List.mem_singleton.mp isNew]
      exact used
  · intro other held there
    obtain ⟨apart, before⟩ := others other held there
    obtain ⟨usedHeld, endsHeld, outside, smallHeld, newHeld⟩ := sound.waiting other held before
    have tickets : s.ticket held ≠ s.ticket entry :=
      fun same => apart (sound.apart other context held entry before here same)
    have different : held ≠ entry := fun same => tickets (congrArg s.ticket same)
    dsimp only [move]
    rw [allocated]
    refine ⟨usedHeld, (links held outside).trans endsHeld, ?_, smallHeld, ?_⟩
    · intro member
      rcases List.mem_append.mp member with old | isNew
      · exact outside old
      · exact different (List.mem_singleton.mp isNew)
    · rw [List.map_append]
      intro member
      rcases List.mem_append.mp member with old | isNew
      · exact newHeld old
      · exact tickets (List.mem_singleton.mp isNew)
  · intro first second held held' there thence
    exact sound.apart first second held held' (others first held there).2 (others second held' thence).2
  · intro waiter
    exact (sound.woken waiter).trans
      (or_congr Iff.rfl (exists_congr fun other => (places other waiter).symm))
  · intro other waiter there
    obtain ⟨fresh, only⟩ := sound.pending other waiter ((places other waiter).mp there)
    exact ⟨fresh, fun third thence => only third ((places third waiter).mp thence)⟩

omit [DecidableEq Context] in
/-- The contexts that are about to enqueue an entry still are, whatever is taken out. -/
theorem Sound.waiting_takeOut (sound : Sound s nodes) {rest entries : List Nat} {queue : WaitQueue Task}
    (split : nodes = entries ++ rest) (kept : queue.entries = s.queue.entries)
    (allocated : ∀ other, other ∉ entries → queue.allocated other = s.queue.allocated other)
    {context : Context} {entry : Nat} (here : s.place context = .enqueue entry) :
    queue.allocated entry = true ∧ queue.next entry = none ∧ entry ∉ rest ∧
      s.ticket entry < s.issued ∧ s.ticket entry ∉ s.enqueued.map Waiter.ticket := by
  obtain ⟨used, ends, outside, small, new⟩ := sound.waiting context entry here
  rw [split, List.mem_append, not_or] at outside
  refine ⟨(allocated entry outside.1).trans used, ?_, outside.2, small, new⟩
  rw [WaitQueue.next, kept]
  exact ends

omit [DecidableEq Context] in
/-- What is common to taking out one entry and all. -/
theorem Sound.takeOut (sound : Sound s nodes) {rest entries : List Nat} {queue : WaitQueue Task}
    (split : nodes = entries ++ rest) (kept : queue.entries = s.queue.entries)
    (allocated : ∀ other, other ∉ entries → queue.allocated other = s.queue.allocated other) :
    s.enqueued = (s.removed ++ entries.map s.waiter) ++ rest.map (s.takeOut queue entries).waiter ∧
      (∀ entry ∈ rest, queue.allocated entry = true) ∧
      (entries.map s.waiter).Nodup ∧ ∀ entry ∈ entries, s.waiter entry ∉ s.removed := by
  have same : (s.takeOut queue entries).waiter = s.waiter := by
    funext entry
    dsimp only [WaitSystem.takeOut, waiter]
    rw [kept]
  have order := sound.order
  rw [split, List.map_append] at order
  have whole : (s.removed ++ (entries.map s.waiter ++ rest.map s.waiter)).Nodup :=
    order ▸ List.Nodup.of_map Waiter.ticket sound.tickets
  obtain ⟨-, inner, disjoint⟩ := List.nodup_append.mp whole
  refine ⟨?_, fun entry member => ?_, (List.nodup_append.mp inner).1, fun entry member old => ?_⟩
  · rw [same, order, List.append_assoc]
  · have nodup := sound.holds.nodup
    rw [split] at nodup
    rw [allocated entry fun early => (List.nodup_append.mp nodup).2.2 entry early entry member rfl]
    exact sound.allocated entry (split ▸ List.mem_append_right _ member)
  · exact disjoint _ old _ (List.mem_append_left _ (List.mem_map_of_mem member)) rfl

theorem Sound.wakeOne (sound : Sound s nodes) {context : Context} {entry : Nat}
    {queue : WaitQueue Task} (outside : s.place context = .outside)
    (ran : s.queue.wakeOneSection = (some entry, queue)) :
    ∃ rest, nodes = entry :: rest ∧
      Sound ((s.takeOut queue [entry]).move context (.unblock (s.waiter entry))) rest := by
  obtain ⟨isHead, is⟩ := WaitQueue.wakeOneSection_some ran
  have kept : queue.entries = s.queue.entries := by rw [is]
  have holds := sound.holds
  rw [isHead] at holds
  obtain ⟨rest, isNodes, popped⟩ := holds.pop
  have others : ∀ other, other ∉ [entry] → queue.allocated other = s.queue.allocated other := by
    intro other apart
    rw [is]
    exact Function.update_of_ne (List.mem_singleton.not.mp apart) ..
  have linked : Holds queue.head queue.tail queue.next rest := by
    rw [is]
    exact popped
  obtain ⟨order, allocated, -, fresh⟩ := sound.takeOut isNodes kept others
  have new := fresh entry (List.mem_singleton_self entry)
  have idle : s.waiter entry ∉ s.unblocked ∧ ∀ other, s.place other ≠ .unblock (s.waiter entry) :=
    ⟨fun member => new ((sound.woken _).mpr (.inl member)),
      fun other there => new ((sound.woken _).mpr (.inr ⟨other, there⟩))⟩
  refine ⟨rest, isNodes, linked, order, ?_, sound.tickets, sound.issued, allocated, ?_, ?_,
    sound.once, ?_, ?_⟩
  · exact congrArg (· ++ [s.waiter entry]) sound.freed
  · intro other held there
    rcases move_place.mp there with ⟨-, same⟩ | ⟨-, before⟩
    · cases same
    · exact sound.waiting_takeOut isNodes kept others before
  · intro first second held held' there thence
    rcases move_place.mp there with ⟨-, same⟩ | ⟨-, before⟩
    · cases same
    · rcases move_place.mp thence with ⟨-, same⟩ | ⟨-, later⟩
      · cases same
      · exact sound.apart first second held held' before later
  · intro waiter
    refine List.mem_append.trans ?_
    rw [List.map_singleton, List.mem_singleton, sound.woken]
    constructor
    · rintro ((member | ⟨other, there⟩) | rfl)
      · exact .inl member
      · refine .inr ⟨other, move_place.mpr (.inr ⟨fun own => ?_, there⟩)⟩
        cases outside.symm.trans (own ▸ there)
      · exact .inr ⟨context, move_place.mpr (.inl ⟨rfl, rfl⟩)⟩
    · rintro (member | ⟨other, there⟩)
      · exact .inl (.inl member)
      · rcases move_place.mp there with ⟨-, same⟩ | ⟨-, before⟩
        · cases same
          exact .inr rfl
        · exact .inl (.inr ⟨other, before⟩)
  · intro first waiter there
    rcases move_place.mp there with ⟨own, same⟩ | ⟨-, before⟩
    · cases same
      refine ⟨idle.1, fun other thence => ?_⟩
      rcases move_place.mp thence with ⟨same, -⟩ | ⟨-, before⟩
      · rw [same, own]
      · exact absurd before (idle.2 other)
    · obtain ⟨waits, only⟩ := sound.pending first waiter before
      refine ⟨waits, fun other thence => ?_⟩
      rcases move_place.mp thence with ⟨-, same⟩ | ⟨-, later⟩
      · cases same
        exact absurd before (idle.2 first)
      · exact only other later

theorem Sound.unblock (sound : Sound s nodes) {context : Context} {waiter : Waiter Task}
    (here : s.place context = .unblock waiter) :
    Sound ({ s with unblocked := s.unblocked ++ [waiter] }.move context .outside) nodes := by
  obtain ⟨fresh, only⟩ := sound.pending context waiter here
  have enqueues : ∀ other held,
      ({ s with unblocked := s.unblocked ++ [waiter] }.move context .outside).place other =
        .enqueue held → s.place other = .enqueue held := by
    intro other held there
    rcases move_place.mp there with ⟨-, same⟩ | ⟨-, before⟩
    · cases same
    · exact before
  refine ⟨sound.holds, sound.order, sound.freed, sound.tickets, sound.issued, sound.allocated,
    fun other held there => sound.waiting other held (enqueues other held there),
    fun first second held held' there thence => sound.apart first second held held'
      (enqueues first held there) (enqueues second held' thence), ?_, ?_, ?_⟩
  · refine List.nodup_append.mpr ⟨sound.once, List.nodup_singleton _, ?_⟩
    rintro old member other isNew rfl
    exact fresh (List.mem_singleton.mp isNew ▸ member)
  · intro other
    dsimp only [move]
    rw [List.mem_append, List.mem_singleton]
    refine (sound.woken other).trans ⟨?_, ?_⟩
    · rintro (member | ⟨place, there⟩)
      · exact .inl (.inl member)
      · by_cases own : place = context
        · cases here.symm.trans (own ▸ there)
          exact .inl (.inr rfl)
        · exact .inr ⟨place, move_place.mpr (.inr ⟨own, there⟩)⟩
    · rintro ((member | rfl) | ⟨place, there⟩)
      · exact .inl member
      · exact .inr ⟨context, here⟩
      · rcases move_place.mp there with ⟨-, same⟩ | ⟨-, before⟩
        · cases same
        · exact .inr ⟨place, before⟩
  · intro first other there
    rcases move_place.mp there with ⟨-, same⟩ | ⟨apart, before⟩
    · cases same
    · obtain ⟨waits, onlyOther⟩ := sound.pending first other before
      refine ⟨fun member => ?_, fun third thence => ?_⟩
      · rcases List.mem_append.mp member with old | isNew
        · exact waits old
        · rw [List.mem_singleton] at isNew
          exact apart (only first (isNew ▸ before))
      · rcases move_place.mp thence with ⟨-, same⟩ | ⟨-, later⟩
        · cases same
        · exact onlyOther third later

omit [DecidableEq Context] in
theorem Sound.wakeAll (sound : Sound s nodes) {fuel : Nat} {entries : List Nat}
    {queue : WaitQueue Task} (ran : s.queue.wakeAllSection fuel = some (entries, queue)) :
    Sound { s.takeOut queue entries with
      unblocked := s.unblocked ++ entries.map s.waiter } [] := by
  obtain ⟨rfl, isHead, isTail, kept, others⟩ :=
    WaitQueue.wakeAllSection_takes sound.holds.head sound.holds.chain ran
  obtain ⟨order, allocated, nodup, fresh⟩ :=
    sound.takeOut (List.append_nil _).symm kept others
  refine ⟨?_, order, congrArg (· ++ entries.map s.waiter) sound.freed, sound.tickets, sound.issued,
    allocated, fun context entry here =>
      sound.waiting_takeOut (List.append_nil _).symm kept others here, sound.apart, ?_, ?_, ?_⟩
  · dsimp only [WaitSystem.takeOut]
    rw [isHead, isTail]
    exact Holds.empty _
  · refine List.nodup_append.mpr ⟨sound.once, nodup, ?_⟩
    rintro waiter old other isNew rfl
    obtain ⟨entry, member, rfl⟩ := List.mem_map.mp isNew
    exact fresh entry member ((sound.woken _).mpr (.inl old))
  · intro waiter
    dsimp only [WaitSystem.takeOut]
    rw [List.mem_append, List.mem_append, sound.woken, or_right_comm]
  · intro context waiter here
    obtain ⟨waits, only⟩ := sound.pending context waiter here
    refine ⟨fun woken => ?_, only⟩
    rcases List.mem_append.mp woken with old | isNew
    · exact waits old
    · obtain ⟨entry, member, rfl⟩ := List.mem_map.mp isNew
      exact fresh entry member ((sound.woken _).mpr (.inr ⟨context, here⟩))

theorem Sound.returned (sound : Sound s nodes) {context : Context}
    (here : s.place context = .block) : Sound (s.move context .outside) nodes := by
  have places := fun other waiter => @move_unblock Context Task _ s context other .outside waiter
    (fun _ there => nomatch here.symm.trans there) (fun _ => nofun)
  have enqueues : ∀ other held, (s.move context .outside).place other = .enqueue held →
      s.place other = .enqueue held := by
    intro other held there
    rcases move_place.mp there with ⟨-, same⟩ | ⟨-, before⟩
    · cases same
    · exact before
  refine ⟨sound.holds, sound.order, sound.freed, sound.tickets, sound.issued, sound.allocated,
    fun other held there => sound.waiting other held (enqueues other held there),
    fun first second held held' there thence => sound.apart first second held held'
      (enqueues first held there) (enqueues second held' thence), sound.once, ?_, ?_⟩
  · intro waiter
    exact (sound.woken waiter).trans
      (or_congr Iff.rfl (exists_congr fun other => (places other waiter).symm))
  · intro other waiter there
    obtain ⟨fresh, only⟩ := sound.pending other waiter ((places other waiter).mp there)
    exact ⟨fresh, fun third thence => only third ((places third waiter).mp thence)⟩

theorem Sound.step {event : WaitEvent Context Task} (sound : Sound s nodes)
    (step : Step s event after) : ∃ nodes, Sound after nodes := by
  cases step with
  | refused outside => exact ⟨nodes, sound⟩
  | allocated outside unused => exact ⟨nodes, sound.allocate outside unused _⟩
  | enqueued here => exact ⟨_, sound.enqueue here⟩
  | returned here => exact ⟨nodes, sound.returned here⟩
  | none outside ran =>
      obtain ⟨-, rfl⟩ := WaitQueue.wakeOneSection_none ran
      exact ⟨nodes, sound⟩
  | one outside ran =>
      obtain ⟨rest, -, woken⟩ := sound.wakeOne outside ran
      exact ⟨rest, woken⟩
  | unblocked here => exact ⟨nodes, sound.unblock here⟩
  | all outside ran => exact ⟨[], sound.wakeAll ran⟩

/-- In every run the entries from the head to the tail are those that were enqueued and not
removed, in their order, and waking all comes to its end with them.  An entry is removed and
freed at most once, and each removed one has been passed to `task_unblock` once or is about to
be, by one context. -/
theorem waitqueue_fifo (reached : Reachable Fresh Step s) :
    (∃ nodes, Holds s.queue.head s.queue.tail s.queue.next nodes ∧
      s.enqueued = s.removed ++ nodes.map s.waiter ∧
      (∀ entry ∈ nodes, s.queue.allocated entry = true) ∧
      ∃ fuel queue, s.queue.wakeAllSection fuel = some (nodes, queue) ∧
        queue.head = none ∧ queue.tail = none) ∧
    s.enqueued.Nodup ∧ s.freed = s.removed ∧ s.unblocked.Nodup ∧
    (∀ waiter, waiter ∈ s.removed ↔
      waiter ∈ s.unblocked ∨ ∃ context, s.place context = .unblock waiter) ∧
    ∀ context waiter, s.place context = .unblock waiter →
      waiter ∉ s.unblocked ∧ ∀ other, s.place other = .unblock waiter → other = context := by
  obtain ⟨nodes, sound⟩ : ∃ nodes, Sound s nodes := by
    apply reached.invariant (fun s => ∃ nodes, Sound s nodes)
    · intro state fresh
      exact ⟨[], fresh.sound⟩
    · rintro state event after ⟨nodes, sound⟩ step
      exact sound.step step
  obtain ⟨⟨entries, queue⟩, ran⟩ := WaitQueue.wakeAllSection_ends sound.holds.head
    sound.holds.chain (Nat.lt_succ_self _)
  obtain ⟨rfl, isHead, isTail, -⟩ :=
    WaitQueue.wakeAllSection_takes sound.holds.head sound.holds.chain ran
  exact ⟨⟨entries, sound.holds, sound.order, sound.allocated, _, queue, ran, isHead, isTail⟩,
    sound.tickets.of_map, sound.freed, sound.once, sound.woken, sound.pending⟩

def waitBoot : WaitSystem Nat Nat where
  queue := ⟨none, none, fun _ => ⟨0, none⟩, fun _ => false⟩
  place _ := .outside
  ticket _ := 0
  issued := 0
  enqueued := []
  removed := []
  freed := []
  unblocked := []

/-- Two tasks come to an empty queue, and one is woken. -/
theorem waitqueue_fifo_two : ∃ s : WaitSystem Nat Nat,
    s.enqueued = [⟨0, 7⟩, ⟨1, 8⟩] ∧ s.removed = [⟨0, 7⟩] ∧ s.freed = s.removed ∧
      ∃ nodes, Holds s.queue.head s.queue.tail s.queue.next nodes ∧
        s.enqueued = s.removed ++ nodes.map s.waiter := by
  have calm : Fresh waitBoot := ⟨rfl, rfl, fun _ => rfl, rfl, rfl, rfl, rfl⟩
  have first := (Reachable.start calm).next (@Step.allocated Nat Nat _ waitBoot 1 7 64 rfl rfl)
  have queued := first.next (@Step.enqueued Nat Nat _ _ 1 64 rfl)
  have second := queued.next (@Step.allocated Nat Nat _ _ 2 8 96 rfl rfl)
  have waiting := second.next (@Step.enqueued Nat Nat _ _ 2 96 rfl)
  have woken := waiting.next (@Step.one Nat Nat _ _ 3 64 _ rfl rfl)
  obtain ⟨⟨nodes, holds, order, -⟩, -, freed, -⟩ := waitqueue_fifo woken
  exact ⟨_, rfl, rfl, freed, nodes, holds, order⟩

end WaitSystem

end ZurichOS
