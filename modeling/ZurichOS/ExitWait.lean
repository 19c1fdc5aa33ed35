import ZurichOS.ProcessTree

/-!
What a parent hears of a child that makes the exit system call.  `sys_exit` prints the status
and takes the process out of the table, so `process_waitpid` finds no zombie.
-/

namespace ZurichOS

open Words Transitions

/-- Slot `i` makes the exit system call, the others go on, and its parent comes to run. -/
structure ParentWaits (s : Processes) (i parent : Nat) (between : List TreeCall) : Prop where
  exits : processCurrent s = some i
  child : (s.table i).ppid = (s.table parent).pid
  live : (s.table parent).state ≠ .unused ∧ (s.table parent).state ≠ .zombie
  apart : parent ≠ i
  others : Along treeCall
    (fun s call => processCurrent s ≠ some parent ∨ ∃ pid, call = .switch pid) (sysExit s) between
  waits : processCurrent (between.foldl treeCall (sysExit s)) = some parent

/-- The wait of the process that runs for `pid` says that it has exited with `status`. -/
def Delivers (s : Processes) (pid : Nat) (status : Int) : Prop :=
  (processWaitpid s (int32 pid)).1 = int32 pid ∧
    (processWaitpid s (int32 pid)).2.1 = some status

/-- The first zombie that the wait comes to has that pid, and exited with that status. -/
def StandIn (s : Processes) (pid : Nat) (status : Int) : Prop :=
  ∃ parent i entry, processCurrent s = some parent ∧
    (List.range maxProcesses).find? (waitsFor s parent (int32 pid)) = some i ∧
    s.entries i = some entry ∧ entry.zombie = true ∧ entry.pid = pid ∧ entry.exitCode = status

/-- The pids after at most `created` processes were created, while they have not come round. -/
structure PidsApart (created : Nat) (s : Processes) : Prop where
  least : 2 ≤ s.nextPid
  next : s.nextPid ≤ 2 + created
  below : ∀ i entry, s.entries i = some entry → entry.pid < s.nextPid
  unique : ∀ i j first second, s.entries i = some first → s.entries j = some second →
    first.pid = second.pid → i = j
  zombies : ∀ i entry, s.entries i = some entry → entry.zombie = true → 1 < entry.pid

/-- No process in the table has the pid any more, if it was one of a process that can go. -/
structure PidGone (pid : Nat) (s : Processes) : Prop where
  given : pid < s.nextPid
  gone : ∀ i entry, s.entries i = some entry → entry.pid = pid → pid ≤ 1

/-- No process is new, and those that have become zombies have a pid above 1. -/
structure NoneNew (s after : Processes) : Prop where
  next : after.nextPid = s.nextPid
  old : ∀ i entry, after.entries i = some entry → ∃ before, s.entries i = some before ∧
    before.pid = entry.pid ∧ (entry.zombie = true → before.zombie = true ∨ 1 < entry.pid)

section Steps

variable {s after : Processes} {pid created : Nat}

theorem NoneNew.of_same (next : after.nextPid = s.nextPid) (same : after.entries = s.entries) :
    NoneNew s after :=
  ⟨next, fun i entry held => ⟨entry, by rw [← same, held], rfl, .inl⟩⟩

theorem NoneNew.of_removed (next : after.nextPid = s.nextPid) {slot : Nat}
    (removed : after.entries = Function.update s.entries slot none) : NoneNew s after := by
  refine ⟨next, fun i entry held => ?_⟩
  rw [removed] at held
  by_cases own : i = slot
  · subst own
    rw [Function.update_self] at held
    cases held
  · rw [Function.update_of_ne own] at held
    exact ⟨entry, held, rfl, .inl⟩

theorem treeCall_entries (s : Processes) (call : TreeCall) :
    NoneNew s (treeCall s call) ∨
      ∃ slot ppid, s.entries slot = none ∧
        (treeCall s call).nextPid = u32 (s.nextPid + 1) ∧ (treeCall s call).entries =
          Function.update s.entries slot (some ⟨s.nextPid, ppid, false, 0⟩) := by
  cases call with
  | create name ppid =>
      rcases processCreate_entries s name ppid with ⟨same, _⟩ | created
      · exact .inl (.of_same (by rw [treeCall, same]) (by rw [treeCall, same]))
      · obtain ⟨slot, _, free, after, created, next, _, entries⟩ := created
        refine .inr ⟨slot, ppid, free, ?_⟩
        rw [treeCall, created]
        exact ⟨next, entries⟩
  | fork =>
      rcases processFork_entries s with ⟨same, _⟩ | ⟨_, _, slot, _, free, next, _, entries⟩
      · exact .inl (.of_same (by rw [treeCall, same]) (by rw [treeCall, same]))
      · exact .inr ⟨slot, _, free, next, entries⟩
  | sysExit =>
      rcases sysExit_entries s with ⟨same, next, _⟩ | ⟨i, _, _, next, removed⟩
      · exact .inl (.of_same next same)
      · exact .inl (.of_removed next removed)
  | exit status =>
      rcases processExit_entries s status with ⟨same, _⟩ | ⟨i, current, high, next, _, entries⟩
      · exact .inl (.of_same (by rw [treeCall, same]) (by rw [treeCall, same]))
      · refine .inl ⟨next, fun j entry held => ?_⟩
        rw [treeCall, entries] at held
        obtain ⟨before, was, rfl⟩ := Option.map_eq_some_iff.mp held
        refine ⟨before, was, rfl, fun zombie => ?_⟩
        by_cases own : j = i
        · subst own
          have pid := (entries_some was).2.2.1
          exact .inr (by dsimp only; omega)
        · exact .inl (by simpa [own] using zombie)
  | kill pid =>
      rcases processKill_entries s pid with ⟨same, _⟩ | ⟨i, _, _, next, _, removed⟩
      · exact .inl (.of_same (by rw [treeCall, same]) (by rw [treeCall, same]))
      · exact .inl (.of_removed next removed)
  | waitpid pid =>
      rcases processWaitpid_entries s pid with ⟨same, _⟩ | reaped
      · exact .inl (.of_same (by rw [treeCall, same]) (by rw [treeCall, same]))
      · obtain ⟨_, i, _, _, _, _, _, _, _, _, _, next, _, removed⟩ := reaped
        exact .inl (.of_removed next removed)
  | switch pid => exact .inl (.of_same rfl (switch_entries s pid))

theorem PidsApart.step (apart : PidsApart created s) (few : 2 + created + 1 < 4294967296)
    (call : TreeCall) : PidsApart (created + 1) (treeCall s call) := by
  obtain ⟨least, next, below, unique, zombies⟩ := apart
  rcases treeCall_entries s call with ⟨same, old⟩ | ⟨slot, ppid, free, grown, entries⟩
  · refine ⟨by omega, by omega, fun i entry held => ?_, ?_, fun i entry held zombie => ?_⟩
    · obtain ⟨before, was, isPid, _⟩ := old i entry held
      have := below i before was
      omega
    · intro i j first second isFirst isSecond equal
      obtain ⟨_, wasFirst, firstPid, _⟩ := old i first isFirst
      obtain ⟨_, wasSecond, secondPid, _⟩ := old j second isSecond
      exact unique i j _ _ wasFirst wasSecond (by omega)
    · obtain ⟨before, was, isPid, isZombie⟩ := old i entry held
      rcases isZombie zombie with already | high
      · have := zombies i before was already
        omega
      · exact high
  · have grown : (treeCall s call).nextPid = s.nextPid + 1 := by
      rw [grown, u32_eq_of_lt (by omega)]
    have cases : ∀ i entry, (treeCall s call).entries i = some entry →
        (i = slot ∧ entry.pid = s.nextPid ∧ entry.zombie = false) ∨
          s.entries i = some entry := by
      intro i entry held
      rw [entries] at held
      by_cases own : i = slot
      · subst own
        rw [Function.update_self] at held
        cases held
        exact .inl ⟨rfl, rfl, rfl⟩
      · rw [Function.update_of_ne own] at held
        exact .inr held
    refine ⟨by omega, by omega, fun i entry held => ?_, ?_, fun i entry held zombie => ?_⟩
    · rcases cases i entry held with ⟨_, isNext, _⟩ | was
      · omega
      · have := below i entry was
        omega
    · intro i j first second isFirst isSecond equal
      rcases cases i first isFirst with ⟨rfl, firstNext, _⟩ | wasFirst
      · rcases cases j second isSecond with ⟨rfl, _, _⟩ | wasSecond
        · rfl
        · have := below j second wasSecond
          omega
      · rcases cases j second isSecond with ⟨_, secondNext, _⟩ | wasSecond
        · have := below i first wasFirst
          omega
        · exact unique i j first second wasFirst wasSecond equal
    · rcases cases i entry held with ⟨_, _, fresh⟩ | was
      · rw [fresh] at zombie
        cases zombie
      · exact zombies i entry was zombie

theorem PidGone.step (gone : PidGone pid s) (few : s.nextPid + 1 < 4294967296)
    (call : TreeCall) : PidGone pid (treeCall s call) := by
  obtain ⟨given, gone⟩ := gone
  rcases treeCall_entries s call with ⟨same, old⟩ | ⟨slot, ppid, free, grown, entries⟩
  · refine ⟨by omega, fun i entry held isPid => ?_⟩
    obtain ⟨before, was, samePid, _⟩ := old i entry held
    exact gone i before was (samePid.trans isPid)
  · rw [u32_eq_of_lt few] at grown
    refine ⟨by omega, fun i entry held isPid => ?_⟩
    rw [entries] at held
    by_cases own : i = slot
    · subst own
      rw [Function.update_self] at held
      cases held
      dsimp only at isPid
      omega
    · rw [Function.update_of_ne own] at held
      exact gone i entry held isPid

theorem PidsApart.run (apart : PidsApart created s) (calls : List TreeCall)
    (few : 2 + created + calls.length < 4294967296) :
    PidsApart (created + calls.length) (calls.foldl treeCall s) := by
  induction calls generalizing s created with
  | nil => exact apart
  | cons call rest ih =>
      rw [List.length_cons] at few ⊢
      have := ih (apart.step (by omega) call) (by omega)
      rwa [Nat.add_assoc, Nat.add_comm 1] at this

theorem PidGone.run (gone : PidGone pid s) (apart : PidsApart created s) (calls : List TreeCall)
    (few : 2 + created + calls.length < 4294967296) : PidGone pid (calls.foldl treeCall s) := by
  induction calls generalizing s created with
  | nil => exact gone
  | cons call rest ih =>
      rw [List.length_cons] at few
      have next := apart.next
      exact ih (gone.step (by omega) call) (apart.step (by omega) call) (by omega)

theorem processInit_apart : PidsApart 0 processInit := by
  refine ⟨by decide, by decide, ?_, ?_, ?_⟩
  · intro i entry held
    rw [processInit_entries] at held
    have next : processInit.nextPid = 2 := rfl
    grind -ring -linarith
  · intro i j first second isFirst isSecond equal
    rw [processInit_entries] at isFirst isSecond
    grind -ring -linarith
  · intro i entry held zombie
    rw [processInit_entries] at held
    grind -ring -linarith

/-- The process that makes the exit system call is gone, unless it is the kernel or the shell. -/
theorem PidsApart.sysExit_gone (apart : PidsApart created s) {i : Nat}
    (current : processCurrent s = some i) : PidGone (s.table i).pid (sysExit s) := by
  obtain ⟨entry, held, isPid, _⟩ := processGet_entry current
  have own : (s.table i).pid = entry.pid := (entries_some held).2.2.1
  have below := apart.below i entry held
  rcases sysExit_entries s with ⟨same, next, low⟩ | ⟨j, running, _, next, removed⟩
  · exact ⟨by omega, fun _ _ _ _ => low i current⟩
  · cases current.symm.trans running
    refine ⟨by omega, fun k other isOther samePid => ?_⟩
    rw [removed] at isOther
    by_cases slot : k = i
    · subst slot
      rw [Function.update_self] at isOther
      cases isOther
    · rw [Function.update_of_ne slot] at isOther
      exact absurd (apart.unique k i other entry isOther held (samePid.trans own)) slot

/-- Pids are words, so `process_waitpid` cannot take one for another. -/
def PidsWord (s : Processes) : Prop :=
  s.nextPid < 4294967296 ∧ ∀ i entry, s.entries i = some entry → entry.pid < 4294967296

theorem PidsWord.step (word : PidsWord s) (call : TreeCall) : PidsWord (treeCall s call) := by
  obtain ⟨nextWord, word⟩ := word
  rcases treeCall_entries s call with ⟨same, old⟩ | ⟨slot, ppid, free, grown, entries⟩
  · refine ⟨by omega, fun i entry held => ?_⟩
    obtain ⟨before, was, isPid, _⟩ := old i entry held
    exact isPid ▸ word i before was
  · refine ⟨by rw [grown]; exact u32_lt _, fun i entry held => ?_⟩
    rw [entries] at held
    by_cases own : i = slot
    · subst own
      rw [Function.update_self] at held
      cases held
      exact nextWord
    · rw [Function.update_of_ne own] at held
      exact word i entry held

theorem PidsWord.run (word : PidsWord s) (calls : List TreeCall) :
    PidsWord (calls.foldl treeCall s) := by
  induction calls generalizing s with
  | nil => exact word
  | cons call rest ih => exact ih (word.step call)

theorem processInit_word : PidsWord processInit := by
  refine ⟨by decide, fun i entry held => ?_⟩
  have below := processInit_apart.below i entry held
  have next : processInit.nextPid = 2 := rfl
  omega

/-- What a wait for `pid` says can only come from a zombie with that pid and that status. -/
theorem delivers_iff_standIn (word : PidsWord s) (isWord : pid < 4294967296) {status : Int} :
    Delivers s pid status ↔ StandIn s pid status := by
  rcases processWaitpid_entries s (int32 pid) with ⟨same, none⟩ | reaped
  · constructor
    · rintro ⟨_, delivered⟩
      rw [same] at delivered
      cases delivered
    · rintro ⟨parent, i, entry, current, found, _⟩
      rw [none parent current] at found
      cases found
  · obtain ⟨parent, i, entry, current, found, held, _, zombie, _, result, code, _⟩ := reaped
    constructor
    · rintro ⟨isPid, isStatus⟩
      refine ⟨parent, i, entry, current, found, held, zombie, ?_, ?_⟩
      · have below := word.2 i entry held
        rw [result] at isPid
        exact int32_injective below isWord isPid
      · rw [code] at isStatus
        exact Option.some.inj isStatus
    · rintro ⟨other, j, entry', running, foundToo, heldToo, _, isPid, isStatus⟩
      cases current.symm.trans running
      cases found.symm.trans foundToo
      cases held.symm.trans heldToo
      exact ⟨by rw [result, isPid], by rw [code, isStatus]⟩

end Steps

/-- After the exit system call the parent's wait delivers the status only where another
process, given the same pid once the pids have come round, has left it. -/
theorem sys_exit_delivers_iff (calls between : List TreeCall) (status : Int) {i : Nat}
    (current : processCurrent (calls.foldl treeCall processInit) = some i) :
    let s := calls.foldl treeCall processInit
    let after := between.foldl treeCall (sysExit s)
    (Delivers after (s.table i).pid status ↔ StandIn after (s.table i).pid status) ∧
      (StandIn after (s.table i).pid status →
        4294967293 ≤ calls.length + between.length) := by
  intro s after
  obtain ⟨entry, held, _⟩ := processGet_entry current
  have own : (s.table i).pid = entry.pid := (entries_some held).2.2.1
  have word : PidsWord s := processInit_word.run calls
  have isWord : (s.table i).pid < 4294967296 := own ▸ word.2 i entry held
  have wordAfter : PidsWord after := (word.step .sysExit).run between
  refine ⟨delivers_iff_standIn wordAfter isWord, ?_⟩
  rintro ⟨parent, j, other, _, _, heldAfter, zombie, isPid, _⟩
  by_contra few
  have apart : PidsApart (0 + calls.length) s := processInit_apart.run calls (by omega)
  have exited := apart.step (by omega) .sysExit
  have gone := (apart.sysExit_gone current).run exited between (by omega)
  have high := (exited.run between (by omega)).zombies j other heldAfter zombie
  have low := gone.gone j other heldAfter isPid
  omega

def childRuns : List TreeCall := [.create "child".toList 1, .switch 2]

theorem sys_exit_delivers_iff_child :
    let s := childRuns.foldl treeCall processInit
    (Delivers (sysExit s) (s.table 2).pid 7 ↔ StandIn (sysExit s) (s.table 2).pid 7) ∧
      (StandIn (sysExit s) (s.table 2).pid 7 → 4294967293 ≤ 2) :=
  sys_exit_delivers_iff childRuns [] 7 (by decide)

/-- The child exits with 7 and the shell waits for it at once: there is no such child. -/
theorem sys_exit_status_lost :
    ¬ ∀ (calls between : List TreeCall) (i parent : Nat) (status : Int),
      ParentWaits (calls.foldl treeCall processInit) i parent between →
        Delivers (between.foldl treeCall (sysExit (calls.foldl treeCall processInit)))
          ((calls.foldl treeCall processInit).table i).pid status := by
  intro delivers
  have current : processCurrent (childRuns.foldl treeCall processInit) = some 2 := by decide
  have waits : ParentWaits (childRuns.foldl treeCall processInit) 2 1 [] := by
    refine ⟨current, by decide, by decide, by decide, trivial, ?_⟩
    rw [List.foldl_nil, sysExit_eq current]
    decide
  have delivered := (delivers childRuns [] 2 1 7 waits).2
  rw [List.foldl_nil, sysExit_eq current] at delivered
  exact absurd delivered (by decide)

end ZurichOS
