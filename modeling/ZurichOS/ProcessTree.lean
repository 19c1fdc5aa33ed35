import ZurichOS.ParentTable
import ZurichOS.ProcessTable
import ZurichOS.Transitions

/-!
The tree of processes: which calls keep pids apart and leave no process without its parent.
-/

namespace ZurichOS

open Words Transitions ParentTable

def ProcEntry.link (entry : ProcEntry) : Nat × Nat := (entry.pid, entry.ppid)

def treeLinks (s : Processes) (i : Nat) : Option (Nat × Nat) := (s.entries i).map ProcEntry.link

def ProcessTree (s : Processes) : Prop := Sound (treeLinks s)

inductive TreeCall where
  | create (name : List Char) (ppid : Nat)
  | fork
  | sysExit
  | exit (status : Int)
  | kill (pid : Nat)
  | waitpid (pid : Int)
  | switch (pid : Nat)

def treeCall (s : Processes) : TreeCall → Processes
  | .create name ppid => (processCreate s name ppid).2
  | .fork => (processFork s).2
  | .sysExit => sysExit s
  | .exit status => processExit s status
  | .kill pid => (processKill s pid).2
  | .waitpid pid => (processWaitpid s pid).2.2
  | .switch pid => processSetCurrent s pid

/-- No process in use has the pid that `process_create` would give out. -/
def PidFree (s : Processes) : Prop := ∀ i entry, s.entries i = some entry → entry.pid ≠ s.nextPid

def SlotFree (s : Processes) : Prop := ∃ i < maxProcesses, s.entries i = none

/-- No other process in use has this one for its parent. -/
def Childless (s : Processes) (i : Nat) : Prop :=
  ∀ j entry, j ≠ i → s.entries j = some entry → entry.ppid ≠ (s.table i).pid

/-- A process is created under a pid that is free and a parent that is in use, and leaves the
table, other than by `process_exit`, only when it has no children. -/
def TreeCareful (s : Processes) : TreeCall → Prop
  | .create _ ppid => SlotFree s → PidFree s ∧
      (ppid = s.nextPid ∨ ∃ i entry, s.entries i = some entry ∧ entry.pid = ppid)
  | .fork => SlotFree s → processCurrent s ≠ none → PidFree s
  | .sysExit => ∀ i, processCurrent s = some i → 1 < (s.table i).pid → Childless s i
  | .kill pid => ∀ i, processGet s pid = some i → 1 < pid → Childless s i
  | .waitpid pid => ∀ parent i, processCurrent s = some parent →
      (List.range maxProcesses).find? (waitsFor s parent pid) = some i → Childless s i
  | .exit _ | .switch _ => True

section Links

variable {s after : Processes} {i : Nat}

theorem treeLinks_some {name parent : Nat} :
    treeLinks s i = some (name, parent) ↔
      ∃ entry, s.entries i = some entry ∧ entry.pid = name ∧ entry.ppid = parent := by
  simp [treeLinks, ProcEntry.link]

theorem treeLinks_update {entry : Option ProcEntry}
    (same : after.entries = Function.update s.entries i entry) :
    treeLinks after = Function.update (treeLinks s) i (entry.map ProcEntry.link) := by
  funext j
  rw [treeLinks, same]
  by_cases own : j = i
  · subst own
    simp
  · simp [own, treeLinks]

theorem remove_tree_iff (tree : ProcessTree s) {entry : ProcEntry}
    (found : s.entries i = some entry) (same : after.entries = Function.update s.entries i none) :
    ProcessTree after ↔ Childless s i := by
  have pid := (entries_some found).2.2.1
  rw [ProcessTree, treeLinks_update same]
  refine (tree.remove_iff (treeLinks_some.mpr ⟨entry, found, rfl, rfl⟩)).trans ?_
  constructor
  · intro childless j other apart held isChild
    exact childless j other.pid apart (treeLinks_some.mpr ⟨other, held, rfl, isChild.trans pid⟩)
  · intro childless j child apart linked
    obtain ⟨other, held, _, isChild⟩ := treeLinks_some.mp linked
    exact childless j other apart held (isChild.trans pid.symm)

theorem insert_tree_iff (tree : ProcessTree s) {name ppid : Nat} {code : Int} {zombie : Bool}
    (free : s.entries i = none)
    (same : after.entries = Function.update s.entries i (some ⟨name, ppid, zombie, code⟩)) :
    ProcessTree after ↔ (∀ j entry, s.entries j = some entry → entry.pid ≠ name) ∧
      (ppid = name ∨ ∃ j entry, s.entries j = some entry ∧ entry.pid = ppid) := by
  rw [ProcessTree, treeLinks_update same]
  refine (tree.insert_iff (by simp [treeLinks, free])).trans (and_congr ?_ (or_congr Iff.rfl ?_))
  · constructor
    · intro fresh j entry held own
      exact fresh j entry.ppid (treeLinks_some.mpr ⟨entry, held, own, rfl⟩)
    · intro fresh j up linked
      obtain ⟨entry, held, own, _⟩ := treeLinks_some.mp linked
      exact fresh j entry held own
  · constructor
    · rintro ⟨j, up, linked⟩
      obtain ⟨entry, held, own, _⟩ := treeLinks_some.mp linked
      exact ⟨j, entry, held, own⟩
    · rintro ⟨j, entry, held, own⟩
      exact ⟨j, entry.ppid, treeLinks_some.mpr ⟨entry, held, own, rfl⟩⟩

end Links

/-- The tree, with the shell in it, to which orphans go. -/
structure TreeKept (s : Processes) : Prop where
  tree : ProcessTree s
  init : ∃ i entry, s.entries i = some entry ∧ entry.pid = 1 ∧ entry.zombie = false

section Steps

variable {s after : Processes} {i : Nat}

theorem tree_congr (same : after.entries = s.entries) : ProcessTree after ↔ ProcessTree s := by
  have links : treeLinks after = treeLinks s := funext fun j => by rw [treeLinks, same, treeLinks]
  rw [ProcessTree, links, ProcessTree]

theorem switch_entries (s : Processes) (pid : Nat) :
    (processSetCurrent s pid).entries = s.entries := rfl

theorem create_tree_iff (kept : TreeKept s) (name : List Char) (ppid : Nat) :
    ProcessTree (processCreate s name ppid).2 ↔ TreeCareful s (.create name ppid) := by
  rcases processCreate_entries s name ppid with ⟨same, full⟩ | created
  · rw [same]
    refine iff_of_true kept.tree ?_
    rintro ⟨i, inside, free⟩
    exact absurd free (full i inside)
  · obtain ⟨slot, inside, free, after, created, _, _, entries⟩ := created
    rw [created]
    refine (insert_tree_iff kept.tree free entries).trans ?_
    exact ⟨fun sound _ => sound, fun careful => careful ⟨slot, inside, free⟩⟩

theorem fork_tree_iff (kept : TreeKept s) :
    ProcessTree (processFork s).2 ↔ TreeCareful s .fork := by
  rcases processFork_entries s with ⟨same, refused⟩ | forked
  · rw [same]
    refine iff_of_true kept.tree ?_
    rintro ⟨i, inside, free⟩ running
    rcases refused with none | full
    · exact absurd none running
    · exact absurd free (full i inside)
  · obtain ⟨parent, current, slot, inside, free, _, _, entries⟩ := forked
    refine (insert_tree_iff kept.tree free entries).trans ?_
    obtain ⟨entry, held, own, _⟩ := processGet_entry current
    have pid := (entries_some held).2.2.1
    constructor
    · exact fun sound _ _ => sound.1
    · intro careful
      refine ⟨careful ⟨slot, inside, free⟩ (by rw [current]; simp), .inr ⟨parent, entry, held, ?_⟩⟩
      exact pid.symm

theorem sysExit_tree_iff (kept : TreeKept s) :
    ProcessTree (sysExit s) ↔ TreeCareful s .sysExit := by
  rcases sysExit_entries s with ⟨same, _, low⟩ | ⟨i, current, high, _, entries⟩
  · refine iff_of_true ((tree_congr same).mpr kept.tree) fun i current high => ?_
    have := low i current
    omega
  · obtain ⟨entry, held, _⟩ := processGet_entry current
    refine (remove_tree_iff kept.tree held entries).trans ?_
    constructor
    · intro childless j running _
      rw [current] at running
      cases running
      exact childless
    · exact fun careful => careful i current high

theorem kill_tree_iff (kept : TreeKept s) (pid : Nat) :
    ProcessTree (processKill s pid).2 ↔ TreeCareful s (.kill pid) := by
  rcases processKill_entries s pid with ⟨same, refused⟩ | ⟨i, high, found, _, _, entries⟩
  · rw [same]
    refine iff_of_true kept.tree fun i found high => ?_
    rcases refused with low | missing
    · omega
    · rw [missing] at found
      cases found
  · obtain ⟨entry, held, _⟩ := processGet_entry found
    refine (remove_tree_iff kept.tree held entries).trans ?_
    constructor
    · intro childless j isFound _
      rw [found] at isFound
      cases isFound
      exact childless
    · exact fun careful => careful i found high

theorem waitpid_tree_iff (kept : TreeKept s) (pid : Int) :
    ProcessTree (processWaitpid s pid).2.2 ↔ TreeCareful s (.waitpid pid) := by
  rcases processWaitpid_entries s pid with ⟨same, missing⟩ | reaped
  · rw [same]
    refine iff_of_true kept.tree fun parent i current found => ?_
    rw [missing parent current] at found
    cases found
  · obtain ⟨parent, i, entry, current, found, held, _, _, _, _, _, _, _, entries⟩ := reaped
    refine (remove_tree_iff kept.tree held entries).trans ?_
    constructor
    · intro childless other j running isFound
      rw [current] at running
      cases running
      rw [found] at isFound
      cases isFound
      exact childless
    · exact fun careful => careful parent i current found

theorem exit_tree (kept : TreeKept s) (status : Int) : ProcessTree (processExit s status) := by
  rcases processExit_entries s status with ⟨same, _⟩ | ⟨i, _, _, _, _, entries⟩
  · rw [same]
    exact kept.tree
  · obtain ⟨j, entry, held, isInit, _⟩ := kept.init
    have links : treeLinks (processExit s status) = fun k => (treeLinks s k).map fun link =>
        (link.1, if link.2 = (s.table i).pid then 1 else link.2) := by
      funext k
      simp only [treeLinks, entries, Option.map_map]
      rfl
    rw [ProcessTree, links]
    exact kept.tree.reparent ⟨j, entry.ppid, treeLinks_some.mpr ⟨entry, held, isInit, rfl⟩⟩

theorem treeCall_tree_iff (kept : TreeKept s) (call : TreeCall) :
    ProcessTree (treeCall s call) ↔ TreeCareful s call := by
  cases call with
  | create name ppid => exact create_tree_iff kept name ppid
  | fork => exact fork_tree_iff kept
  | sysExit =>
      rw [treeCall]
      exact sysExit_tree_iff kept
  | exit status => exact iff_of_true (exit_tree kept status) trivial
  | kill pid => exact kill_tree_iff kept pid
  | waitpid pid => exact waitpid_tree_iff kept pid
  | switch pid => exact iff_of_true ((tree_congr (switch_entries s pid)).mpr kept.tree) trivial

theorem init_update (kept : TreeKept s) {slot : Nat} {entry : Option ProcEntry}
    (other : ∀ held, s.entries slot = some held → held.pid = 1 → held.zombie = true)
    (same : after.entries = Function.update s.entries slot entry) :
    ∃ i entry, after.entries i = some entry ∧ entry.pid = 1 ∧ entry.zombie = false := by
  obtain ⟨i, shell, held, isInit, alive⟩ := kept.init
  refine ⟨i, shell, ?_, isInit, alive⟩
  rw [same, Function.update_of_ne, held]
  rintro rfl
  rw [other shell held isInit] at alive
  cases alive

theorem treeCall_init (kept : TreeKept s) (call : TreeCall) :
    ∃ i entry, (treeCall s call).entries i = some entry ∧ entry.pid = 1 ∧
      entry.zombie = false := by
  have unchanged : ∀ {after : Processes}, after.entries = s.entries →
      ∃ i entry, after.entries i = some entry ∧ entry.pid = 1 ∧ entry.zombie = false :=
    fun same => by rw [same]; exact kept.init
  have notFree : ∀ {slot : Nat}, s.entries slot = none →
      ∀ held, s.entries slot = some held → held.pid = 1 → held.zombie = true := by
    intro slot free held isHeld
    rw [free] at isHeld
    cases isHeld
  have above : ∀ {i : Nat}, 1 < (s.table i).pid →
      ∀ held, s.entries i = some held → held.pid = 1 → held.zombie = true := by
    intro i high held isHeld isInit
    have pid := (entries_some isHeld).2.2.1
    omega
  cases call with
  | create name ppid =>
      rcases processCreate_entries s name ppid with ⟨same, _⟩ | created
      · exact unchanged (by rw [treeCall, same])
      · obtain ⟨slot, _, free, after, created, _, _, entries⟩ := created
        rw [treeCall, created]
        exact init_update kept (notFree free) entries
  | fork =>
      rcases processFork_entries s with ⟨same, _⟩ | ⟨_, _, slot, _, free, _, _, entries⟩
      · exact unchanged (by rw [treeCall, same])
      · exact init_update kept (notFree free) entries
  | sysExit =>
      rcases sysExit_entries s with ⟨same, _⟩ | ⟨i, _, high, _, entries⟩
      · exact unchanged same
      · exact init_update kept (above high) entries
  | exit status =>
      rcases processExit_entries s status with ⟨same, _⟩ | ⟨i, _, high, _, _, entries⟩
      · exact unchanged (by rw [treeCall, same])
      · obtain ⟨j, shell, held, isInit, alive⟩ := kept.init
        have apart : j ≠ i := by
          rintro rfl
          rw [above high shell held isInit] at alive
          cases alive
        have after := congrFun entries j
        rw [held, Option.map_some, if_neg apart, alive] at after
        exact ⟨j, _, after, isInit, rfl⟩
  | kill pid =>
      rcases processKill_entries s pid with ⟨same, _⟩ | ⟨i, high, found, _, _, entries⟩
      · exact unchanged (by rw [treeCall, same])
      · refine init_update kept (above ?_) entries
        rw [(processGet_some found).2.2]
        exact high
  | waitpid pid =>
      rcases processWaitpid_entries s pid with ⟨same, _⟩ | reaped
      · exact unchanged (by rw [treeCall, same])
      · obtain ⟨_, i, entry, _, _, held, _, zombie, _, _, _, _, _, entries⟩ := reaped
        refine init_update kept (fun other isHeld _ => ?_) entries
        rw [held] at isHeld
        cases isHeld
        exact zombie
  | switch pid => exact unchanged (switch_entries s pid)

end Steps

theorem processInit_kept : TreeKept processInit := by
  refine ⟨⟨?_, ?_⟩, 1, _, processInit_entries 1, rfl, rfl⟩
  · intro left right name first second isLeft isRight
    simp only [treeLinks, processInit_entries] at isLeft isRight
    grind -ring -linarith [ProcEntry.link]
  · intro i name parent linked
    refine ⟨0, 0, ?_⟩
    simp only [treeLinks, processInit_entries] at linked ⊢
    grind -ring -linarith [ProcEntry.link]

/-- In a run of calls from `process_init`, the table is a tree after every call exactly if
every call is careful. -/
theorem process_tree_run_iff (calls : List TreeCall) :
    Along treeCall (fun s call => ProcessTree (treeCall s call)) processInit calls ↔
      Along treeCall TreeCareful processInit calls :=
  along_congr TreeKept
    (fun _ call kept careful =>
      ⟨(treeCall_tree_iff kept call).mpr careful, treeCall_init kept call⟩)
    (fun _ call kept => treeCall_tree_iff kept call) processInit_kept calls

/-- A process with a child is killed, and its child keeps it for a parent. -/
theorem killed_parent_kept :
    ¬ ∀ calls, Along treeCall (fun s call => ProcessTree (treeCall s call)) processInit calls := by
  intro all
  have tree := (all [.create "parent".toList 1, .create "child".toList 2, .kill 2]).2.2.1
  obtain ⟨i, up, parent⟩ := tree.parented 3 3 2 (by decide)
  obtain ⟨entry, held, pid, _⟩ := treeLinks_some.mp parent
  have inside := (entries_some held).1
  have none : ∀ i < maxProcesses, (treeLinks (treeCall (treeCall (treeCall processInit
      (.create "parent".toList 1)) (.create "child".toList 2)) (.kill 2)) i).map Prod.fst ≠
        some 2 := by decide
  exact none i inside (by rw [parent]; rfl)

end ZurichOS
