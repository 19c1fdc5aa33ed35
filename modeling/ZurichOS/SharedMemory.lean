import ZurichOS.FrameBatch
import ZurichOS.Holdings
import ZurichOS.Transitions

set_option linter.all false

/-!
Shared memory between its calls and the other users of the frame allocator: which frames each
region was given, and which it maps and frees.
-/

namespace ZurichOS

open Words Holdings Transitions

def shmDestroy (s : UserMemory) (shmid : Nat) : Int × UserMemory :=
  if maxShmRegions ≤ shmid then (-22, s)
  else
    let region := s.shmRegions shmid
    if !region.inUse then (-22, s)
    else if 0 < region.refCount then (-16, s)
    else
      let frames := (List.range (shmPages region.size)).map (shmFrame region.physAddr)
      let s := { s with mm := { s.mm with pmm := frames.foldl pmmFreeFrame s.mm.pmm } }
      (0, s.setRegion shmid { region with inUse := false })

/-- The memory, the frames that `pmm_alloc_frame` gave to each region and to its other users,
and the attachments, a region and an address each, that are not yet detached. -/
structure ShmSystem where
  memory : UserMemory
  given : Nat → List Nat
  held : List Nat
  attached : List (Nat × Nat)

inductive ShmCall where
  | create (key size : Nat)
  | attach (shmid vaddr : Nat)
  | detach (addr : Nat)
  | destroy (shmid : Nat)
  | alloc
  | free (addr : Nat)

def ShmSystem.inUse (s : ShmSystem) (shmid : Nat) : Bool := (s.memory.shmRegions shmid).inUse

def ShmSystem.pmm (s : ShmSystem) : Pmm := s.memory.mm.pmm

def ShmSystem.pages (s : ShmSystem) (shmid : Nat) : Nat := shmPages (s.memory.shmRegions shmid).size

/-- The region last attached at an address. -/
def ShmSystem.attachedAt (s : ShmSystem) (addr : Nat) : Option Nat :=
  (s.attached.find? fun attachment => attachment.2 == addr).map Prod.fst

def shmStep (s : ShmSystem) : ShmCall → ShmSystem
  | .create key size =>
      { s with
        memory := (shmCreate s.memory key size).2
        given := fun shmid =>
          if s.inUse shmid then s.given shmid else (allocFrames (shmPages size) s.pmm).1 }
  | .attach shmid vaddr =>
      { s with
        memory := (shmAttach s.memory shmid vaddr).2
        attached :=
          if shmid < maxShmRegions ∧ s.inUse shmid then (shmid, vaddr) :: s.attached
          else s.attached }
  | .detach addr =>
      { s with
        memory := (shmDetach s.memory addr).2
        attached := s.attached.eraseP fun attachment => attachment.2 == addr }
  | .destroy shmid => { s with memory := (shmDestroy s.memory shmid).2 }
  | .alloc =>
      let allocated := pmmAllocFrame s.pmm
      { s with
        memory := { s.memory with mm := { s.memory.mm with pmm := allocated.2 } }
        held := if allocated.1 = 0 then s.held else allocated.1 :: s.held }
  | .free addr =>
      -- Only the frames that were handed out come back.
      if addr ∈ s.held then
        { s with
          memory :=
            { s.memory with mm := { s.memory.mm with pmm := pmmFreeFrame s.pmm addr } }
          held := s.held.erase addr }
      else s

/-- The frames of each region and, under `none`, those of the other users. -/
def ShmSystem.frames (s : ShmSystem) : Option Nat → List Nat
  | none => s.held
  | some shmid => if s.inUse shmid then s.given shmid else []

/-- An allocated frame that is no page table. -/
def Mm.Owned (m : Mm) (addr : Nat) : Prop := m.pmm.Holds addr ∧ m.Harmless (addr / 4096)

/-- Each region has as many frames as pages, no frame was given out twice or is free, and the
reference counts are the numbers of attachments. -/
structure RegionsSound (s : ShmSystem) : Prop where
  pages : ∀ shmid, s.inUse shmid → (s.given shmid).length = s.pages shmid
  exclusive : Exclusive s.frames
  owned : ∀ holder, ∀ addr ∈ s.frames holder, s.memory.mm.Owned addr
  references : ∀ shmid, s.inUse shmid → (s.memory.shmRegions shmid).refCount =
    s.attached.countP fun attachment => attachment.1 == shmid

/-- The pages from `vaddr` on map the frames in order; other pages are as before. -/
def MapsExactly (m after : Mm) (vaddr : Nat) (frames : List Nat) : Prop :=
  (∀ i (inside : i < frames.length), after.mapping (u32 (vaddr + i * 0x1000)) =
    some (frames.get ⟨i, inside⟩)) ∧
  ∀ virt, pdIndex virt ≠ recursivePdIndex →
    (∀ i < frames.length, pageOf (u32 (vaddr + i * 0x1000)) ≠ pageOf virt) →
    after.mapping virt = m.mapping virt

/-- A failed create leaves the allocator as it was, an attach maps the region's frames, and a
destroy frees them, in each case no others. -/
def ShmCallSound (s : ShmSystem) : ShmCall → Prop
  | .create key size =>
      (shmCreate s.memory key size).1 < 0 → (shmCreate s.memory key size).2.mm.pmm = s.pmm
  | .attach shmid vaddr => shmid < maxShmRegions → s.inUse shmid →
      MapsExactly s.memory.mm (shmAttach s.memory shmid vaddr).2.mm vaddr (s.given shmid)
  | .destroy shmid => (shmDestroy s.memory shmid).1 = 0 → ∀ frame,
      (shmDestroy s.memory shmid).2.mm.pmm.bitmapTest frame =
        (s.pmm.bitmapTest frame && !decide (frame * 4096 ∈ s.given shmid))
  | _ => True

structure ShmSound (s : ShmSystem) (call : ShmCall) : Prop where
  effect : ShmCallSound s call
  regions : RegionsSound (shmStep s call)

/-- Frames that lie one after the other. -/
def InRow (frames : List Nat) : Prop :=
  frames = (List.range frames.length).map (shmFrame (frames.headD 0))

instance (frames : List Nat) : Decidable (InRow frames) := inferInstanceAs (Decidable (_ = _))

/-- A create that finds no region with its key, and a slot for one. -/
def ShmTakes (s : ShmSystem) (key size : Nat) : Prop :=
  size ≠ 0 ∧ size ≤ shmMaxSize ∧
    (∀ shmid < maxShmRegions, s.inUse shmid → (s.memory.shmRegions shmid).key ≠ key) ∧
    ∃ shmid < maxShmRegions, s.inUse shmid = false

def mapCalls (vaddr phys count : Nat) : List VmmCall :=
  (List.range count).map fun i => .mapPage (u32 (vaddr + i * 0x1000)) (shmFrame phys i)
    (pagePresent ||| pageWrite ||| pageUser)

/-- The page loops stay outside the window on the page tables. -/
def OutsideWindow (vaddr count : Nat) : Prop :=
  ∀ i < count, pdIndex (u32 (vaddr + i * 0x1000)) ≠ recursivePdIndex

instance (vaddr count : Nat) : Decidable (OutsideWindow vaddr count) :=
  inferInstanceAs (Decidable (∀ i < count, _))

def ShmCareful (s : ShmSystem) : ShmCall → Prop
  | .create key size => ShmTakes s key size →
      (allocFrames (shmPages size) s.pmm).1.length < shmPages size →
        InRow (allocFrames (shmPages size) s.pmm).1
  | .attach shmid vaddr => shmid < maxShmRegions → s.inUse shmid →
      InRow (s.given shmid) ∧ OutsideWindow vaddr (s.pages shmid) ∧
        (s.memory.mm.newTables (mapCalls vaddr (s.memory.shmRegions shmid).physAddr
          (s.pages shmid))).card ≤ s.pmm.freeFrames ∧
        (s.memory.shmRegions shmid).refCount + 1 < 4294967296
  | .detach addr => ∀ first, shmFirst s.memory = some first →
      OutsideWindow addr (s.pages first) ∧
        (∀ shmid, s.attachedAt addr = some shmid → shmid = first) ∧
        (s.attachedAt addr = none → (s.memory.shmRegions first).refCount = 0)
  | .destroy shmid => shmid < maxShmRegions → s.inUse shmid →
      (s.memory.shmRegions shmid).refCount = 0 → InRow (s.given shmid)
  | _ => True

/-- The invariant of careful runs. -/
structure ShmKept (s : ShmSystem) : Prop where
  guarded : s.memory.mm.Guarded
  accounted : s.pmm.Accounted
  inside : ∀ shmid, s.inUse shmid → shmid < maxShmRegions
  sizes : ∀ shmid, s.inUse shmid → (s.memory.shmRegions shmid).size ≤ shmMaxSize
  given : ∀ shmid, s.inUse shmid → (s.given shmid).length = s.pages shmid ∧
    (s.memory.shmRegions shmid).physAddr = (s.given shmid).headD 0
  exclusive : Exclusive s.frames
  owned : ∀ holder, ∀ addr ∈ s.frames holder, s.memory.mm.Owned addr
  references : ∀ shmid, (s.attached.countP fun attachment => attachment.1 == shmid) =
    if s.inUse shmid then (s.memory.shmRegions shmid).refCount else 0

theorem ShmKept.sound {s : ShmSystem} (kept : ShmKept s) : RegionsSound s := by
  refine ⟨fun shmid live => (kept.given shmid live).1, kept.exclusive, kept.owned,
    fun shmid live => ?_⟩
  rw [kept.references, if_pos live]

section Create

theorem shmTakeFrames_eq (phys index count : Nat) (pmm : Pmm) :
    shmTakeFrames phys index count pmm =
      if (allocFrames count pmm).1.length = count then (true, (allocFrames count pmm).2)
      else (false, ((List.range (index + (allocFrames count pmm).1.length)).map
        (shmFrame phys)).foldl pmmFreeFrame (allocFrames count pmm).2) := by
  induction count generalizing index pmm with
  | zero => rfl
  | succ count ih =>
      unfold shmTakeFrames allocFrames
      dsimp only
      by_cases dry : (pmmAllocFrame pmm).1 = 0
      · simp only [if_pos dry, List.length_nil, Nat.add_zero]
        rw [if_neg (by omega)]
      · simp only [if_neg dry, List.length_cons, Nat.add_right_cancel_iff]
        rw [ih, Nat.add_right_comm, Nat.add_assoc]

/-- What a create does that takes frames, `taken` being the frames it gets and the allocator
after it. -/
def shmCreated (s : UserMemory) (key size shmid : Nat) (taken : List Nat × Pmm) :
    Int × UserMemory :=
  if taken.1.length = shmPages size then
    (shmid, { s with mm := { s.mm with pmm := taken.2 } }.setRegion shmid
      { key, size, physAddr := taken.1.headD 0, refCount := 0, inUse := true })
  else
    (-12, { s with mm := { s.mm with
      pmm := ((List.range taken.1.length).map (shmFrame (taken.1.headD 0))).foldl pmmFreeFrame
        taken.2 } })

theorem shmPages_eq {size : Nat} (small : size ≤ shmMaxSize) :
    shmPages size = (size + 0xFFF) / 0x1000 := by
  have limit : shmMaxSize = 1048576 := rfl
  rw [shmPages, u32_eq_of_lt (by omega)]

/-- A create answers without a change, or it takes frames for a region that was free. -/
theorem shmCreate_cases (s : ShmSystem) (key size : Nat) :
    (shmCreate s.memory key size).2 = s.memory ∨
      ∃ shmid < maxShmRegions, s.inUse shmid = false ∧ ShmTakes s key size ∧
        shmCreate s.memory key size =
          shmCreated s.memory key size shmid (allocFrames (shmPages size) s.pmm) := by
  unfold shmCreate
  by_cases bad : size = 0 ∨ shmMaxSize < size
  · rw [if_pos bad]
    exact .inl rfl
  · rw [if_neg bad]
    dsimp only
    cases found : (List.range maxShmRegions).find? fun i =>
      (s.memory.shmRegions i).inUse && (s.memory.shmRegions i).key == key with
    | some shmid => exact .inl rfl
    | none =>
        cases slot : (List.range maxShmRegions).find? fun i => !(s.memory.shmRegions i).inUse with
        | none => exact .inl rfl
        | some shmid =>
            have inside := List.mem_range.mp (List.mem_of_find?_eq_some slot)
            have isFree : s.inUse shmid = false := by
              simpa [ShmSystem.inUse] using List.find?_some slot
            have apart : ∀ other < maxShmRegions, s.inUse other →
                (s.memory.shmRegions other).key ≠ key := fun other bound live same => by
              have unmatched := List.find?_eq_none.mp found other (List.mem_range.mpr bound)
              simp [show (s.memory.shmRegions other).inUse = true from live, same] at unmatched
            refine .inr ⟨shmid, inside, isFree, ⟨fun zero => bad (.inl zero),
              Nat.le_of_not_lt fun large => bad (.inr large), apart, shmid, inside, isFree⟩, ?_⟩
            have positive : shmPages size ≠ 0 := by
              rw [shmPages_eq (by omega)]
              omega
            obtain ⟨count, pages⟩ := Nat.exists_eq_succ_of_ne_zero positive
            simp only [shmCreated, pages, shmTakeFrames_eq, Nat.succ_sub_one, allocFrames,
              ShmSystem.pmm]
            by_cases dry : (pmmAllocFrame s.memory.mm.pmm).1 = 0
            · simp [dry]
            · simp only [if_neg dry, List.length_cons, List.headD_cons]
              split <;> simp_all [Nat.add_comm 1]

end Create

section Owned

variable {m : Mm} {after : Pmm} {frames : List Nat}

theorem Mm.RunKept.owned {m after : Mm} (kept : RunKept m after) {addr : Nat}
    (owned : m.Owned addr) : after.Owned addr := by
  refine ⟨?_, kept.harmless _ owned.2⟩
  rw [Pmm.Holds, kept.total]
  exact owned.1

theorem batch_fresh (guarded : m.Guarded) (batch : Pmm.Batch m.pmm after frames) {addr : Nat}
    (inside : addr ∈ frames) : ¬ m.Owned addr ∧ ({ m with pmm := after } : Mm).Owned addr := by
  obtain ⟨held, isFree⟩ := batch.isFree addr inside
  refine ⟨fun owned => ?_, ?_, fun index bound table same => ?_, ?_⟩
  · rw [owned.2.2] at isFree
    cases isFree
  · rw [Pmm.Holds, batch.same.frames]
    exact held
  · have used := (guarded.reserved index bound table).2
    rw [show frameOf (m.pde index) = addr / 4096 from same, isFree] at used
    cases used
  · rw [batch.bits, show addr / 4096 * 4096 = addr by have := held.1; omega]
    simp [inside]

theorem batch_kept (guarded : m.Guarded) (batch : Pmm.Batch m.pmm after frames) :
    Mm.RunKept m { m with pmm := after } := by
  have used : ∀ frame, m.pmm.bitmapTest frame = true → after.bitmapTest frame = true :=
    fun frame on => by rw [batch.bits, on, Bool.true_or]
  exact ⟨(guarded.withPmm batch.same.frames fun index bound table =>
      used _ (guarded.reserved index bound table).2).guarded, batch.accounted, batch.same.frames,
    fun frame harmless => ⟨harmless.1, used frame harmless.2⟩⟩

theorem freed_kept (guarded : m.Guarded) (freed : Pmm.Freed m.pmm after frames)
    (all : ∀ addr ∈ frames, m.Owned addr) :
    ({ m with pmm := after } : Mm).Guarded ∧
      ∀ addr, m.Owned addr → addr ∉ frames → ({ m with pmm := after } : Mm).Owned addr := by
  refine ⟨(guarded.withPmm freed.same.frames fun index bound table => ?_).guarded,
    fun addr owned outside => ⟨?_, owned.2.1, ?_⟩⟩
  · rw [freed.bits, (guarded.reserved index bound table).2, Bool.true_and, Bool.not_eq_true',
      decide_eq_false_iff_not]
    intro inside
    refine (all _ inside).2.1 index bound table ?_
    omega
  · rw [Pmm.Holds, freed.same.frames]
    exact owned.1
  · rw [freed.bits, owned.2.2, show addr / 4096 * 4096 = addr by have := owned.1.1; omega]
    simp [outside]

end Owned

section Kept

variable {s : ShmSystem}

theorem ShmKept.edit (kept : ShmKept s) {mm : Mm} (run : Mm.RunKept s.memory.mm mm) :
    ShmKept { s with memory := { s.memory with mm } } where
  guarded := run.guarded
  accounted := run.accounted
  inside := kept.inside
  sizes := kept.sizes
  given := kept.given
  exclusive := kept.exclusive
  owned holder addr inside := run.owned (kept.owned holder addr inside)
  references := kept.references

/-- A region in use gets another reference count, with other attachments. -/
theorem ShmKept.recount (kept : ShmKept s) {shmid refCount : Nat} {attached : List (Nat × Nat)}
    (live : s.inUse shmid)
    (counts : ∀ other, (attached.countP fun attachment => attachment.1 == other) =
      if other = shmid then refCount
      else s.attached.countP fun attachment => attachment.1 == other) :
    ShmKept { s with
      memory := s.memory.setRegion shmid { s.memory.shmRegions shmid with refCount }
      attached } := by
  have region : ∀ other, ((s.memory.setRegion shmid
      { s.memory.shmRegions shmid with refCount }).shmRegions other) =
      { s.memory.shmRegions other with
        refCount := if other = shmid then refCount else (s.memory.shmRegions other).refCount } := by
    intro other
    by_cases own : other = shmid <;> simp [UserMemory.setRegion, own]
  generalize after : s.memory.setRegion shmid { s.memory.shmRegions shmid with refCount } = memory
    at region ⊢
  have mm : memory.mm = s.memory.mm := by rw [← after]; rfl
  have inUse : ∀ other, (memory.shmRegions other).inUse = s.inUse other := fun other => by
    rw [region]
    rfl
  have frames : ShmSystem.frames { s with memory, attached } = s.frames := by
    funext holder
    cases holder with
    | none => rfl
    | some other =>
        exact congrArg (fun used : Bool => if used then s.given other else []) (inUse other)
  constructor
  · rw [mm]
    exact kept.guarded
  · show memory.mm.pmm.Accounted
    rw [mm]
    exact kept.accounted
  · exact fun other used => kept.inside other ((inUse other).symm.trans used)
  · intro other used
    rw [region]
    exact kept.sizes other ((inUse other).symm.trans used)
  · intro other used
    show _ = shmPages (memory.shmRegions other).size ∧ _
    rw [region]
    exact kept.given other ((inUse other).symm.trans used)
  · rw [frames]
    exact kept.exclusive
  · intro holder addr inside
    rw [frames] at inside
    rw [mm]
    exact kept.owned holder addr inside
  · intro other
    show _ = if (memory.shmRegions other).inUse then (memory.shmRegions other).refCount else 0
    rw [inUse, region, counts]
    dsimp only
    by_cases own : other = shmid
    · rw [if_pos own, if_pos own, own, if_pos live]
    · rw [if_neg own, if_neg own]
      exact kept.references other

/-- What a detach leaves of the attachments, region by region. -/
theorem countP_detach (s : ShmSystem) (addr other : Nat) :
    (s.attached.countP fun attachment => attachment.1 == other) =
      ((s.attached.eraseP fun attachment => attachment.2 == addr).countP fun attachment =>
        attachment.1 == other) + if s.attachedAt addr = some other then 1 else 0 := by
  unfold ShmSystem.attachedAt
  induction s.attached with
  | nil => rfl
  | cons attachment rest ih =>
      by_cases isAt : attachment.2 = addr
      · simp [List.countP_cons, isAt]
      · rw [List.eraseP_cons_of_neg (by simpa using isAt), List.countP_cons, List.countP_cons, ih,
          List.find?_cons_of_neg (by simpa using isAt)]
        omega

theorem shmFirst_none (kept : ShmKept s) (none : shmFirst s.memory = none) (shmid : Nat) :
    s.inUse shmid = false := by
  by_cases inside : shmid < maxShmRegions
  · simpa [ShmSystem.inUse] using List.find?_eq_none.mp none shmid (List.mem_range.mpr inside)
  · exact Bool.eq_false_iff.mpr fun live => inside (kept.inside shmid live)

theorem shmDetach_kept (kept : ShmKept s) {addr : Nat} (careful : ShmCareful s (.detach addr)) :
    ShmKept (shmStep s (.detach addr)) := by
  simp only [shmStep]
  unfold shmDetach
  cases found : shmFirst s.memory with
  | none =>
      have empty : s.attached = [] := by
        cases attached : s.attached with
        | nil => rfl
        | cons attachment rest =>
            have count := kept.references attachment.1
            rw [shmFirst_none kept found, attached, List.countP_cons] at count
            simp at count
      rw [empty, List.eraseP_nil, ← empty]
      exact kept
  | some first =>
      obtain ⟨outside, own, idle⟩ := careful first found
      have live : s.inUse first := List.find?_some found
      have pages : ∀ page ∈ shmAddresses addr (s.memory.shmRegions first).size,
          pdIndex page ≠ recursivePdIndex := fun page inside => by
        obtain ⟨i, bound, rfl⟩ := List.mem_map.mp inside
        exact outside i (List.mem_range.mp bound)
      have run := kept.edit (kept.guarded.unmapPages_kept kept.accounted pages)
      have counts := countP_detach s addr
      dsimp only
      cases isAt : s.attachedAt addr with
      | none =>
          rw [if_neg (by rw [idle isAt]; omega), List.eraseP_of_forall_not]
          · exact run
          · intro attachment inside same
            have missing := Option.map_eq_none_iff.mp isAt
            simpa [same] using List.find?_eq_none.mp missing attachment inside
      | some shmid =>
          obtain rfl := own shmid isAt
          have count := kept.references shmid
          rw [if_pos live, counts, isAt, if_pos rfl] at count
          rw [if_pos (by omega)]
          refine run.recount live fun other => ?_
          have other' := counts other
          rw [isAt] at other'
          by_cases same : other = shmid
          · rw [if_pos same, same]
            omega
          · rw [if_neg fun is => same (Option.some.inj is).symm] at other'
            rw [if_neg same]
            exact other'.symm

theorem mapCalls_run (m : Mm) (vaddr phys count : Nat) :
    (List.range count).foldl (fun m i =>
      vmmMapPage m (u32 (vaddr + i * 0x1000)) (shmFrame phys i)
        (pagePresent ||| pageWrite ||| pageUser)) m = m.run (mapCalls vaddr phys count) := by
  rw [Mm.run, mapCalls, List.foldl_map]
  rfl

theorem shmAttach_live {shmid : Nat} (inside : shmid < maxShmRegions) (live : s.inUse shmid)
    (vaddr : Nat) :
    (shmAttach s.memory shmid vaddr).2 =
      { s.memory with
        mm := s.memory.mm.run (mapCalls vaddr (s.memory.shmRegions shmid).physAddr
          (s.pages shmid)) }.setRegion shmid
        { s.memory.shmRegions shmid with
          refCount := u32 ((s.memory.shmRegions shmid).refCount + 1) } := by
  unfold shmAttach
  rw [if_neg (by omega), if_pos (show (s.memory.shmRegions shmid).inUse = true from live)]
  dsimp only
  rw [mapCalls_run]
  rfl

theorem shmAttach_idle {shmid : Nat} (idle : ¬ (shmid < maxShmRegions ∧ s.inUse shmid))
    (vaddr : Nat) : (shmAttach s.memory shmid vaddr).2 = s.memory := by
  unfold shmAttach
  split
  · rfl
  · rename_i inside
    exact if_neg (fun live => idle ⟨by omega, live⟩) ▸ rfl

theorem shmAttach_run (kept : ShmKept s) {shmid vaddr : Nat}
    (outside : OutsideWindow vaddr (s.pages shmid))
    (room : (s.memory.mm.newTables (mapCalls vaddr (s.memory.shmRegions shmid).physAddr
      (s.pages shmid))).card ≤ s.pmm.freeFrames) :
    s.memory.mm.FreshRun (mapCalls vaddr (s.memory.shmRegions shmid).physAddr (s.pages shmid)) ∧
      Mm.RunKept s.memory.mm
        (s.memory.mm.run (mapCalls vaddr (s.memory.shmRegions shmid).physAddr (s.pages shmid))) := by
  refine kept.guarded.mapPages_kept kept.accounted (fun call inside => ?_) (fun call inside => ?_)
    room
  · obtain ⟨i, _, rfl⟩ := List.mem_map.mp inside
    exact ⟨_, _, _, rfl⟩
  · obtain ⟨i, bound, rfl⟩ := List.mem_map.mp inside
    exact outside i (List.mem_range.mp bound)

theorem shmAttach_kept (kept : ShmKept s) {shmid vaddr : Nat}
    (careful : ShmCareful s (.attach shmid vaddr)) : ShmKept (shmStep s (.attach shmid vaddr)) := by
  by_cases live : shmid < maxShmRegions ∧ s.inUse shmid
  · obtain ⟨_, outside, room, small⟩ := careful live.1 live.2
    simp only [shmStep]
    rw [if_pos live, shmAttach_live live.1 live.2, u32_eq_of_lt small]
    have run := kept.edit (shmAttach_run kept outside room).2
    refine run.recount live.2 fun other => ?_
    rw [List.countP_cons]
    have count := kept.references other
    by_cases own : other = shmid
    · rw [own, if_pos live.2] at count
      simp [own, count]
    · simp [own, Ne.symm own]
  · simp only [shmStep]
    rw [if_neg live, shmAttach_idle live]
    exact kept

theorem ShmKept.row (kept : ShmKept s) {shmid : Nat} (live : s.inUse shmid)
    (row : InRow (s.given shmid)) :
    (List.range (s.pages shmid)).map (shmFrame (s.memory.shmRegions shmid).physAddr) =
      s.given shmid := by
  obtain ⟨pages, first⟩ := kept.given shmid live
  rw [first, ← pages]
  exact row.symm

theorem ShmKept.given_owned (kept : ShmKept s) {shmid : Nat} (live : s.inUse shmid) :
    ∀ addr ∈ s.given shmid, s.memory.mm.Owned addr := fun addr inside =>
  kept.owned (some shmid) addr (by rwa [ShmSystem.frames, if_pos live])

theorem shmDestroy_live {shmid : Nat} (inside : shmid < maxShmRegions) (live : s.inUse shmid)
    (idle : (s.memory.shmRegions shmid).refCount = 0) :
    shmDestroy s.memory shmid = (0,
      { s.memory with
        mm := { s.memory.mm with
          pmm := ((List.range (s.pages shmid)).map
            (shmFrame (s.memory.shmRegions shmid).physAddr)).foldl pmmFreeFrame s.pmm } }.setRegion
        shmid { s.memory.shmRegions shmid with inUse := false }) := by
  unfold shmDestroy
  rw [if_neg (by omega)]
  dsimp only
  rw [show (s.memory.shmRegions shmid).inUse = true from live, idle]
  rfl

theorem shmDestroy_refused {shmid : Nat} (refused : ¬ (shmid < maxShmRegions ∧ s.inUse shmid ∧
    (s.memory.shmRegions shmid).refCount = 0)) :
    (shmDestroy s.memory shmid).1 ≠ 0 ∧ (shmDestroy s.memory shmid).2 = s.memory := by
  unfold shmDestroy
  by_cases outside : maxShmRegions ≤ shmid
  · rw [if_pos outside]
    exact ⟨by simp, rfl⟩
  · rw [if_neg outside]
    dsimp only
    cases live : (s.memory.shmRegions shmid).inUse with
    | false => exact ⟨by simp, rfl⟩
    | true =>
        have counted : 0 < (s.memory.shmRegions shmid).refCount :=
          Nat.pos_of_ne_zero fun zero => refused ⟨by omega, live, zero⟩
        simp [counted]

theorem shmDestroy_freed (kept : ShmKept s) {shmid : Nat} (live : s.inUse shmid)
    (row : InRow (s.given shmid)) :
    Pmm.Freed s.pmm (((List.range (s.pages shmid)).map
      (shmFrame (s.memory.shmRegions shmid).physAddr)).foldl pmmFreeFrame s.pmm)
      (s.given shmid) := by
  rw [kept.row live row]
  exact Pmm.freeFrames_freed kept.accounted fun addr inside => (kept.given_owned live addr inside).1

theorem frames_assign {memory : UserMemory} {given : Nat → List Nat} {shmid : Nat}
    {items : List Nat} (own : (if (memory.shmRegions shmid).inUse then given shmid else []) = items)
    (inUse : ∀ other, other ≠ shmid → (memory.shmRegions other).inUse = s.inUse other)
    (others : ∀ other, other ≠ shmid → s.inUse other → given other = s.given other) :
    ShmSystem.frames { s with memory, given } = Function.update s.frames (some shmid) items := by
  funext holder
  cases holder with
  | none => rfl
  | some other =>
      by_cases isOwn : other = shmid
      · subst isOwn
        rw [Function.update_self]
        exact own
      · rw [Function.update_of_ne (by simpa using isOwn)]
        show (if (memory.shmRegions other).inUse then given other else []) =
          if s.inUse other then s.given other else []
        rw [inUse other isOwn]
        exact ite_congr rfl (fun used => others other isOwn used) fun _ => rfl

/-- A region changes hands: what it holds then is new to it or was its own. -/
theorem ShmKept.assign (kept : ShmKept s) {mm : Mm} {shmid : Nat} {region : ShmRegion}
    {given : Nat → List Nat} {items : List Nat} (guarded : mm.Guarded)
    (accounted : mm.pmm.Accounted)
    (own : (if region.inUse then given shmid else []) = items)
    (others : ∀ other, other ≠ shmid → s.inUse other → given other = s.given other)
    (used : region.inUse → shmid < maxShmRegions ∧ region.size ≤ shmMaxSize ∧
      items.length = shmPages region.size ∧ region.physAddr = items.headD 0)
    (once : items.Nodup) (new : ∀ addr ∈ items, mm.Owned addr ∧
      ∀ other, other ≠ some shmid → addr ∉ s.frames other)
    (still : ∀ other, other ≠ some shmid → ∀ addr ∈ s.frames other, mm.Owned addr)
    (count : (s.attached.countP fun attachment => attachment.1 == shmid) =
      if region.inUse then region.refCount else 0) :
    ShmKept { s with memory := { s.memory with mm }.setRegion shmid region, given } := by
  have slot : ∀ other, ({ s.memory with mm }.setRegion shmid region).shmRegions other =
      if other = shmid then region else s.memory.shmRegions other := fun _ => rfl
  have isMm : ({ s.memory with mm }.setRegion shmid region).mm = mm := rfl
  generalize ({ s.memory with mm }.setRegion shmid region) = memory at slot isMm ⊢
  have frames : ShmSystem.frames { s with memory, given } =
      Function.update s.frames (some shmid) items := by
    refine frames_assign ?_ (fun other isOther => ?_) others
    · rw [slot, if_pos rfl]
      exact own
    · rw [slot, if_neg isOther]
      rfl
  subst isMm
  refine ⟨guarded, accounted, fun other live => ?_, fun other live => ?_, fun other live => ?_,
    ?_, fun holder addr inside => ?_, fun other => ?_⟩
  · by_cases isOwn : other = shmid
    · simp only [ShmSystem.inUse, slot, if_pos isOwn] at live
      exact isOwn ▸ (used live).1
    · simp only [ShmSystem.inUse, slot, if_neg isOwn] at live
      exact kept.inside other live
  · by_cases isOwn : other = shmid
    · simp only [ShmSystem.inUse, slot, if_pos isOwn] at live ⊢
      exact (used live).2.1
    · simp only [ShmSystem.inUse, slot, if_neg isOwn] at live ⊢
      exact kept.sizes other live
  · by_cases isOwn : other = shmid
    · subst isOwn
      simp only [ShmSystem.inUse, ShmSystem.pages, slot, if_pos] at live ⊢
      rw [if_pos live] at own
      rw [own]
      exact (used live).2.2
    · simp only [ShmSystem.inUse, ShmSystem.pages, slot, if_neg isOwn] at live ⊢
      rw [others other isOwn live]
      exact kept.given other live
  · rw [frames]
    exact kept.exclusive.replace (some shmid) once fun addr inside => (new addr inside).2
  · rw [frames] at inside
    rcases mem_update inside with ⟨_, isNew⟩ | ⟨apart, old⟩
    · exact (new addr isNew).1
    · exact still holder apart addr old
  · by_cases isOwn : other = shmid
    · subst isOwn
      simpa only [ShmSystem.inUse, slot, if_pos] using count
    · simp only [ShmSystem.inUse, slot, if_neg isOwn]
      exact kept.references other

theorem shmDestroy_kept (kept : ShmKept s) {shmid : Nat}
    (careful : ShmCareful s (.destroy shmid)) : ShmKept (shmStep s (.destroy shmid)) := by
  simp only [shmStep]
  by_cases frees : shmid < maxShmRegions ∧ s.inUse shmid ∧
      (s.memory.shmRegions shmid).refCount = 0
  · obtain ⟨inside, live, idle⟩ := frees
    have freed := shmDestroy_freed kept live (careful inside live idle)
    rw [shmDestroy_live inside live idle]
    generalize ((List.range (s.pages shmid)).map
      (shmFrame (s.memory.shmRegions shmid).physAddr)).foldl pmmFreeFrame s.pmm = pmm at freed ⊢
    obtain ⟨guarded, still⟩ := freed_kept kept.guarded freed (kept.given_owned live)
    refine kept.assign guarded freed.accounted rfl (fun _ _ _ => rfl) (fun used => by cases used)
      .nil (fun addr inside => by cases inside) (fun other apart addr inside => ?_) ?_
    · refine still addr (kept.owned other addr inside) fun own => apart ?_
      refine kept.exclusive.apart other (some shmid) addr inside ?_
      rwa [ShmSystem.frames, if_pos live]
    · have count := kept.references shmid
      rw [if_pos live, idle] at count
      exact count
  · rw [(shmDestroy_refused frees).2]
    exact kept

/-- The frames given to regions that are not in use do not matter. -/
theorem ShmKept.regiven (kept : ShmKept s) {given : Nat → List Nat}
    (same : ∀ shmid, s.inUse shmid → given shmid = s.given shmid) : ShmKept { s with given } := by
  have frames : ShmSystem.frames { s with given } = s.frames := by
    funext holder
    cases holder with
    | none => rfl
    | some shmid =>
        show (if s.inUse shmid then given shmid else []) = if s.inUse shmid then s.given shmid else []
        split
        · exact same shmid ‹_›
        · rfl
  refine ⟨kept.guarded, kept.accounted, kept.inside, kept.sizes, fun shmid live => ?_,
    frames ▸ kept.exclusive, fun holder addr inside => ?_, kept.references⟩
  · show (given shmid).length = s.pages shmid ∧ _ = (given shmid).headD 0
    rw [same shmid live]
    exact kept.given shmid live
  · rw [frames] at inside
    exact kept.owned holder addr inside

theorem shmCreate_kept (kept : ShmKept s) {key size : Nat}
    (careful : ShmCareful s (.create key size)) : ShmKept (shmStep s (.create key size)) := by
  simp only [shmStep]
  have old : ∀ shmid, s.inUse shmid →
      (if s.inUse shmid then s.given shmid else (allocFrames (shmPages size) s.pmm).1) =
        s.given shmid := fun shmid live => if_pos live
  rcases shmCreate_cases s key size with same | ⟨shmid, inside, isFree, takes, result⟩
  · rw [same]
    exact kept.regiven old
  · have batch := Pmm.allocFrames_batch kept.accounted (shmPages size)
    have row := careful takes
    have atMost := allocFrames_length_le (shmPages size) s.pmm
    rw [result]
    unfold shmCreated
    generalize allocFrames (shmPages size) s.pmm = taken at batch row atMost old ⊢
    by_cases all : taken.1.length = shmPages size
    · rw [if_pos all]
      have grown := batch_kept kept.guarded batch
      have own : (if true then (if s.inUse shmid then s.given shmid else taken.1) else []) =
          taken.1 := by
        rw [if_pos rfl, if_neg (by simp [isFree])]
      refine kept.assign grown.guarded grown.accounted own
        (fun other _ live => old other live) (fun _ => ⟨inside, takes.2.1, all, rfl⟩) batch.once
        (fun addr isNew => ?_) (fun other _ addr held => ?_) ?_
      · obtain ⟨unowned, owned⟩ := batch_fresh kept.guarded batch isNew
        exact ⟨owned, fun other _ held => unowned (kept.owned other addr held)⟩
      · exact grown.owned (kept.owned other addr held)
      · have count := kept.references shmid
        rw [if_neg (by simp [isFree])] at count
        exact count
    · rw [if_neg all]
      rw [← show taken.1 = _ from row (by omega), batch.undone kept.accounted]
      exact kept.regiven old

/-- The other users' frames change. -/
theorem ShmKept.others (kept : ShmKept s) {mm : Mm} {held : List Nat} (guarded : mm.Guarded)
    (accounted : mm.pmm.Accounted) (once : held.Nodup)
    (new : ∀ addr ∈ held, mm.Owned addr ∧ ∀ shmid, addr ∉ s.frames (some shmid))
    (still : ∀ shmid, ∀ addr ∈ s.frames (some shmid), mm.Owned addr) :
    ShmKept { s with memory := { s.memory with mm }, held } := by
  have frames : ShmSystem.frames { s with memory := { s.memory with mm }, held } =
      Function.update s.frames none held := by
    funext holder
    cases holder with
    | none => rw [Function.update_self]; rfl
    | some shmid => rw [Function.update_of_ne (Option.some_ne_none shmid)]; rfl
  refine ⟨guarded, accounted, kept.inside, kept.sizes, kept.given, ?_, fun holder addr inside => ?_,
    kept.references⟩
  · rw [frames]
    refine kept.exclusive.replace none once fun addr inside other apart => ?_
    obtain ⟨shmid, rfl⟩ := Option.ne_none_iff_exists'.mp apart
    exact (new addr inside).2 shmid
  · rw [frames] at inside
    rcases mem_update inside with ⟨_, isNew⟩ | ⟨apart, old⟩
    · exact (new addr isNew).1
    · obtain ⟨shmid, rfl⟩ := Option.ne_none_iff_exists'.mp apart
      exact still shmid addr old

theorem shmAlloc_kept (kept : ShmKept s) : ShmKept (shmStep s .alloc) := by
  simp only [shmStep]
  have batch := Pmm.allocFrames_batch kept.accounted 1
  have one : allocFrames 1 s.pmm = (if (pmmAllocFrame s.pmm).1 = 0 then []
      else [(pmmAllocFrame s.pmm).1], (pmmAllocFrame s.pmm).2) := by
    unfold allocFrames
    dsimp only
    split <;> rfl
  rw [one] at batch
  have held : (if (pmmAllocFrame s.pmm).1 = 0 then s.held else (pmmAllocFrame s.pmm).1 :: s.held) =
      (if (pmmAllocFrame s.pmm).1 = 0 then [] else [(pmmAllocFrame s.pmm).1]) ++ s.held := by
    split <;> rfl
  rw [held]
  generalize (if (pmmAllocFrame s.pmm).1 = 0 then [] else [(pmmAllocFrame s.pmm).1]) = taken
    at batch ⊢
  have grown := batch_kept kept.guarded batch
  have fresh := fun addr (isNew : addr ∈ taken) => batch_fresh kept.guarded batch isNew
  refine kept.others grown.guarded grown.accounted (List.nodup_append.mpr
    ⟨batch.once, kept.exclusive.once none, ?_⟩) (fun addr inside => ?_)
    fun shmid addr inside => grown.owned (kept.owned _ addr inside)
  · rintro addr isNew other old rfl
    exact (fresh addr isNew).1 (kept.owned none addr old)
  · rcases List.mem_append.mp inside with isNew | old
    · obtain ⟨unowned, owned⟩ := fresh addr isNew
      exact ⟨owned, fun shmid there => unowned (kept.owned _ addr there)⟩
    · refine ⟨grown.owned (kept.owned none addr old), fun shmid there => ?_⟩
      cases kept.exclusive.apart none (some shmid) addr old there

theorem shmFree_kept (kept : ShmKept s) (addr : Nat) : ShmKept (shmStep s (.free addr)) := by
  simp only [shmStep]
  split
  · rename_i held
    have owned : s.memory.mm.Owned addr := kept.owned none addr held
    have all : ∀ other ∈ [addr], s.memory.mm.Owned other := fun other inside =>
      List.mem_singleton.mp inside ▸ owned
    have freed : Pmm.Freed s.pmm (pmmFreeFrame s.pmm addr) [addr] :=
      Pmm.freeFrames_freed kept.accounted fun other inside => (all other inside).1
    obtain ⟨guarded, still⟩ := freed_kept kept.guarded freed all
    have once := kept.exclusive.once none
    refine kept.others guarded freed.accounted (once.erase addr) (fun other inside => ?_)
      fun shmid other inside => ?_
    · have old := List.mem_of_mem_erase inside
      refine ⟨still other (kept.owned none other old) ?_, fun shmid there => ?_⟩
      · exact fun same => (once.mem_erase_iff.mp inside).1 (List.mem_singleton.mp same)
      · cases kept.exclusive.apart none (some shmid) other old there
    · refine still other (kept.owned _ other inside) fun same => ?_
      obtain rfl := List.mem_singleton.mp same
      cases kept.exclusive.apart none (some shmid) other held inside
  · exact kept

theorem shmStep_kept (kept : ShmKept s) {call : ShmCall} (careful : ShmCareful s call) :
    ShmKept (shmStep s call) := by
  cases call with
  | create key size => exact shmCreate_kept kept careful
  | attach shmid vaddr => exact shmAttach_kept kept careful
  | detach addr => exact shmDetach_kept kept careful
  | destroy shmid => exact shmDestroy_kept kept careful
  | alloc => exact shmAlloc_kept kept
  | free addr => exact shmFree_kept kept addr

end Kept

section Effect

variable {s : ShmSystem}

theorem shmCreate_unchanged (kept : ShmKept s) {key size : Nat}
    (careful : ShmCareful s (.create key size)) : ShmCallSound s (.create key size) := by
  intro failed
  rcases shmCreate_cases s key size with same | ⟨shmid, _, _, takes, result⟩
  · rw [same]
    rfl
  · have batch := Pmm.allocFrames_batch kept.accounted (shmPages size)
    have atMost := allocFrames_length_le (shmPages size) s.pmm
    have row := careful takes
    rw [result] at failed ⊢
    unfold shmCreated at failed ⊢
    generalize allocFrames (shmPages size) s.pmm = taken at batch atMost row failed ⊢
    by_cases all : taken.1.length = shmPages size
    · rw [if_pos all] at failed
      exact absurd failed (by simp)
    · rw [if_neg all]
      have undone := batch.undone kept.accounted
      rw [show taken.1 = _ from row (by omega)] at undone
      exact undone

theorem pageOf_shm (vaddr i : Nat) : pageOf (u32 (vaddr + i * 0x1000)) =
    (vaddr / 4096 + i) % 1048576 := by
  have mask : ∀ value, value &&& 0xFFFFF = value % 1048576 :=
    fun value => Nat.and_two_pow_sub_one_eq_mod value 20
  rw [pageOf, mask, Nat.shiftRight_eq_div_pow]
  unfold u32
  omega

theorem shmAttach_maps (kept : ShmKept s) {shmid vaddr : Nat}
    (careful : ShmCareful s (.attach shmid vaddr)) : ShmCallSound s (.attach shmid vaddr) := by
  intro inside live
  obtain ⟨row, outside, room, _⟩ := careful inside live
  have frames := kept.row live row
  have owned := kept.given_owned live
  have few : s.pages shmid ≤ 256 := by
    have small := kept.sizes shmid live
    have limit : shmMaxSize = 1048576 := rfl
    rw [ShmSystem.pages, shmPages_eq small]
    omega
  obtain ⟨fresh, _⟩ := shmAttach_run kept outside room
  rw [shmAttach_live inside live]
  have mapped := (kept.guarded.toTablesSound.run _ (fun call member => by
    obtain ⟨i, bound, rfl⟩ := List.mem_map.mp member
    exact outside i (List.mem_range.mp bound)) fresh).2
  rw [← frames] at owned ⊢
  simp only [MapsExactly, List.length_map, List.length_range, List.get_eq_getElem, List.getElem_map,
    List.getElem_range]
  refine ⟨fun i bound => ?_, fun virt window apart => (mapped virt window).trans ?_⟩
  · have isLast := Mm.lastCall_only (List.mem_map_of_mem (f := fun i => VmmCall.mapPage
      (u32 (vaddr + i * 0x1000)) (shmFrame (s.memory.shmRegions shmid).physAddr i)
      (pagePresent ||| pageWrite ||| pageUser)) (List.mem_range.mpr bound)) fun other member page => by
        obtain ⟨j, small, rfl⟩ := List.mem_map.mp member
        have below := List.mem_range.mp small
        simp only [VmmCall.virt, pageOf_shm] at page
        rw [show j = i by omega]
    have aligned := (owned _ (List.mem_map_of_mem (List.mem_range.mpr bound))).1.1
    refine (mapped _ (outside i bound)).trans ?_
    rw [show lastCall (pageOf (u32 (vaddr + i * 0x1000))) (mapCalls vaddr
      (s.memory.shmRegions shmid).physAddr (s.pages shmid)) = some _ from isLast]
    refine congrArg some ((and_pageMask (u32_lt _)).trans ?_)
    unfold shmFrame at aligned ⊢
    omega
  · rw [Mm.lastCall_none fun call member => by
      obtain ⟨i, bound, rfl⟩ := List.mem_map.mp member
      exact apart i (List.mem_range.mp bound)]

theorem shmDestroy_frees (kept : ShmKept s) {shmid : Nat}
    (careful : ShmCareful s (.destroy shmid)) : ShmCallSound s (.destroy shmid) := by
  intro success
  by_cases frees : shmid < maxShmRegions ∧ s.inUse shmid ∧
      (s.memory.shmRegions shmid).refCount = 0
  · obtain ⟨inside, live, idle⟩ := frees
    rw [shmDestroy_live inside live idle]
    exact (shmDestroy_freed kept live (careful inside live idle)).bits
  · exact absurd success (shmDestroy_refused frees).1

theorem shmStep_sound (kept : ShmKept s) {call : ShmCall} (careful : ShmCareful s call) :
    ShmSound s call := by
  refine ⟨?_, (shmStep_kept kept careful).sound⟩
  cases call with
  | create key size => exact shmCreate_unchanged kept careful
  | attach shmid vaddr => exact shmAttach_maps kept careful
  | destroy shmid => exact shmDestroy_frees kept careful
  | _ => trivial

end Effect

/-- No region exists, and the other users hold allocated frames that are no page tables. -/
structure ShmStart (s : ShmSystem) : Prop where
  guarded : s.memory.mm.Guarded
  accounted : s.pmm.Accounted
  unused : ∀ shmid, s.inUse shmid = false
  once : s.held.Nodup
  owned : ∀ addr ∈ s.held, s.memory.mm.Owned addr
  unattached : s.attached = []

theorem ShmStart.kept {s : ShmSystem} (start : ShmStart s) : ShmKept s := by
  have dead : ∀ shmid, ¬ s.inUse shmid = true := fun shmid => by simp [start.unused shmid]
  have empty : ∀ shmid, s.frames (some shmid) = [] := fun shmid => if_neg (dead shmid)
  refine ⟨start.guarded, start.accounted, fun shmid live => absurd live (dead shmid),
    fun shmid live => absurd live (dead shmid), fun shmid live => absurd live (dead shmid),
    ⟨fun holder => ?_, fun holder other addr here there => ?_⟩, fun holder addr inside => ?_,
    fun shmid => ?_⟩
  · cases holder with
    | none => exact start.once
    | some shmid => rw [empty]; exact .nil
  · cases holder with
    | none =>
        cases other with
        | none => rfl
        | some shmid => rw [empty] at there; cases there
    | some shmid => rw [empty] at here; cases here
  · cases holder with
    | none => exact start.owned addr inside
    | some shmid => rw [empty] at inside; cases inside
  · rw [start.unattached, if_neg (dead shmid)]
    rfl

/-- In a run of careful calls, every call does what it should, and the regions and their
frames are in order after it. -/
theorem shm_run {s : ShmSystem} (start : ShmStart s) (calls : List ShmCall)
    (careful : Along shmStep ShmCareful s calls) : Along shmStep ShmSound s calls :=
  careful.sound ShmKept (fun _ _ kept met => ⟨shmStep_kept kept met, shmStep_sound kept met⟩)
    start.kept

def shmBoot : ShmSystem := ⟨smallMemory, fun _ => [], [], []⟩

theorem shmBoot_start : ShmStart shmBoot := by
  refine ⟨bootMm_guarded (by decide) (by decide) (by decide) (by decide) (by decide) (by decide),
    pmmInit_accounted _ _, fun _ => rfl, .nil, (fun addr inside => by cases inside), rfl⟩

theorem shm_run_boot : Along shmStep ShmSound shmBoot
    [.create 7 8192, .attach 0 0x50000000, .alloc, .detach 0x50000000, .destroy 0] := by
  refine shm_run shmBoot_start _ ⟨?_, ?_, trivial, ?_, ?_, trivial⟩
  · intro _
    decide
  · intro _ _
    refine ⟨by decide, by decide, by decide, by decide⟩
  · intro first found
    have isFirst : shmFirst (([.create 7 8192, .attach 0 0x50000000, .alloc] : List ShmCall).foldl
      shmStep shmBoot).memory = some 0 := by decide
    obtain rfl : first = 0 := Option.some.inj (found.symm.trans isFirst)
    refine ⟨by decide, fun shmid isAt => ?_, by decide⟩
    exact Option.some.inj (isAt.symm.trans (by decide))
  · intro _ _ _
    decide

/-- A frame came back before the region was made, so the region's two frames are not next to
each other: it maps and frees one that another user holds. -/
theorem shm_frames_apart :
    ShmStart shmBoot ∧
      let calls : List ShmCall := [.alloc, .alloc, .free 0x101000, .create 7 8192]
      let s := calls.foldl shmStep shmBoot
      s.held = [0x102000] ∧ s.given 0 = [0x101000, 0x103000] ∧
        (shmAttach s.memory 0 0x50000000).2.mm.mapping 0x50001000 = some 0x102000 ∧
        (shmDestroy s.memory 0).1 = 0 ∧
        (shmDestroy s.memory 0).2.mm.pmm.bitmapTest 0x102 = false ∧
        ¬ Along shmStep ShmSound shmBoot (calls ++ [.destroy 0]) := by
  refine ⟨shmBoot_start, by decide, by decide, by decide, by decide, by decide, fun sound => ?_⟩
  have kept := (sound.2.2.2.2.1.effect (by decide) 0x102).symm.trans
    (show _ = false by decide)
  exact absurd kept (by decide)

end ZurichOS
