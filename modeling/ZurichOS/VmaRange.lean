import ZurichOS.PageRange
import ZurichOS.VmaTable

set_option linter.all false

/-!
`munmap` and `mprotect` of a range: exactly when the page tables, the frames and the areas
change for the addresses of the range, rounded up to pages, and for no others.
-/

namespace ZurichOS

open Words

/-! Ranges of addresses. -/

def roundUp (length : Nat) : Nat := (length + 0xFFF) / 0x1000 * 0x1000

def InRange (addr length a : Nat) : Prop := addr ≤ a ∧ a < addr + roundUp length

instance (addr length a : Nat) : Decidable (InRange addr length a) :=
  inferInstanceAs (Decidable (_ ∧ _))

theorem roundLength_eq (length : Nat) :
    roundLength length = (length + 4095) % 4294967296 / 4096 * 4096 := by
  rw [roundLength, and_pageMask (u32_lt _)]
  rfl

theorem roundLength_roundUp {length : Nat} (short : length ≤ 0xFFFFF000) :
    roundLength length = roundUp length := by
  rw [roundLength_eq, roundUp]
  omega

variable {addr stop : Nat}

theorem pageLoop_below (whole : stop % 4096 = 0)
    (word : stop < 4294967296) : ∀ page ∈ pageLoop addr stop, pageOf page < 0xFFFFF := by
  intro page member
  have inside := mem_pageLoop.mp member
  rw [pageOf_word (by omega)]
  omega

theorem pageLoop_ascending (word : stop < 4294967296) :
    (pageLoop addr stop).Pairwise fun first second => pageOf first < pageOf second := by
  have order : (pageLoop addr stop).Pairwise fun first second => first + 4096 ≤ second := by
    refine List.pairwise_map.mpr (List.pairwise_lt_range.imp fun order => ?_)
    omega
  refine order.imp_of_mem fun first second apart => ?_
  rw [pageOf_word (by have := mem_pageLoop.mp first; omega),
    pageOf_word (by have := mem_pageLoop.mp second; omega)]
  omega

theorem exists_page_iff (aligned : addr % 4096 = 0) (whole : stop % 4096 = 0)
    (word : stop < 4294967296) {a : Nat} (own : a < 4294967296) :
    (∃ page ∈ pageLoop addr stop, pageOf a = pageOf page) ↔ addr ≤ a ∧ a < stop := by
  constructor
  · rintro ⟨page, member, same⟩
    have inside := mem_pageLoop.mp member
    rw [pageOf_word own, pageOf_word (by omega)] at same
    omega
  · intro inside
    refine ⟨a / 4096 * 4096, mem_pageLoop.mpr (by omega), ?_⟩
    rw [pageOf_word own, pageOf_word (by omega)]
    omega

/-- The address at which the window shows the table of `a`. -/
def tableAddr (a : Nat) : Nat := Mm.tablePage a * 4096

theorem tableAddr_lt (a : Nat) : tableAddr a < 4294967296 := by
  have bound := pdIndex_lt a
  rw [tableAddr, Mm.tablePage]
  omega

theorem exists_table_iff (aligned : addr % 4096 = 0) (whole : stop % 4096 = 0)
    (word : stop < 4294967296) (a : Nat) :
    (∃ page ∈ pageLoop addr stop, pageOf page = Mm.tablePage a) ↔
      addr ≤ tableAddr a ∧ tableAddr a < stop := by
  have shown : Mm.tablePage a = pageOf (tableAddr a) := by
    rw [pageOf_word (tableAddr_lt a), tableAddr]
    omega
  rw [← exists_page_iff aligned whole word (tableAddr_lt a), shown]
  simp only [eq_comm]

/-! Areas. -/

def Vma.Covers (vma : Vma) (a : Nat) : Prop := vma.inUse = true ∧ vma.start ≤ a ∧ a < vma.stop

instance (vma : Vma) (a : Nat) : Decidable (vma.Covers a) := inferInstanceAs (Decidable (_ ∧ _))

variable {s after : UserMemory} {pid index : Nat}

theorem vmaFind_covers (table : getVmaTable s = some pid) (a : Nat) :
    vmaFind s a = ((List.range maxVmasPerProc).find? fun i =>
      decide ((s.processVmas pid i).Covers a)).map (Prod.mk pid) := by
  have same : (fun i => decide ((s.processVmas pid i).Covers a)) = fun i =>
      (s.processVmas pid i).inUse && decide ((s.processVmas pid i).start ≤ a) &&
        decide (a < (s.processVmas pid i).stop) := by
    funext i
    rw [Bool.eq_iff_iff, decide_eq_true_iff, Vma.Covers]
    simp [and_assoc]
  rw [vmaFind, table, same]
  exact Option.map_eq_bind.symm

theorem vmaFind_none_iff (table : getVmaTable s = some pid) (a : Nat) :
    vmaFind s a = none ↔ ∀ i < maxVmasPerProc, ¬ (s.processVmas pid i).Covers a := by
  rw [vmaFind_covers table, Option.map_eq_none_iff, List.find?_eq_none]
  simp

theorem vmaFind_eq (table : getVmaTable s = some pid) (tableAfter : getVmaTable after = some pid)
    {a : Nat} (same : ∀ i, (after.processVmas pid i).Covers a ↔ (s.processVmas pid i).Covers a) :
    vmaFind after a = vmaFind s a := by
  rw [vmaFind_covers table, vmaFind_covers tableAfter]
  congr 2
  funext i
  exact decide_eq_decide.mpr (same i)

theorem vmaFind_some (found : vmaFind s addr = some (pid, index)) :
    getVmaTable s = some pid ∧ index < maxVmasPerProc ∧ (s.processVmas pid index).Covers addr := by
  cases table : getVmaTable s with
  | none => simp [vmaFind, table] at found
  | some owner =>
      rw [vmaFind_covers table, Option.map_eq_some_iff] at found
      obtain ⟨i, found, same⟩ := found
      cases same
      refine ⟨rfl, List.mem_range.mp (List.mem_of_find?_eq_some found), ?_⟩
      simpa using List.find?_some found

/-- No two areas of the current process share an address. -/
def VmasApart (s : UserMemory) : Prop :=
  ∀ pid, getVmaTable s = some pid → ∀ i < maxVmasPerProc, ∀ j < maxVmasPerProc, ∀ a,
    (s.processVmas pid i).Covers a → (s.processVmas pid j).Covers a → i = j

theorem VmaSound.vmasApart (sound : VmaSound pid s) (current : s.pid = some pid) (bound : pid < 64) :
    VmasApart s := by
  intro owner table i iBound j jBound a iCovers jCovers
  cases (getVmaTable_eq current bound).symm.trans table
  by_contra apart
  have iArea := areas_some.mpr ⟨iBound, iCovers.1, rfl, rfl⟩
  have jArea := areas_some.mpr ⟨jBound, jCovers.1, rfl, rfl⟩
  have disjoint := sound.apart i _ _ j _ _ iArea jArea apart
  have iRange := iCovers.2
  have jRange := jCovers.2
  omega

/-! `munmap`. -/

/-- What `munmap` makes of the area it finds. -/
def Vma.cut (vma : Vma) (addr stop : Nat) : Vma :=
  if addr = vma.start ∧ stop = vma.stop then { vma with inUse := false }
  else if addr = vma.start then { vma with start := stop }
  else if stop = vma.stop then { vma with stop := addr }
  else vma

/-- A `munmap` that returns 0: the pages, and the area cut. -/
structure Munmapped (s after : UserMemory) (addr length pid index : Nat) : Prop where
  aligned : addr % 4096 = 0
  nonempty : length ≠ 0
  found : vmaFind s addr = some (pid, index)
  mm : after.mm = (pageLoop addr (u32 (addr + roundLength length))).foldl
    (munmapPage (decide ((s.processVmas pid index).flags &&& mapShared ≠ 0))) s.mm
  owner : after.pid = s.pid
  own : after.processVmas pid index =
    (s.processVmas pid index).cut addr (u32 (addr + roundLength length))
  others : ∀ i, i ≠ index → after.processVmas pid i = s.processVmas pid i

theorem processVmas_setVma (s : UserMemory) (pid index : Nat) (vma : Vma) (i : Nat) :
    (s.setVma pid index vma).processVmas pid i =
      if i = index then vma else s.processVmas pid i :=
  if_congr (and_iff_right rfl) rfl rfl

/-- What is left to show of a `munmap`, whatever its loop made of the memory. -/
theorem munmapped_setVma {length : Nat} {mm : Mm} {vma : Vma} (aligned : addr % 4096 = 0)
    (nonempty : length ≠ 0) (found : vmaFind s addr = some (pid, index))
    (unmapped : mm = (pageLoop addr (u32 (addr + roundLength length))).foldl
      (munmapPage (decide ((s.processVmas pid index).flags &&& mapShared ≠ 0))) s.mm)
    (own : vma = (s.processVmas pid index).cut addr (u32 (addr + roundLength length))) :
    Munmapped s (({ s with mm } : UserMemory).setVma pid index vma) addr length pid index where
  aligned
  nonempty
  found
  mm := unmapped
  owner := rfl
  own := ((processVmas_setVma _ _ _ _ _).trans (if_pos rfl)).trans own
  others _ apart := (processVmas_setVma _ _ _ _ _).trans (if_neg apart)

theorem munmapped_mm {length : Nat} {mm : Mm} (aligned : addr % 4096 = 0)
    (nonempty : length ≠ 0) (found : vmaFind s addr = some (pid, index))
    (unmapped : mm = (pageLoop addr (u32 (addr + roundLength length))).foldl
      (munmapPage (decide ((s.processVmas pid index).flags &&& mapShared ≠ 0))) s.mm)
    (own : s.processVmas pid index =
      (s.processVmas pid index).cut addr (u32 (addr + roundLength length))) :
    Munmapped s { s with mm } addr length pid index :=
  ⟨aligned, nonempty, found, unmapped, rfl, own, fun _ _ => rfl⟩

theorem sysMunmap_success {length : Nat} (success : (sysMunmap s addr length).1 = 0) :
    ∃ pid index, Munmapped s (sysMunmap s addr length).2 addr length pid index := by
  by_cases unaligned : addr &&& 0xFFF ≠ 0
  · rw [sysMunmap, if_pos unaligned] at success
    cases success
  by_cases zero : length = 0
  · rw [sysMunmap, if_neg unaligned, if_pos zero] at success
    cases success
  have aligned : addr % 4096 = 0 := by
    rw [← and_offsetMask]
    exact not_not.mp unaligned
  rw [sysMunmap, if_neg unaligned, if_neg zero] at success ⊢
  cases found : vmaFind s addr with
  | none =>
      rw [found] at success
      cases success
  | some hit =>
      obtain ⟨pid, index⟩ := hit
      refine ⟨pid, index, ?_⟩
      dsimp only
      by_cases whole : addr = (s.processVmas pid index).start ∧
          u32 (addr + roundLength length) = (s.processVmas pid index).stop
      · rw [if_pos whole]
        exact munmapped_setVma aligned zero found rfl (by rw [Vma.cut, if_pos whole])
      by_cases head : addr = (s.processVmas pid index).start
      · rw [if_neg whole, if_pos head]
        exact munmapped_setVma aligned zero found rfl (by rw [Vma.cut, if_neg whole, if_pos head])
      by_cases tail : u32 (addr + roundLength length) = (s.processVmas pid index).stop
      · rw [if_neg whole, if_neg head, if_pos tail]
        exact munmapped_setVma aligned zero found rfl
          (by rw [Vma.cut, if_neg whole, if_neg head, if_pos tail])
      · rw [if_neg whole, if_neg head, if_neg tail]
        exact munmapped_mm aligned zero found rfl
          (by rw [Vma.cut, if_neg whole, if_neg head, if_neg tail])

/-- What `munmap` is for: the addresses of the range have no area and no page any more, and
those outside keep theirs, with the frames. -/
structure MunmapExact (s after : UserMemory) (addr length : Nat) : Prop where
  removed : ∀ a < 4294967296, InRange addr length a → vmaFind after a = none
  others : ∀ a < 4294967296, ¬ InRange addr length a → vmaFind after a = vmaFind s a
  unmapped : ∀ a < 4294967296, InRange addr length a → vmmIsMapped after.mm a = false
  kept : ∀ a < 4294967296, ¬ InRange addr length a → vmmIsMapped s.mm a = true →
    vmmIsMapped after.mm a = true ∧ vmmGetPhysical after.mm a = vmmGetPhysical s.mm a ∧
      (s.mm.pmm.bitmapTest (vmmGetPhysical s.mm a / 4096) = true →
        after.mm.pmm.bitmapTest (vmmGetPhysical s.mm a / 4096) = true)

/-- The range ends below the last page, at the end of the area or not if it begins at its
start; behind the area it meets no other; it has no page table of a page outside; and no
frame it frees is mapped outside. -/
structure RangeFits (s : UserMemory) (vma : Vma) (addr length : Nat) : Prop where
  word : addr + roundUp length < 4294967296
  ends : addr = vma.start ∨ addr + roundUp length = vma.stop
  alone : ∀ a, vma.stop ≤ a → a < addr + roundUp length → vmaFind s a = none
  tables : ∀ a < 4294967296, ¬ InRange addr length a → vmmIsMapped s.mm a = true →
    ¬ InRange addr length (tableAddr a)
  unaliased : vma.flags &&& mapShared = 0 → ∀ a < 4294967296, ∀ b < 4294967296,
    InRange addr length a → vmmIsMapped s.mm a = true →
    ¬ InRange addr length b → vmmIsMapped s.mm b = true →
    vmmGetPhysical s.mm a / 4096 = vmmGetPhysical s.mm b / 4096 →
      s.mm.pmm.totalFrames ≤ vmmGetPhysical s.mm b / 4096 ∨
        s.mm.pmm.bitmapTest (vmmGetPhysical s.mm b / 4096) = false

section Munmap

variable {length : Nat}

theorem wraps_back (word : addr < 4294967296) (short : length < 4294967296)
    (wraps : ¬ addr + roundUp length < 4294967296) : u32 (addr + roundLength length) ≤ addr := by
  unfold roundUp at wraps
  rw [roundLength_eq]
  unfold u32
  omega

theorem unwrapped_stop (unwrapped : addr + roundUp length < 4294967296) :
    u32 (addr + roundLength length) = addr + roundUp length := by
  rw [roundLength_roundUp (by unfold roundUp at unwrapped; omega), u32_eq_of_lt unwrapped]

theorem Munmapped.table (done : Munmapped s after addr length pid index) :
    getVmaTable s = some pid ∧ getVmaTable after = some pid := by
  have table := (vmaFind_some done.found).1
  refine ⟨table, ?_⟩
  rw [getVmaTable, done.owner]
  exact table

/-- A range that wraps leaves the area where it was found. -/
theorem Munmapped.wrapped (done : Munmapped s after addr length pid index)
    (back : u32 (addr + roundLength length) ≤ addr) : vmaFind after addr ≠ none := by
  obtain ⟨_, inside, inUse, start, below⟩ := vmaFind_some done.found
  intro none
  refine (vmaFind_none_iff done.table.2 addr).mp none index inside ?_
  rw [done.own, Vma.cut]
  split
  · omega
  split
  · exact ⟨inUse, back, below⟩
  split
  · omega
  · exact ⟨inUse, start, below⟩

theorem Munmapped.covers_other (done : Munmapped s after addr length pid index)
    {i : Nat} (apart : i ≠ index) (a : Nat) :
    (after.processVmas pid i).Covers a ↔ (s.processVmas pid i).Covers a := by
  rw [done.others i apart]

/-- The area keeps what lies outside the range, if an end of it is an end of the area. -/
theorem Vma.covers_cut {vma : Vma} {stop : Nat} (covers : vma.Covers addr)
    (ends : addr = vma.start ∨ stop = vma.stop) (grows : addr ≤ stop) (a : Nat) :
    (vma.cut addr stop).Covers a ↔ vma.Covers a ∧ ¬ (addr ≤ a ∧ a < stop) := by
  obtain ⟨inUse, start, below⟩ := covers
  unfold Vma.cut
  split
  · simp only [Vma.Covers, Bool.false_eq_true, false_and, false_iff]
    omega
  split
  · simp only [Vma.Covers, inUse, true_and]
    omega
  split
  · simp only [Vma.Covers, inUse, true_and]
    omega
  · omega

theorem Munmapped.areas_iff (done : Munmapped s after addr length pid index) (apart : VmasApart s)
    (unwrapped : addr + roundUp length < 4294967296) :
    ((∀ a < 4294967296, InRange addr length a → vmaFind after a = none) ∧
        ∀ a < 4294967296, ¬ InRange addr length a → vmaFind after a = vmaFind s a) ↔
      (addr = (s.processVmas pid index).start ∨
          addr + roundUp length = (s.processVmas pid index).stop) ∧
        ∀ a, (s.processVmas pid index).stop ≤ a → a < addr + roundUp length →
          vmaFind s a = none := by
  obtain ⟨table, inside, covers⟩ := vmaFind_some done.found
  have tableAfter := done.table.2
  have own := done.own
  rw [unwrapped_stop unwrapped] at own
  have positive : 0 < roundUp length := by
    have nonempty := done.nonempty
    unfold roundUp
    omega
  constructor
  · rintro ⟨removed, _⟩
    have gone := (vmaFind_none_iff tableAfter addr).mp
      (removed addr (by omega) ⟨Nat.le_refl _, by omega⟩) index inside
    refine ⟨?_, fun a behind below => ?_⟩
    · by_contra neither
      obtain ⟨notHead, notTail⟩ := not_or.mp neither
      rw [own, Vma.cut, if_neg fun whole => notHead whole.1, if_neg notHead, if_neg notTail] at gone
      exact gone covers
    · have none := (vmaFind_none_iff tableAfter a).mp
        (removed a (by omega) ⟨by have := covers.2.2; omega, below⟩)
      refine (vmaFind_none_iff table a).mpr fun i bound covered => ?_
      by_cases same : i = index
      · subst same
        have stop := covered.2.2
        omega
      · exact none i bound ((done.covers_other same a).mpr covered)
  · rintro ⟨ends, alone⟩
    have cut := Vma.covers_cut covers ends (Nat.le_add_right addr (roundUp length))
    constructor
    · intro a word inRange
      refine (vmaFind_none_iff tableAfter a).mpr fun i bound covered => ?_
      by_cases same : i = index
      · rw [same, own, cut] at covered
        exact covered.2 inRange
      · have before := (done.covers_other same a).mp covered
        by_cases behind : (s.processVmas pid index).stop ≤ a
        · exact (vmaFind_none_iff table a).mp (alone a behind inRange.2) i bound before
        · have start := covers.2.1
          have low := inRange.1
          exact same (apart pid table i bound index inside a before
            ⟨covers.1, by omega, by omega⟩)
    · intro a word outside
      refine vmaFind_eq table tableAfter fun i => ?_
      by_cases same : i = index
      · rw [same, own, cut]
        exact and_iff_left outside
      · exact done.covers_other same a

theorem Munmapped.pages (done : Munmapped s after addr length pid index) (sound : s.mm.TablesSound)
    (unwrapped : addr + roundUp length < 4294967296) :
    Mm.Unmapped s.mm after.mm (decide ((s.processVmas pid index).flags &&& mapShared ≠ 0))
      (pageLoop addr (addr + roundUp length)) := by
  have whole : (addr + roundUp length) % 4096 = 0 := by
    have aligned := done.aligned
    unfold roundUp
    omega
  rw [done.mm, unwrapped_stop unwrapped]
  exact Mm.munmapPages_unmapped sound _ (pageLoop_below whole unwrapped)
    (pageLoop_ascending unwrapped)

theorem Munmapped.touched_iff (done : Munmapped s after addr length pid index)
    (unwrapped : addr + roundUp length < 4294967296) {a : Nat} (word : a < 4294967296) :
    (∃ page ∈ pageLoop addr (addr + roundUp length), Mm.Touches page a) ↔
      InRange addr length a ∨ InRange addr length (tableAddr a) := by
  have aligned := done.aligned
  have whole : (addr + roundUp length) % 4096 = 0 := by
    unfold roundUp
    omega
  rw [InRange, InRange, ← exists_page_iff aligned whole unwrapped word,
    ← exists_table_iff aligned whole unwrapped a]
  simp only [Mm.Touches, and_or_left, exists_or]

theorem frame_eq (sound : s.mm.TablesSound) {a : Nat} (mapped : vmmIsMapped s.mm a = true) :
    vmmGetPhysical s.mm a / 4096 = frameOf (s.mm.entry a) := by
  rw [Mm.physical_frame sound, if_neg ((Mm.vmmIsMapped_iff sound a).mp mapped)]

theorem Munmapped.pages_iff (done : Munmapped s after addr length pid index)
    (sound : s.mm.TablesSound) (unwrapped : addr + roundUp length < 4294967296) :
    (∀ a < 4294967296, ¬ InRange addr length a → vmmIsMapped s.mm a = true →
        vmmIsMapped after.mm a = true ∧ vmmGetPhysical after.mm a = vmmGetPhysical s.mm a ∧
          (s.mm.pmm.bitmapTest (vmmGetPhysical s.mm a / 4096) = true →
            after.mm.pmm.bitmapTest (vmmGetPhysical s.mm a / 4096) = true)) ↔
      (∀ a < 4294967296, ¬ InRange addr length a → vmmIsMapped s.mm a = true →
        ¬ InRange addr length (tableAddr a)) ∧
      ((s.processVmas pid index).flags &&& mapShared = 0 → ∀ a < 4294967296, ∀ b < 4294967296,
        InRange addr length a → vmmIsMapped s.mm a = true →
        ¬ InRange addr length b → vmmIsMapped s.mm b = true →
        vmmGetPhysical s.mm a / 4096 = vmmGetPhysical s.mm b / 4096 →
          s.mm.pmm.totalFrames ≤ vmmGetPhysical s.mm b / 4096 ∨
            s.mm.pmm.bitmapTest (vmmGetPhysical s.mm b / 4096) = false) := by
  have pages := done.pages sound unwrapped
  have aligned := done.aligned
  have whole : (addr + roundUp length) % 4096 = 0 := by
    unfold roundUp
    omega
  constructor
  · intro kept
    refine ⟨fun a word outside mapped inside => ?_,
      fun unshared a aWord b bWord aInside aMapped bOutside bMapped same => ?_⟩
    · have gone := pages.gone a ((done.touched_iff unwrapped word).mpr (.inr inside))
      exact gone ((Mm.vmmIsMapped_iff pages.sound a).mp (kept a word outside mapped).1)
    · by_contra held
      obtain ⟨bound, used⟩ := not_or.mp held
      have still := (kept b bWord bOutside bMapped).2.2 ((Bool.not_eq_false _).mp used)
      obtain ⟨page, member, samePage⟩ :=
        (exists_page_iff aligned whole unwrapped aWord).mpr aInside
      refine ((pages.used _).mp still).2 ⟨by simp [unshared], Nat.lt_of_not_le bound, page, member, ?_⟩
      rw [← same, frame_eq sound aMapped, Mm.Present, s.mm.entry_congr samePage.symm]
      exact ⟨(Mm.vmmIsMapped_iff sound a).mp aMapped, rfl⟩
  · rintro ⟨tables, unaliased⟩ a word outside mapped
    have untouched := (done.touched_iff unwrapped word).not.mpr
      (not_or.mpr ⟨outside, tables a word outside mapped⟩)
    have same := pages.kept a untouched
    refine ⟨?_, ?_, fun used => (pages.used _).mpr ⟨used, ?_⟩⟩
    · rw [Mm.vmmIsMapped_iff pages.sound, same]
      exact (Mm.vmmIsMapped_iff sound a).mp mapped
    · rw [Mm.vmmGetPhysical_eq pages.sound, Mm.vmmGetPhysical_eq sound, same]
    · rintro ⟨unshared, bound, page, member, present, frame⟩
      have inside := mem_pageLoop.mp member
      have pageMapped := (Mm.vmmIsMapped_iff sound page).mpr present
      rcases unaliased (by simpa using unshared) page (by omega) a word ⟨inside.1, inside.2.1⟩
        pageMapped outside mapped (by rw [frame_eq sound pageMapped, frame]) with high | isFree
      · omega
      · cases used.symm.trans isFree

/-- `munmap` does what it is for exactly if the range fits. -/
theorem munmap_exact_iff (apart : VmasApart s) (sound : s.mm.TablesSound)
    (word : addr < 4294967296) (short : length < 4294967296)
    (success : (sysMunmap s addr length).1 = 0) :
    MunmapExact s (sysMunmap s addr length).2 addr length ↔
      ∃ pid index, vmaFind s addr = some (pid, index) ∧
        RangeFits s (s.processVmas pid index) addr length := by
  obtain ⟨pid, index, done⟩ := sysMunmap_success success
  generalize (sysMunmap s addr length).2 = after at done ⊢
  have positive : 0 < roundUp length := by
    have nonempty := done.nonempty
    unfold roundUp
    omega
  constructor
  · intro exact
    have unwrapped : addr + roundUp length < 4294967296 := by
      by_contra wraps
      exact done.wrapped (wraps_back word short wraps)
        (exact.removed addr word ⟨Nat.le_refl _, by omega⟩)
    obtain ⟨ends, alone⟩ := (done.areas_iff apart unwrapped).mp ⟨exact.removed, exact.others⟩
    obtain ⟨tables, unaliased⟩ := (done.pages_iff sound unwrapped).mp exact.kept
    exact ⟨pid, index, done.found, unwrapped, ends, alone, tables, unaliased⟩
  · rintro ⟨owner, slot, found, fits⟩
    cases found.symm.trans done.found
    have pages := done.pages sound fits.word
    obtain ⟨removed, others⟩ := (done.areas_iff apart fits.word).mpr ⟨fits.ends, fits.alone⟩
    refine ⟨removed, others, fun a aWord inside => ?_,
      (done.pages_iff sound fits.word).mpr ⟨fits.tables, fits.unaliased⟩⟩
    have gone := pages.gone a ((done.touched_iff fits.word aWord).mpr (.inl inside))
    exact Bool.eq_false_iff.mpr fun mapped =>
      gone ((Mm.vmmIsMapped_iff pages.sound a).mp mapped)

end Munmap

/-- A process that has mapped three pages. -/
def threePages (flags : Nat) : UserMemory := smallMemory.call (.mmap 0 0x3000 3 flags)

theorem threePages_sound (flags : Nat) (unfixed : flags &&& mapFixed = 0) :
    (threePages flags).mm.TablesSound := by
  have start : smallMemory.Sound :=
    ⟨bootMm_guarded (by decide) (by decide) (by decide) (by decide) (by decide) (by decide),
      by decide⟩
  exact (@UserMemory.Sound.call smallMemory start (.mmap 0 0x3000 3 flags)
    (.inl unfixed)).1.guarded.toTablesSound

theorem threePages_apart (flags : Nat) (unfixed : flags &&& mapFixed = 0) :
    VmasApart (threePages flags) := by
  let call : VmaCall := ⟨.mmap 0 0x3000 3 flags, by decide, by decide⟩
  have step : VmaSound 1 (vmaStep smallMemory call) := by
    refine (vmaStep_sound_iff smallMemory_kept (by decide) call).mpr fun _ _ _ _ => ?_
    rw [mmapAddress, if_neg (not_not.mpr unfixed)]
    refine ⟨by decide, by decide, by decide, ?_⟩
    intro index _ inUse
    cases inUse
  exact step.vmasApart (vmaStep_owner smallMemory_kept (by decide) call).pid (by decide)

theorem munmap_exact_shared :
    (sysMunmap (threePages 0x21) 0x40000000 0x3000).1 = 0 ∧
      MunmapExact (threePages 0x21) (sysMunmap (threePages 0x21) 0x40000000 0x3000).2 0x40000000
        0x3000 := by
  have success : (sysMunmap (threePages 0x21) 0x40000000 0x3000).1 = 0 := by decide
  refine ⟨success, (munmap_exact_iff (threePages_apart _ (by decide)) (threePages_sound _ (by decide))
    (by decide) (by decide) success).mpr ⟨1, 0, by decide, ?_⟩⟩
  have stop : ((threePages 0x21).processVmas 1 0).stop = 0x40003000 := by decide
  have range : 0x40000000 + roundUp 0x3000 = 0x40003000 := by decide
  refine ⟨by decide, by decide, fun a behind below => ?_, fun a _ _ _ inside => ?_,
    fun unshared => absurd unshared (by decide)⟩
  · omega
  · have low : 0xFFC00 ≤ Mm.tablePage a := Nat.le_add_right _ _
    have high := inside.2
    rw [tableAddr] at high
    omega

/-- Unmapping the middle page of three leaves the area as it was. -/
theorem munmap_middle :
    VmasApart (threePages 0x20) ∧ (threePages 0x20).mm.TablesSound ∧
      (sysMunmap (threePages 0x20) 0x40001000 0x1000).1 = 0 ∧
      ¬ MunmapExact (threePages 0x20) (sysMunmap (threePages 0x20) 0x40001000 0x1000).2 0x40001000
        0x1000 := by
  refine ⟨threePages_apart _ (by decide), threePages_sound _ (by decide), by decide, fun exact => ?_⟩
  exact absurd (exact.removed 0x40001000 (by decide) (by decide)) (by decide)

/-! `mprotect`. -/

def mprotectFlags (prot : Nat) : Nat :=
  if prot &&& protWrite ≠ 0 then pageUser ||| pagePresent ||| pageWrite
  else pageUser ||| pagePresent

theorem mprotectFlags_user (prot : Nat) : mprotectFlags prot &&& pageUser ≠ 0 := by
  unfold mprotectFlags
  split <;> decide

theorem mprotectFlags_write (prot : Nat) :
    mprotectFlags prot &&& pageWrite ≠ 0 ↔ prot &&& protWrite ≠ 0 := by
  unfold mprotectFlags
  split
  · rename_i writable
    exact iff_of_true (by decide) writable
  · rename_i readable
    exact iff_of_false (by decide) readable

/-- A `mprotect` that returns 0: the pages, and the area's protection. -/
structure MprotectDone (s after : UserMemory) (addr length prot pid index : Nat) : Prop where
  aligned : addr % 4096 = 0
  nonempty : length ≠ 0
  found : vmaFind s addr = some (pid, index)
  mm : after.mm = (pageLoop addr (u32 (addr + roundLength length))).foldl
    (mprotectPage (mprotectFlags prot)) s.mm
  owner : after.pid = s.pid
  areas : after.processVmas = fun p i =>
    if p = pid ∧ i = index then { s.processVmas pid index with prot } else s.processVmas p i

theorem mprotectDone_mm {length prot : Nat} {mm : Mm} (aligned : addr % 4096 = 0)
    (nonempty : length ≠ 0) (found : vmaFind s addr = some (pid, index))
    (changed : mm = (pageLoop addr (u32 (addr + roundLength length))).foldl
      (mprotectPage (mprotectFlags prot)) s.mm) :
    MprotectDone s { s.setVma pid index { s.processVmas pid index with prot } with mm } addr length
      prot pid index :=
  ⟨aligned, nonempty, found, changed, rfl, rfl⟩

theorem sysMprotect_success {length prot : Nat} (success : (sysMprotect s addr length prot).1 = 0) :
    ∃ pid index, MprotectDone s (sysMprotect s addr length prot).2 addr length prot pid index := by
  by_cases unaligned : addr &&& 0xFFF ≠ 0
  · rw [sysMprotect, if_pos unaligned] at success
    cases success
  by_cases zero : length = 0
  · rw [sysMprotect, if_neg unaligned, if_pos zero] at success
    cases success
  have aligned : addr % 4096 = 0 := by
    rw [← and_offsetMask]
    exact not_not.mp unaligned
  rw [sysMprotect, if_neg unaligned, if_neg zero] at success ⊢
  cases found : vmaFind s addr with
  | none =>
      rw [found] at success
      cases success
  | some hit => exact ⟨hit.1, hit.2, mprotectDone_mm aligned zero found rfl⟩

/-- What `mprotect` is for: the mapped pages of the range keep their frames and get the
protection asked for; nothing changes for an address outside. -/
structure MprotectExact (s after : UserMemory) (addr length prot : Nat) : Prop where
  mapped : ∀ a < 4294967296, InRange addr length a → vmmIsMapped after.mm a = vmmIsMapped s.mm a
  frame : ∀ a < 4294967296, InRange addr length a →
    vmmGetPhysical after.mm a = vmmGetPhysical s.mm a
  writable : ∀ a < 4294967296, InRange addr length a → vmmIsMapped s.mm a = true →
    (after.mm.entry a &&& pageWrite ≠ 0 ↔ prot &&& protWrite ≠ 0)
  entries : ∀ a < 4294967296, ¬ InRange addr length a → after.mm.entry a = s.mm.entry a
  recorded : ∀ a < 4294967296, ¬ InRange addr length a →
    (vmaFind after a).map (fun hit => (after.processVmas hit.1 hit.2).prot) =
      (vmaFind s a).map fun hit => (s.processVmas hit.1 hit.2).prot

/-- The area has the protection already or nothing outside the range; and the range does not
wrap, and its pages have tables open to the user, or it does, and its pages are so already. -/
structure ProtectFits (s : UserMemory) (pid index addr length prot : Nat) : Prop where
  area : (s.processVmas pid index).prot = prot ∨
    ∀ a < 4294967296, ¬ InRange addr length a → vmaFind s a ≠ some (pid, index)
  opened : addr + roundUp length < 4294967296 →
    ∀ a < 4294967296, InRange addr length a → vmmIsMapped s.mm a = true →
      InRange addr length (tableAddr a) ∨ s.mm.pde (pdIndex a) &&& pageUser ≠ 0
  already : 4294967296 ≤ addr + roundUp length →
    ∀ a < 4294967296, InRange addr length a → vmmIsMapped s.mm a = true →
      (s.mm.entry a &&& pageWrite ≠ 0 ↔ prot &&& protWrite ≠ 0)

theorem or_user_eq_self (entry : Nat) : entry ||| pageUser = entry ↔ entry &&& pageUser ≠ 0 := by
  constructor
  · intro same closed
    have opened : (entry ||| pageUser) &&& pageUser = pageUser := by
      rw [Nat.and_or_distrib_right, closed, Nat.zero_or, Nat.and_self]
    rw [same, closed] at opened
    exact absurd opened (by decide)
  · intro opened
    have bit : entry.testBit 2 = true := by
      by_contra clear
      refine opened ((Nat.and_two_pow entry 2).trans ?_)
      rw [Bool.eq_false_iff.mpr clear]
      rfl
    refine Nat.eq_of_testBit_eq fun position => ?_
    rw [Nat.testBit_or, show pageUser = 2 ^ 2 from rfl, Nat.testBit_two_pow]
    by_cases own : 2 = position
    · rw [← own, bit, Bool.true_or]
    · rw [decide_eq_false own, Bool.or_false]

section Mprotect

variable {length prot : Nat}

theorem MprotectDone.vmaFind_same (done : MprotectDone s after addr length prot pid index) (a : Nat) :
    vmaFind after a = vmaFind s a := by
  have table := (vmaFind_some done.found).1
  have tableAfter : getVmaTable after = some pid := by
    rw [getVmaTable, done.owner]
    exact table
  refine vmaFind_eq table tableAfter fun i => ?_
  rw [done.areas]
  dsimp only
  split
  · rename_i same
    rw [same.2]
    rfl
  · rfl

theorem MprotectDone.recorded_iff (done : MprotectDone s after addr length prot pid index) :
    (∀ a < 4294967296, ¬ InRange addr length a →
      (vmaFind after a).map (fun hit => (after.processVmas hit.1 hit.2).prot) =
        (vmaFind s a).map fun hit => (s.processVmas hit.1 hit.2).prot) ↔
      ((s.processVmas pid index).prot = prot ∨
        ∀ a < 4294967296, ¬ InRange addr length a → vmaFind s a ≠ some (pid, index)) := by
  have others : ∀ p i, ¬ (p = pid ∧ i = index) →
      (after.processVmas p i).prot = (s.processVmas p i).prot := by
    intro p i apart
    rw [done.areas]
    exact congrArg Vma.prot (if_neg apart)
  have own : (after.processVmas pid index).prot = prot := by
    rw [done.areas]
    exact congrArg Vma.prot (if_pos ⟨rfl, rfl⟩)
  constructor
  · intro recorded
    by_contra neither
    obtain ⟨changes, found⟩ := not_or.mp neither
    push Not at found
    obtain ⟨a, word, outside, found⟩ := found
    have same := recorded a word outside
    rw [done.vmaFind_same, found, Option.map_some, Option.map_some, own, Option.some.injEq] at same
    exact changes same.symm
  · rintro fits a word outside
    rw [done.vmaFind_same]
    refine Option.map_congr fun hit found => ?_
    obtain ⟨p, i⟩ := hit
    by_cases same : p = pid ∧ i = index
    · obtain ⟨rfl, rfl⟩ := same
      rcases fits with unchanged | none
      · exact own.trans unchanged.symm
      · exact absurd found (none a word outside)
    · exact others p i same

theorem MprotectDone.pages (done : MprotectDone s after addr length prot pid index)
    (sound : s.mm.TablesSound) (unwrapped : addr + roundUp length < 4294967296) :
    Mm.Reprotected s.mm after.mm (mprotectFlags prot) (pageLoop addr (addr + roundUp length)) := by
  have whole : (addr + roundUp length) % 4096 = 0 := by
    have aligned := done.aligned
    unfold roundUp
    omega
  rw [done.mm, unwrapped_stop unwrapped]
  exact Mm.mprotectPages_reprotected sound (mprotectFlags_user prot)
    (pageLoop_below whole unwrapped)

theorem MprotectDone.wrapped (done : MprotectDone s after addr length prot pid index)
    (back : u32 (addr + roundLength length) ≤ addr) : after.mm = s.mm := by
  rw [done.mm, pageLoop_nil back]
  rfl

theorem pageOf_tableAddr (a : Nat) : pageOf (tableAddr a) = Mm.tablePage a := by
  rw [pageOf_word (tableAddr_lt a), tableAddr]
  omega

theorem entry_tableAddr (sound : s.mm.TablesSound) (a : Nat) :
    s.mm.entry (tableAddr a) = s.mm.pde (pdIndex a) := by
  obtain ⟨window, slot⟩ := (Mm.pageOf_eq_tablePage (tableAddr a) a).mp (pageOf_tableAddr a)
  rw [sound.entry_window window, slot]

theorem MprotectDone.entries_iff (done : MprotectDone s after addr length prot pid index)
    (sound : s.mm.TablesSound) (unwrapped : addr + roundUp length < 4294967296) :
    (∀ a < 4294967296, ¬ InRange addr length a → after.mm.entry a = s.mm.entry a) ↔
      ∀ a < 4294967296, InRange addr length a → vmmIsMapped s.mm a = true →
        InRange addr length (tableAddr a) ∨ s.mm.pde (pdIndex a) &&& pageUser ≠ 0 := by
  have pages := done.pages sound unwrapped
  have aligned := done.aligned
  have whole : (addr + roundUp length) % 4096 = 0 := by
    unfold roundUp
    omega
  have inLoop : ∀ a < 4294967296,
      (∃ page ∈ pageLoop addr (addr + roundUp length), pageOf a = pageOf page) ↔
        InRange addr length a := fun a word => exists_page_iff aligned whole unwrapped word
  constructor
  · intro same a word inside mapped
    by_cases shown : InRange addr length (tableAddr a)
    · exact .inl shown
    refine .inr ((or_user_eq_self _).mp ?_)
    obtain ⟨page, member, samePage⟩ := (inLoop a word).mpr inside
    have directory := ((Mm.pageOf_eq_iff _ _).mp samePage).1
    have opened := pages.opened (tableAddr a) ((inLoop _ (tableAddr_lt a)).not.mpr shown)
      ⟨page, member, ?_, ?_⟩
    · rw [same _ (tableAddr_lt a) shown, entry_tableAddr sound] at opened
      exact opened.symm
    · rw [Mm.Present, s.mm.entry_congr samePage.symm]
      exact (Mm.vmmIsMapped_iff sound a).mp mapped
    · rw [pageOf_tableAddr, Mm.tablePage, Mm.tablePage, directory]
  · intro opened a word outside
    have outsideLoop := (inLoop a word).not.mpr outside
    by_cases shows : ∃ page ∈ pageLoop addr (addr + roundUp length),
        s.mm.Present page ∧ pageOf a = Mm.tablePage page
    · rw [pages.opened a outsideLoop shows]
      obtain ⟨page, member, present, table⟩ := shows
      have inside := mem_pageLoop.mp member
      have samePage : pageOf a = pageOf (tableAddr page) := table.trans (pageOf_tableAddr page).symm
      rcases opened page (by omega) ⟨inside.1, inside.2.1⟩
        ((Mm.vmmIsMapped_iff sound page).mpr present) with shown | user
      · rw [← inLoop _ (tableAddr_lt page), ← samePage, inLoop a word] at shown
        exact absurd shown outside
      · rw [s.mm.entry_congr samePage, entry_tableAddr sound]
        exact (or_user_eq_self _).mpr user
    · exact pages.kept a outsideLoop shows

theorem pageMask_of_frame {entry other : Nat} (same : frameOf entry = frameOf other) :
    entry &&& 0xFFFFF000 = other &&& 0xFFFFF000 := by
  have whole : ∀ value, value &&& 0xFFFFF000 = frameOf value * 4096 := by
    intro value
    have bound : value &&& 0xFFFFF000 < 4294967296 :=
      Nat.lt_of_le_of_lt Nat.and_le_right (by decide)
    rw [frameOf, ← and_pageMask bound, Nat.and_assoc, Nat.and_self]
  rw [whole, whole, same]

theorem Mm.Reprotected.lookups {m reprotected : Mm} {flags : Nat} {pages : List Nat}
    (done : Mm.Reprotected m reprotected flags pages) (sound : m.TablesSound) (a : Nat) :
    vmmIsMapped reprotected a = vmmIsMapped m a ∧
      vmmGetPhysical reprotected a = vmmGetPhysical m a := by
  have same : vmmIsMapped reprotected a = vmmIsMapped m a := by
    rw [Bool.eq_iff_iff, Mm.vmmIsMapped_iff done.sound, Mm.vmmIsMapped_iff sound]
    exact done.present a
  refine ⟨same, ?_⟩
  rw [Mm.vmmGetPhysical_eq done.sound, Mm.vmmGetPhysical_eq sound, pageMask_of_frame (done.frame a)]
  exact if_congr (not_iff_not.mp (done.present a)) rfl rfl

/-- `mprotect` does what it is for exactly if the range fits. -/
theorem mprotect_exact_iff (sound : s.mm.TablesSound) (word : addr < 4294967296)
    (short : length < 4294967296) (success : (sysMprotect s addr length prot).1 = 0) :
    MprotectExact s (sysMprotect s addr length prot).2 addr length prot ↔
      ∃ pid index, vmaFind s addr = some (pid, index) ∧ ProtectFits s pid index addr length prot := by
  obtain ⟨pid, index, done⟩ := sysMprotect_success success
  generalize (sysMprotect s addr length prot).2 = after at done ⊢
  constructor
  · intro exact
    refine ⟨pid, index, done.found, done.recorded_iff.mp exact.recorded,
      fun unwrapped => (done.entries_iff sound unwrapped).mp exact.entries,
      fun wraps a aWord inside mapped => ?_⟩
    have writable := exact.writable a aWord inside mapped
    rwa [done.wrapped (wraps_back word short (Nat.not_lt.mpr wraps))] at writable
  · rintro ⟨owner, slot, found, fits⟩
    cases found.symm.trans done.found
    have recorded := done.recorded_iff.mpr fits.area
    by_cases unwrapped : addr + roundUp length < 4294967296
    · have pages := done.pages sound unwrapped
      have aligned := done.aligned
      have whole : (addr + roundUp length) % 4096 = 0 := by
        unfold roundUp
        omega
      refine ⟨fun a _ _ => (pages.lookups sound a).1, fun a _ _ => (pages.lookups sound a).2,
        fun a aWord inside mapped => ?_,
        (done.entries_iff sound unwrapped).mpr (fits.opened unwrapped), recorded⟩
      exact (pages.inside a ((Mm.vmmIsMapped_iff sound a).mp mapped)
        ((exists_page_iff aligned whole unwrapped aWord).mpr inside)).trans (mprotectFlags_write prot)
    · have same := done.wrapped (wraps_back word short unwrapped)
      refine ⟨fun _ _ _ => by rw [same], fun _ _ _ => by rw [same], fun a aWord inside mapped => ?_,
        fun _ _ _ => by rw [same], recorded⟩
      rw [same]
      exact fits.already (Nat.le_of_not_lt unwrapped) a aWord inside mapped

end Mprotect

theorem mprotect_exact_small :
    (sysMprotect (threePages 0x20) 0x40000000 0x3000 1).1 = 0 ∧
      MprotectExact (threePages 0x20) (sysMprotect (threePages 0x20) 0x40000000 0x3000 1).2
        0x40000000 0x3000 1 := by
  have success : (sysMprotect (threePages 0x20) 0x40000000 0x3000 1).1 = 0 := by decide
  have range : 0x40000000 + roundUp 0x3000 = 0x40003000 := by decide
  refine ⟨success, (mprotect_exact_iff (threePages_sound _ (by decide)) (by decide) (by decide)
    success).mpr ⟨1, 0, by decide, .inr fun a _ outside found => ?_, fun _ a _ inside _ => .inr ?_,
      fun wraps => ?_⟩⟩
  · have start : ((threePages 0x20).processVmas 1 0).start = 0x40000000 := by decide
    have stop : ((threePages 0x20).processVmas 1 0).stop = 0x40003000 := by decide
    have covers := (vmaFind_some found).2.2.2
    rw [start, stop] at covers
    exact outside ⟨covers.1, by omega⟩
  · have slot : pdIndex a = 256 := by
      have low := inside.1
      have high := inside.2
      rw [pdIndex_eq]
      omega
    rw [slot]
    decide
  · omega

/-- Making the middle page of three read-only is recorded for all three. -/
theorem mprotect_middle :
    (threePages 0x20).mm.TablesSound ∧
      (sysMprotect (threePages 0x20) 0x40001000 0x1000 1).1 = 0 ∧
      ¬ MprotectExact (threePages 0x20) (sysMprotect (threePages 0x20) 0x40001000 0x1000 1).2
        0x40001000 0x1000 1 := by
  refine ⟨threePages_sound _ (by decide), by decide, fun exact => ?_⟩
  exact absurd (exact.recorded 0x40000000 (by decide) (by decide)) (by decide)

end ZurichOS
