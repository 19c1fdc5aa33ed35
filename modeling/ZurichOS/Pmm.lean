import ZurichOS.PmmCore

set_option linter.all false

/-!
Accounting of physical frames: the bitmap, the bound on the frames and the
separate counter agree after every history of allocator calls.
-/

namespace ZurichOS

open Words

namespace Pmm

/-- The allocator's invariant. The bits of the last word beyond `totalFrames` stay
set, so a word with a clear bit always holds a free frame; frame 0 stays used,
since its address is the failure value. -/
structure Accounted (pmm : Pmm) : Prop where
  counted : pmm.usedFrames = PackedBitmap.count pmm.bitmap pmm.totalFrames
  padding : ∀ frame, pmm.totalFrames ≤ frame → frame < pmm.bitmapSize * 32 →
    pmm.bitmapTest frame = true
  covered : pmm.totalFrames ≤ pmm.bitmapSize * 32
  fits : pmm.bitmapSize * 32 < 4294967296
  small : pmm.totalFrames ≤ 1048576
  zeroUsed : 0 < pmm.totalFrames → pmm.bitmapTest 0 = true

theorem bitmapTest_bitmapSet (pmm : Pmm) (frame other : Nat) :
    (pmm.bitmapSet frame).bitmapTest other =
      (decide (other = frame) || pmm.bitmapTest other) :=
  PackedBitmap.test_set (by omega) pmm.bitmap frame other

theorem bitmapTest_bitmapClear (pmm : Pmm) (frame other : Nat) :
    (pmm.bitmapClear frame).bitmapTest other =
      (!decide (other = frame) && pmm.bitmapTest other) :=
  PackedBitmap.test_clear (by omega) pmm.bitmap frame other

theorem Accounted.used_le {pmm : Pmm} (accounted : pmm.Accounted) :
    pmm.usedFrames ≤ pmm.totalFrames := by
  rw [accounted.counted]
  exact PackedBitmap.count_le _ _

/-- The two figures the allocator reports add up to the memory it manages. -/
theorem Accounted.free_add_used {pmm : Pmm} (accounted : pmm.Accounted)
    (fits : pmm.totalFrames * 4096 < 4294967296) :
    pmmGetFreeMemory pmm + pmmGetUsedMemory pmm = pmm.totalFrames * 4096 := by
  have used := accounted.used_le
  have small : pmm.totalFrames < 4294967296 :=
    Nat.lt_of_le_of_lt accounted.small (by decide)
  have free : u32 (pmm.totalFrames + 4294967296 - pmm.usedFrames) =
      pmm.totalFrames - pmm.usedFrames := sub32_eq used small
  have freeBound : (pmm.totalFrames - pmm.usedFrames) * 4096 < 4294967296 :=
    Nat.lt_of_le_of_lt (Nat.mul_le_mul_right _ (Nat.sub_le _ _)) fits
  have usedBound : pmm.usedFrames * 4096 < 4294967296 :=
    Nat.lt_of_le_of_lt (Nat.mul_le_mul_right _ used) fits
  rw [pmmGetFreeMemory, pmmGetUsedMemory, free, u32_eq_of_lt freeBound, u32_eq_of_lt usedBound,
    ← Nat.add_mul, Nat.sub_add_cancel used]

theorem Accounted.bitmapSet {pmm : Pmm} (accounted : pmm.Accounted) {frame : Nat}
    (bound : frame < pmm.totalFrames) (off : pmm.bitmapTest frame = false) :
    (pmm.bitmapSet frame).Accounted := by
  have counted := PackedBitmap.count_set (by omega) pmm.bitmap bound off
  have limit := PackedBitmap.count_le (PackedBitmap.set pmm.bitmap frame) pmm.totalFrames
  have small := accounted.small
  refine ⟨?_, ?_, accounted.covered, accounted.fits, accounted.small, ?_⟩
  · change u32 (pmm.usedFrames + 1) =
      PackedBitmap.count (PackedBitmap.set pmm.bitmap frame) pmm.totalFrames
    rw [accounted.counted, u32_eq_of_lt (by omega), counted]
  · intro other beyond inside
    rw [bitmapTest_bitmapSet, accounted.padding other beyond inside, Bool.or_true]
  · intro positive
    rw [bitmapTest_bitmapSet, accounted.zeroUsed positive, Bool.or_true]

theorem Accounted.bitmapClear {pmm : Pmm} (accounted : pmm.Accounted) {frame : Nat}
    (bound : frame < pmm.totalFrames) (on : pmm.bitmapTest frame = true) (nonzero : frame ≠ 0) :
    (pmm.bitmapClear frame).Accounted := by
  have counted := PackedBitmap.count_clear (by omega) pmm.bitmap bound on
  have limit := PackedBitmap.count_le pmm.bitmap pmm.totalFrames
  have small := accounted.small
  refine ⟨?_, ?_, accounted.covered, accounted.fits, accounted.small, ?_⟩
  · change u32 (pmm.usedFrames + 4294967295) =
      PackedBitmap.count (PackedBitmap.clear pmm.bitmap frame) pmm.totalFrames
    rw [accounted.counted, u32]
    omega
  · intro other beyond inside
    have apart : other ≠ frame := by
      change pmm.totalFrames ≤ other at beyond
      omega
    rw [bitmapTest_bitmapClear, accounted.padding other beyond inside]
    simp [apart]
  · intro positive
    rw [bitmapTest_bitmapClear, accounted.zeroUsed positive]
    simp [Ne.symm nonzero]

end Pmm

open Pmm

/-! What each call does, whatever the state of the allocator. -/

theorem pmmScanWord_found {pmm : Pmm} {index frame : Nat}
    (found : pmmScanWord pmm index = some (some frame)) :
    frame < pmm.totalFrames ∧ pmm.bitmapTest frame = false := by
  obtain ⟨offset, _, returned, _⟩ := (findSome_range_eq_some _ _ _).mp found
  dsimp only at returned
  split at returned
  · simp at returned
  · split at returned
    · simp at returned
    · rename_i bound off
      simp only [Option.some.injEq] at returned
      subst returned
      exact ⟨by omega, by simpa using off⟩

theorem pmmScan_found {pmm : Pmm} {frame : Nat} (found : pmmScan pmm = some (some frame)) :
    frame < pmm.totalFrames ∧ pmm.bitmapTest frame = false := by
  obtain ⟨index, _, returned, _⟩ := (findSome_range_eq_some _ _ _).mp found
  split at returned
  · simp at returned
  · exact pmmScanWord_found returned

/-- An allocation either leaves the allocator alone and returns 0, or takes one frame
whose bit was clear. -/
theorem pmmAllocFrame_cases (pmm : Pmm) :
    pmmAllocFrame pmm = (0, pmm) ∨
      ∃ frame < pmm.totalFrames, pmm.bitmapTest frame = false ∧
        pmmAllocFrame pmm = (u32 (frame * 4096), pmm.bitmapSet frame) := by
  unfold pmmAllocFrame
  split
  · exact Or.inl rfl
  · split
    · rename_i frame found
      obtain ⟨bound, off⟩ := pmmScan_found found
      exact Or.inr ⟨frame, bound, off, rfl⟩
    · exact Or.inl rfl

theorem pmmFreeFrame_cases (pmm : Pmm) (addr : Nat) :
    (addr / 4096 < pmm.totalFrames ∧ pmm.bitmapTest (addr / 4096) = true ∧
        pmmFreeFrame pmm addr = pmm.bitmapClear (addr / 4096)) ∨
      ((pmm.totalFrames ≤ addr / 4096 ∨ pmm.bitmapTest (addr / 4096) = false) ∧
        pmmFreeFrame pmm addr = pmm) := by
  unfold pmmFreeFrame
  by_cases outside : pmm.totalFrames ≤ addr / 4096
  · exact Or.inr ⟨Or.inl outside, by simp [outside]⟩
  · cases used : pmm.bitmapTest (addr / 4096) with
    | true => exact Or.inl ⟨by omega, rfl, by simp [outside, used]⟩
    | false => exact Or.inr ⟨Or.inr rfl, by simp [used]⟩

theorem pmmMarkUsed_cases (pmm : Pmm) (addr : Nat) :
    (addr / 4096 < pmm.totalFrames ∧ pmm.bitmapTest (addr / 4096) = false ∧
        pmmMarkUsed pmm addr = pmm.bitmapSet (addr / 4096)) ∨
      ((pmm.totalFrames ≤ addr / 4096 ∨ pmm.bitmapTest (addr / 4096) = true) ∧
        pmmMarkUsed pmm addr = pmm) := by
  unfold pmmMarkUsed
  by_cases outside : pmm.totalFrames ≤ addr / 4096
  · exact Or.inr ⟨Or.inl outside, by simp [outside]⟩
  · cases used : pmm.bitmapTest (addr / 4096) with
    | true => exact Or.inr ⟨Or.inr rfl, by simp [used]⟩
    | false => exact Or.inl ⟨by omega, rfl, by simp [outside, used]⟩

namespace Pmm

theorem Accounted.markUsed {pmm : Pmm} (accounted : pmm.Accounted) (addr : Nat) :
    (pmmMarkUsed pmm addr).Accounted := by
  rcases pmmMarkUsed_cases pmm addr with ⟨bound, off, same⟩ | ⟨_, same⟩
  · rw [same]
    exact accounted.bitmapSet bound off
  · rwa [same]

theorem Accounted.freeFrame {pmm : Pmm} (accounted : pmm.Accounted) {addr : Nat}
    (nonzero : addr / 4096 ≠ 0) : (pmmFreeFrame pmm addr).Accounted := by
  rcases pmmFreeFrame_cases pmm addr with ⟨bound, on, same⟩ | ⟨_, same⟩
  · rw [same]
    exact accounted.bitmapClear bound on nonzero
  · rwa [same]

theorem Accounted.allocFrame {pmm : Pmm} (accounted : pmm.Accounted) :
    (pmmAllocFrame pmm).2.Accounted := by
  rcases pmmAllocFrame_cases pmm with same | ⟨frame, bound, off, same⟩
  · rwa [same]
  · rw [same]
    exact accounted.bitmapSet bound off

theorem Accounted.scan_complete {pmm : Pmm} (accounted : pmm.Accounted) {free : Nat}
    (bound : free < pmm.totalFrames) (off : pmm.bitmapTest free = false) :
    ∃ frame, pmmScan pmm = some (some frame) := by
  have covered := accounted.covered
  have fits := accounted.fits
  have small := accounted.small
  cases scan : pmmScan pmm with
  | none =>
      have quiet := (findSome_range_eq_none _ _).mp scan (free / 32) (by omega)
      split at quiet
      · rename_i full
        have on := PackedBitmap.test_allOnes (by omega) pmm.bitmap free full
        exact absurd (on.symm.trans off) (by simp)
      · have passed := (findSome_range_eq_none _ _).mp quiet (free % 32) (by omega)
        have whole : u32 (free / 32 * 32 + free % 32) = free := by
          rw [u32, Nat.div_add_mod' free 32]
          omega
        dsimp only at passed
        rw [whole, if_neg (Nat.not_le.mpr bound), off] at passed
        simp at passed
  | some result =>
      cases result with
      | some frame => exact ⟨frame, rfl⟩
      | none =>
          -- `return 0` would need a clear bit at or beyond `totalFrames`.
          obtain ⟨index, below, returned, _⟩ := (findSome_range_eq_some _ _ _).mp scan
          split at returned
          · simp at returned
          · rename_i partly
            obtain ⟨offset, inside, clear⟩ :=
              PackedBitmap.exists_clear (by omega) pmm.bitmap index partly
            change pmm.bitmapTest (index * 32 + offset) = false at clear
            obtain ⟨stop, _, stopped, quiet⟩ := (findSome_range_eq_some _ _ _).mp returned
            have inBitmap : index * 32 + offset < 4294967296 := by omega
            have stopBeyond : pmm.totalFrames ≤ u32 (index * 32 + stop) := by
              apply Decidable.byContradiction
              intro inRange
              dsimp only at stopped
              rw [if_neg inRange] at stopped
              split at stopped <;> simp at stopped
            have stopEarly : stop ≤ offset := by
              apply Decidable.byContradiction
              intro late
              have silent := quiet offset (by omega)
              dsimp only at silent
              split at silent
              · simp at silent
              · rename_i inRange
                rw [u32_eq_of_lt inBitmap, clear] at silent
                simp at silent
            have padded := accounted.padding (index * 32 + offset)
              (by rw [u32] at stopBeyond; omega) (by omega)
            exact absurd (padded.symm.trans clear) (by simp)

theorem Accounted.allocFrame_eq_zero_iff {pmm : Pmm} (accounted : pmm.Accounted) :
    (pmmAllocFrame pmm).1 = 0 ↔
      ∀ frame < pmm.totalFrames, pmm.bitmapTest frame = true := by
  have used := accounted.counted
  have small := accounted.small
  have full := PackedBitmap.count_eq_total pmm.bitmap pmm.totalFrames
  constructor
  · intro failed
    apply Decidable.byContradiction
    intro notAll
    simp only [not_forall, Bool.not_eq_true] at notAll
    obtain ⟨free, bound, off⟩ := notAll
    have room : ¬pmm.totalFrames ≤ pmm.usedFrames := by
      intro none
      have all := full.mp (Nat.le_antisymm (PackedBitmap.count_le _ _) (used ▸ none))
      exact absurd ((all free bound).symm.trans off) (by simp)
    obtain ⟨frame, found⟩ := accounted.scan_complete bound off
    have frameBound := (pmmScan_found found).1
    simp only [pmmAllocFrame, if_neg room, found] at failed
    have frameZero : frame = 0 := by
      rw [u32] at failed
      omega
    subst frameZero
    have on := accounted.zeroUsed (by omega)
    exact absurd (on.symm.trans (pmmScan_found found).2) (by simp)
  · intro all
    have none : pmm.totalFrames ≤ pmm.usedFrames := by
      rw [used, full.mpr all]
    simp [pmmAllocFrame, none]

theorem release_accounted (pmm : Pmm) (accounted : pmm.Accounted)
    (reserved : ∀ frame, frame < pmm.bitmapSize * 32 → pmm.bitmapTest frame = true) :
    ∀ amount, 256 + amount ≤ pmm.totalFrames →
      let released := (List.range' 256 amount).foldl Pmm.bitmapClear pmm
      released.Accounted ∧ released.totalFrames = pmm.totalFrames ∧
        released.bitmapSize = pmm.bitmapSize ∧
        ∀ frame, 256 + amount ≤ frame → frame < pmm.bitmapSize * 32 →
          released.bitmapTest frame = true := by
  have covered := accounted.covered
  intro amount
  induction amount with
  | zero =>
      intro _
      exact ⟨accounted, rfl, rfl, fun frame _ inside => reserved frame inside⟩
  | succ amount ih =>
      intro limit
      obtain ⟨before, total, size, later⟩ := ih (by omega)
      rw [List.range'_concat, List.foldl_append]
      simp only [Nat.one_mul, List.foldl_cons, List.foldl_nil]
      refine ⟨before.bitmapClear (by rw [total]; omega)
        (later _ (Nat.le_refl _) (by omega)) (by omega), total, size, ?_⟩
      intro frame lower inside
      have apart : frame ≠ 256 + amount := by omega
      rw [bitmapTest_bitmapClear, later frame (by omega) inside]
      simp [apart]

theorem foldl_markUsed_accounted (addrs : List Nat) (pmm : Pmm) (accounted : pmm.Accounted) :
    (addrs.foldl pmmMarkUsed pmm).Accounted := by
  induction addrs generalizing pmm with
  | nil => exact accounted
  | cons addr rest ih => exact ih _ (accounted.markUsed addr)

end Pmm

theorem pmmInit_accounted (mboot : MultibootInfo) (kernelEndPhys : Nat) :
    (pmmInit mboot kernelEndPhys).Accounted := by
  unfold pmmInit
  apply foldl_markUsed_accounted
  generalize detectedEq : (if mboot.flags &&& 1 ≠ 0 then
    u32 (u32 (mboot.memUpper + 1024) * 1024) else 256 * 1024 * 1024) = detected
  have detectedBound : detected < 4294967296 := by
    rw [← detectedEq]
    split
    · exact u32_lt _
    · omega
  generalize memoryEq : (if detected = 0 then 256 * 1024 * 1024 else detected) = memory
  have memoryBound : memory < 4294967296 := by
    rw [← memoryEq]
    split <;> omega
  generalize totalEq : memory / 4096 = total
  have totalBound : total < 1048576 := by omega
  generalize sizeEq : (total + 31) / 32 = size
  let reserved : Pmm :=
    { bitmap := fun index => if index < size then BitVec.allOnes 32 else 0#32
      bitmapSize := size, totalFrames := total, usedFrames := total, totalMemory := memory }
  have allSet : ∀ frame, frame < size * 32 → reserved.bitmapTest frame = true := by
    intro frame inside
    apply PackedBitmap.test_allOnes (by omega)
    have word : frame / 32 < size := by omega
    simp [reserved, word]
  have start : reserved.Accounted := by
    refine ⟨?_, fun frame _ inside => allSet frame inside, ?_, ?_, ?_, fun positive => ?_⟩
    · exact ((PackedBitmap.count_eq_total _ _).mpr fun frame bound =>
        allSet frame (by simp only [reserved] at bound; omega)).symm
    · simp only [reserved]; omega
    · simp only [reserved]; omega
    · simp only [reserved]; omega
    · exact allSet 0 (by simp only [reserved] at positive; omega)
  by_cases tiny : total < 256
  · rw [Nat.sub_eq_zero_of_le (Nat.le_of_lt tiny)]
    exact start
  · exact (release_accounted reserved start allSet (total - 256)
      (by simp only [reserved]; omega)).1

namespace Pmm

theorem Accounted.call {pmm : Pmm} (accounted : pmm.Accounted) (call : PmmCall)
    (keepsZero : ∀ addr, call = .freeFrame addr → addr / 4096 ≠ 0) : (pmm.call call).Accounted := by
  cases call with
  | allocFrame => exact accounted.allocFrame
  | freeFrame addr => exact accounted.freeFrame (keepsZero addr rfl)
  | markUsed addr => exact accounted.markUsed addr

theorem Accounted.run {pmm : Pmm} (accounted : pmm.Accounted) (calls : List PmmCall)
    (keepsZero : ∀ addr, .freeFrame addr ∈ calls → addr / 4096 ≠ 0) :
    (pmm.run calls).Accounted := by
  induction calls generalizing pmm with
  | nil => exact accounted
  | cons call rest ih =>
      have next := accounted.call call fun addr same => keepsZero addr (by simp [same])
      exact ih next fun addr member => keepsZero addr (List.mem_cons_of_mem _ member)

theorem call_keeps_used (pmm : Pmm) (call : PmmCall) (frame : Nat)
    (used : pmm.bitmapTest frame = true)
    (kept : ∀ addr, call = .freeFrame addr → addr / 4096 ≠ frame) :
    (pmm.call call).bitmapTest frame = true := by
  cases call with
  | allocFrame =>
      rcases pmmAllocFrame_cases pmm with same | ⟨_, _, _, same⟩
      · simpa [call, same] using used
      · simp [call, same, bitmapTest_bitmapSet, used]
  | freeFrame addr =>
      rcases pmmFreeFrame_cases pmm addr with ⟨_, _, same⟩ | ⟨_, same⟩
      · have apart := Ne.symm (kept addr rfl)
        simp [call, same, bitmapTest_bitmapClear, used, apart]
      · simpa [call, same] using used
  | markUsed addr =>
      rcases pmmMarkUsed_cases pmm addr with ⟨_, _, same⟩ | ⟨_, same⟩
      · simp [call, same, bitmapTest_bitmapSet, used]
      · simpa [call, same] using used

theorem run_keeps_used (pmm : Pmm) (calls : List PmmCall) (frame : Nat)
    (used : pmm.bitmapTest frame = true)
    (kept : ∀ addr, .freeFrame addr ∈ calls → addr / 4096 ≠ frame) :
    (pmm.run calls).bitmapTest frame = true := by
  induction calls generalizing pmm with
  | nil => exact used
  | cons call rest ih =>
      apply ih
      · exact call_keeps_used pmm call frame used fun addr same => kept addr (by simp [same])
      · exact fun addr member => kept addr (List.mem_cons_of_mem _ member)

theorem Accounted.allocFrame_success {pmm : Pmm} (accounted : pmm.Accounted)
    (success : (pmmAllocFrame pmm).1 ≠ 0) :
    ∃ frame < pmm.totalFrames, (pmmAllocFrame pmm).1 = frame * 4096 ∧
      pmm.bitmapTest frame = false ∧ (pmmAllocFrame pmm).2 = pmm.bitmapSet frame := by
  have small := accounted.small
  rcases pmmAllocFrame_cases pmm with same | ⟨frame, bound, off, same⟩
  · exact absurd (by rw [same]) success
  · refine ⟨frame, bound, ?_, off, by rw [same]⟩
    rw [same]
    exact u32_eq_of_lt (by omega)

end Pmm

theorem allocFrame_keeps {pmm : Pmm} {frame : Nat} (used : pmm.bitmapTest frame = true) :
    (pmmAllocFrame pmm).2.bitmapTest frame = true :=
  pmm.call_keeps_used .allocFrame frame used fun _ other => by simp at other

theorem freeFrame_keeps {pmm : Pmm} {addr frame : Nat} (used : pmm.bitmapTest frame = true)
    (apart : addr / 4096 ≠ frame) : (pmmFreeFrame pmm addr).bitmapTest frame = true :=
  pmm.call_keeps_used (.freeFrame addr) frame used fun other same => by
    cases same
    exact apart

/-- Every history of allocator calls that never frees frame 0: the counter is the
number of set bits, an allocation takes exactly one clear bit and fails only when
there is none, a frame is handed out again only after a free, and the calls on
frames already in the wanted state or out of range change nothing. -/
theorem pmm_history_accounted (mboot : MultibootInfo) (kernelEndPhys : Nat)
    (calls : List PmmCall) (keepsZero : ∀ addr, .freeFrame addr ∈ calls → addr / 4096 ≠ 0) :
    let pmm := (pmmInit mboot kernelEndPhys).run calls
    pmm.usedFrames = PackedBitmap.count pmm.bitmap pmm.totalFrames ∧
    ((pmmAllocFrame pmm).1 ≠ 0 →
      ∃ frame < pmm.totalFrames, (pmmAllocFrame pmm).1 = frame * 4096 ∧
        pmm.bitmapTest frame = false ∧
        ∀ other, (pmmAllocFrame pmm).2.bitmapTest other =
          (decide (other = frame) || pmm.bitmapTest other)) ∧
    (∀ before between, calls = before ++ .allocFrame :: between →
      let earlier := (pmmInit mboot kernelEndPhys).run before
      (pmmAllocFrame pmm).1 ≠ 0 → (pmmAllocFrame earlier).1 = (pmmAllocFrame pmm).1 →
      ∃ freed, .freeFrame freed ∈ between ∧ freed / 4096 = (pmmAllocFrame pmm).1 / 4096) ∧
    ((pmmAllocFrame pmm).1 = 0 ↔ ∀ frame < pmm.totalFrames, pmm.bitmapTest frame = true) ∧
    (∀ addr, pmm.totalFrames ≤ addr / 4096 ∨ pmm.bitmapTest (addr / 4096) = false →
      pmmFreeFrame pmm addr = pmm) ∧
    (∀ addr, pmm.totalFrames ≤ addr / 4096 ∨ pmm.bitmapTest (addr / 4096) = true →
      pmmMarkUsed pmm addr = pmm) := by
  intro pmm
  have start := pmmInit_accounted mboot kernelEndPhys
  have accounted : pmm.Accounted := start.run calls keepsZero
  refine ⟨accounted.counted, ?_, ?_, accounted.allocFrame_eq_zero_iff, ?_, ?_⟩
  · intro success
    obtain ⟨frame, bound, addr, off, after⟩ := accounted.allocFrame_success success
    refine ⟨frame, bound, addr, off, fun other => ?_⟩
    rw [after, bitmapTest_bitmapSet]
  · intro before between split earlier success again
    have earlierAccounted : earlier.Accounted := start.run before fun addr member =>
      keepsZero addr (by simp [split, member])
    obtain ⟨frame, _, addr, off, _⟩ := accounted.allocFrame_success success
    obtain ⟨first, _, firstAddr, _, firstAfter⟩ :=
      earlierAccounted.allocFrame_success (by rwa [again])
    have same : first = frame := by omega
    subst same
    apply Classical.byContradiction
    intro notFreed
    -- The frame was taken, never freed, and still found clear.
    have continued : pmm = (earlier.bitmapSet first).run between := by
      rw [← firstAfter]
      simp only [pmm, earlier, split, Pmm.run, List.foldl_append, List.foldl_cons, Pmm.call]
    have used := run_keeps_used (earlier.bitmapSet first) between first
      (by simp [bitmapTest_bitmapSet]) fun freed member sameFrame =>
        notFreed ⟨freed, member, by omega⟩
    rw [← continued] at used
    exact absurd (used.symm.trans off) (by simp)
  · intro addr idle
    rcases pmmFreeFrame_cases pmm addr with ⟨bound, on, _⟩ | ⟨_, same⟩
    · rcases idle with outside | off
      · omega
      · exact absurd (on.symm.trans off) (by simp)
    · exact same
  · intro addr idle
    rcases pmmMarkUsed_cases pmm addr with ⟨bound, off, _⟩ | ⟨_, same⟩
    · rcases idle with outside | on
      · omega
      · exact absurd (on.symm.trans off) (by simp)
    · exact same

theorem pmm_history_accounted_small :
    let pmm := (pmmInit ⟨1, 1024⟩ 0x100000).run [.allocFrame, .freeFrame 0x101000]
    pmm.usedFrames = PackedBitmap.count pmm.bitmap pmm.totalFrames :=
  (pmm_history_accounted ⟨1, 1024⟩ 0x100000 [.allocFrame, .freeFrame 0x101000] (by simp)).1

end ZurichOS
