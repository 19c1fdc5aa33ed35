import ZurichOS.ReservedMemory

/-!
Bytes of user pages: what a write through one page leaves of the others, and what mapping a
page leaves of them all.
-/

namespace ZurichOS

open Words

theorem replaceByte_byte (word : Nat) {index other value : Nat} (small : value < 256)
    (bound : index < 4) (otherBound : other < 4) :
    replaceByte word index value / 256 ^ other % 256 =
      if other = index then value else word / 256 ^ other % 256 := by
  unfold replaceByte
  interval_cases index <;> interval_cases other <;> simp <;> omega

namespace Mm

def byteAt (m : Mm) (virt : Nat) : Nat := m.readWord virt / 256 ^ (virt % 4) % 256

def frameAt (m : Mm) (virt : Nat) : Nat := frameOf (m.entry virt)

section Bytes

variable {m after : Mm} {virt value addr : Nat}

theorem byteAt_eq (present : m.Present virt) :
    m.byteAt virt = m.phys (m.frameAt virt) (virt % 4096 / 4) / 256 ^ (virt % 4) % 256 := by
  rw [byteAt, readWord, mmuFrame_mapped present]
  rfl

theorem byteAt_congr (present : m.Present virt) (same : after.entry virt = m.entry virt)
    (contents : after.phys (m.frameAt virt) = m.phys (m.frameAt virt)) :
    after.byteAt virt = m.byteAt virt := by
  have kept : after.Present virt := by rwa [Present, same]
  rw [byteAt_eq present, byteAt_eq kept, frameAt, same, ← frameAt, contents]

/-- Two pages map one frame only if they are the same page. -/
def OwnPage (m : Mm) (virt : Nat) : Prop :=
  ∀ other < 0xC0000000, m.Present other → m.frameAt other = m.frameAt virt →
    pageOf other = pageOf virt

theorem Guarded.setByte_byteAt (guarded : m.Guarded) (small : value < 256)
    (user : virt < 0xC0000000) (present : m.Present virt) (fresh : m.FreshTable (m.frameAt virt))
    (own : m.OwnPage virt) (inside : addr < 0xC0000000) (mapped : m.Present addr) :
    (m.setByte virt value).byteAt addr = if addr = virt then value else m.byteAt addr := by
  have maps : m.Maps virt m.FreshTable := fun _ => fresh
  have same := guarded.setByte maps value
  have kept : (m.setByte virt value).Present addr := by rwa [Present, same.entry]
  have set : m.setByte virt value = { m with
      phys := fun f i => if f = m.frameAt virt ∧ i = virt % 4096 / 4 then
        replaceByte (m.phys f i) (virt % 4) value else m.phys f i } := by
    rw [Mm.setByte, if_pos ((vmmIsMapped_iff guarded.toTablesSound virt).mpr present),
      mmuFrame_mapped present]
    rfl
  rw [byteAt_eq kept, byteAt_eq mapped, frameAt, same.entry, ← frameAt, set]
  dsimp only
  by_cases place : m.frameAt addr = m.frameAt virt ∧ addr % 4096 / 4 = virt % 4096 / 4
  · have page := own addr inside mapped place.1
    rw [pageOf_word (by omega), pageOf_word (by omega)] at page
    rw [if_pos place, replaceByte_byte _ small (by omega) (by omega)]
    exact if_congr (by omega) rfl rfl
  · have apart : addr ≠ virt := by
      rintro rfl
      exact place ⟨rfl, rfl⟩
    rw [if_neg place, if_neg apart]

/-- A user page whose frame is no page table and is mapped by no other user page. -/
structure SolePage (m : Mm) (virt : Nat) : Prop where
  present : m.Present virt
  fresh : m.FreshTable (m.frameAt virt)
  own : m.OwnPage virt

theorem SameFrames.sole (same : SameFrames m after) (sole : m.SolePage virt) :
    after.SolePage virt := by
  refine ⟨by rw [Present, same.entry]; exact sole.present, ?_, fun other inside mapped shared => ?_⟩
  · rw [frameAt, same.entry]
    exact (same.freshTable _).mpr sole.fresh
  · rw [Present, same.entry] at mapped
    rw [frameAt, frameAt, same.entry, same.entry] at shared
    exact sole.own other inside mapped shared

theorem Guarded.setBytes_byteAt (guarded : m.Guarded) {start count : Nat} {value : Nat → Nat}
    (small : ∀ i < count, value i < 256) (fits : start + count ≤ 0xC0000000)
    (sole : ∀ i < count, m.SolePage (start + i)) (inside : addr < 0xC0000000)
    (mapped : m.Present addr) :
    (m.setBytes start count value).byteAt addr =
      if start ≤ addr ∧ addr < start + count then value (addr - start) else m.byteAt addr := by
  induction count with
  | zero =>
      rw [if_neg (by omega)]
      rfl
  | succ count ih =>
      have before := ih (fun i below => small i (by omega)) (by omega) fun i below =>
        sole i (by omega)
      have same := guarded.setBytes start count value fun i below => by
        rw [u32_eq_of_lt (by omega)]
        exact fun _ => (sole i (by omega)).fresh
      have last := same.sole (sole count (Nat.lt_succ_self count))
      have step : m.setBytes start (count + 1) value =
          (m.setBytes start count value).setByte (start + count) (value count) := by
        rw [Mm.setBytes, List.range_succ, List.foldl_append, List.foldl_cons, List.foldl_nil,
          u32_eq_of_lt (by omega)]
        rfl
      rw [step, (same.guarded guarded).setByte_byteAt (small count (Nat.lt_succ_self count))
        (by omega) last.present last.fresh last.own inside (by rwa [Present, same.entry]), before]
      by_cases isLast : addr = start + count
      · rw [if_pos isLast, if_pos (by omega), isLast, Nat.add_sub_cancel_left]
      · rw [if_neg isLast]
        exact if_congr (by omega) rfl rfl

theorem Guarded.mapPage_phys (guarded : m.Guarded) {frame : Nat} (harmless : m.Harmless frame)
    (page phys flags : Nat) : (vmmMapPage m page phys flags).phys frame = m.phys frame := by
  have sound := guarded.toTablesSound
  have bound := pdIndex_lt page
  have offDirectory : frame ≠ m.cr3 / 4096 := by
    rintro rfl
    exact harmless.1 recursivePdIndex (by decide) guarded.present guarded.recursive
  have writeOff : ∀ (other : Mm) {target : Nat}, frame ≠ target → ∀ index word,
      (other.write target index word).phys frame = other.phys frame := by
    intro other target apart index word
    funext slot
    simp [write, apart]
  by_cases table : m.HasTable (pdIndex page)
  · have offTable := Ne.symm (harmless.1 _ bound table)
    rw [vmmMapPage_present sound phys flags table]
    dsimp only
    split
    · obtain ⟨opened, _, frames⟩ := sound.openUser (pdIndex page)
      rw [writeOff _ (by rw [opened.getPt_eq bound, frames]; exact offTable),
        writeOff _ offDirectory]
    · rw [writeOff _ (by rw [sound.getPt_eq bound]; exact offTable)]
  · by_cases failed : (pmmAllocFrame m.pmm).1 = 0
    · rw [vmmMapPage_failed sound phys flags table failed]
    · obtain ⟨isFree, _, fresh, _⟩ := guarded.allocFrame_success failed
      have offTaken : frame ≠ (pmmAllocFrame m.pmm).1 / 4096 := by
        rintro rfl
        rw [harmless.2] at isFree
        cases isFree
      let taken : Mm := { m with pmm := (pmmAllocFrame m.pmm).2 }
      have takenSound : taken.TablesSound := sound.congr rfl fun _ => rfl
      obtain ⟨window, cleared, directory, _, _⟩ := takenSound.linkTable bound table fresh
        ((frameOf_link (pmmAllocFrame m.pmm).1 flags).trans (frameOf_allocFrame m.pmm))
      rw [vmmMapPage_absent sound phys flags table failed]
      dsimp only
      rw [window, writeOff _ (by
        rw [cleared.getPt_eq bound, directory, if_pos rfl, frameOf_link, frameOf_allocFrame]
        exact offTaken)]
      funext slot
      simp [clearTable, write, offTaken, offDirectory]

end Bytes

end Mm

end ZurichOS
