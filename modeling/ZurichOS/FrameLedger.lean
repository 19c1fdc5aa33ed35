import ZurichOS.PartialTable

/-!
Frames given out to pages.  A ledger says what each page maps, which frames are free and
which are held for other uses.  It is conserved if every frame is exactly one of these,
and no two pages share one.
-/

namespace FrameLedger

open PartialTable

variable {Page Frame : Type}

structure Ledger (Page Frame : Type) where
  maps : Page → Option Frame
  Free : Frame → Prop
  Held : Frame → Prop

structure Conserved (l : Ledger Page Frame) : Prop where
  covered : ∀ frame, l.Free frame ∨ l.Held frame ∨ ∃ page, l.maps page = some frame
  apart : ∀ frame, l.Free frame → ¬ l.Held frame
  exclusive : ∀ page frame, l.maps page = some frame → ¬ l.Free frame ∧ ¬ l.Held frame
  single : ∀ page other frame, l.maps page = some frame → l.maps other = some frame →
    page = other

/-- `after` is `l` with `page`, which maps nothing, mapping the free `frame`. -/
structure Places [DecidableEq Page] (l after : Ledger Page Frame) (page : Page) (frame : Frame) :
    Prop where
  empty : l.maps page = none
  isFree : l.Free frame
  maps : after.maps = Function.update l.maps page (some frame)
  free : ∀ other, after.Free other ↔ l.Free other ∧ other ≠ frame
  held : ∀ other, after.Held other ↔ l.Held other

/-- `after` is `l` with the page unmapped and its frame free again. -/
structure Releases [DecidableEq Page] (l after : Ledger Page Frame) (page : Page)
    (frame : Frame) : Prop where
  full : l.maps page = some frame
  maps : after.maps = Function.update l.maps page none
  free : ∀ other, after.Free other ↔ l.Free other ∨ other = frame
  held : ∀ other, after.Held other ↔ l.Held other

/-- `after` is `l` with a free frame taken for another use. -/
structure Holds (l after : Ledger Page Frame) (frame : Frame) : Prop where
  isFree : l.Free frame
  maps : after.maps = l.maps
  free : ∀ other, after.Free other ↔ l.Free other ∧ other ≠ frame
  held : ∀ other, after.Held other ↔ l.Held other ∨ other = frame

section Steps

variable {l after : Ledger Page Frame}

theorem Conserved.hold (conserved : Conserved l) {frame : Frame} (step : Holds l after frame) :
    Conserved after := by
  refine ⟨fun other => ?_, fun other isFree => ?_, fun page other mapped => ?_, ?_⟩
  · rw [step.free, step.held, step.maps]
    by_cases same : other = frame
    · exact .inr (.inl (.inr same))
    · rcases conserved.covered other with free | held | mapped
      · exact .inl ⟨free, same⟩
      · exact .inr (.inl (.inl held))
      · exact .inr (.inr mapped)
  · rw [step.free] at isFree
    rw [step.held]
    rintro (held | same)
    · exact conserved.apart other isFree.1 held
    · exact isFree.2 same
  · rw [step.maps] at mapped
    obtain ⟨notFree, notHeld⟩ := conserved.exclusive page other mapped
    rw [step.free, step.held]
    refine ⟨fun free => notFree free.1, ?_⟩
    rintro (held | rfl)
    · exact notHeld held
    · exact notFree step.isFree
  · rw [step.maps]
    exact conserved.single

variable [DecidableEq Page] {page : Page} {frame : Frame}

theorem Conserved.place (conserved : Conserved l) (step : Places l after page frame) :
    Conserved after := by
  -- The page placed is the only one to map the frame.
  have only : ∀ other, l.maps other ≠ some frame := fun other mapped =>
    (conserved.exclusive other frame mapped).1 step.isFree
  refine ⟨fun other => ?_, fun other isFree => ?_, fun p other mapped => ?_, ?_⟩
  · rw [step.free, step.held, step.maps]
    by_cases same : other = frame
    · exact .inr (.inr ⟨page, by rw [Function.update_self, same]⟩)
    · rcases conserved.covered other with free | held | ⟨p, mapped⟩
      · exact .inl ⟨free, same⟩
      · exact .inr (.inl held)
      · exact .inr (.inr ⟨p, update_empty step.empty mapped _⟩)
  · rw [step.held]
    exact conserved.apart other ((step.free other).mp isFree).1
  · rw [step.maps] at mapped
    rw [step.free, step.held]
    rcases update_some.mp mapped with ⟨_, new⟩ | ⟨_, old⟩
    · cases new
      exact ⟨fun free => free.2 rfl, conserved.apart frame step.isFree⟩
    · obtain ⟨notFree, notHeld⟩ := conserved.exclusive p other old
      exact ⟨fun free => notFree free.1, notHeld⟩
  · rw [step.maps]
    refine update_apart conserved.single fun other new p _ => ?_
    cases new
    exact only p

theorem Conserved.release (conserved : Conserved l) (step : Releases l after page frame) :
    Conserved after := by
  have elsewhere {p : Page} {other : Frame} (mapped : after.maps p = some other) :
      p ≠ page ∧ l.maps p = some other := by
    rw [step.maps] at mapped
    exact update_none_some.mp mapped
  refine ⟨fun other => ?_, fun other isFree => ?_, fun p other mapped => ?_, ?_⟩
  · rw [step.free, step.held]
    rcases conserved.covered other with free | held | ⟨p, mapped⟩
    · exact .inl (.inl free)
    · exact .inr (.inl held)
    · by_cases own : p = page
      · rw [own, step.full] at mapped
        exact .inl (.inr (Option.some.inj mapped).symm)
      · exact .inr (.inr ⟨p, by rw [step.maps, Function.update_of_ne own, mapped]⟩)
  · rw [step.held]
    rcases (step.free other).mp isFree with free | rfl
    · exact conserved.apart other free
    · exact (conserved.exclusive page other step.full).2
  · obtain ⟨apart, before⟩ := elsewhere mapped
    obtain ⟨notFree, notHeld⟩ := conserved.exclusive p other before
    rw [step.free, step.held]
    refine ⟨?_, notHeld⟩
    rintro (free | rfl)
    · exact notFree free
    · exact apart (conserved.single p page other before step.full)
  · intro left right other atLeft atRight
    exact conserved.single left right other (elsewhere atLeft).2 (elsewhere atRight).2

/-- A frame whose only page comes to map something else, and that is given to nobody, is
lost. -/
theorem Conserved.lost (conserved : Conserved l) (full : l.maps page = some frame)
    (others : ∀ other, other ≠ page → after.maps other = l.maps other)
    (replaced : after.maps page ≠ some frame) : ∀ other, after.maps other ≠ some frame := by
  intro other mapped
  by_cases own : other = page
  · exact replaced (own ▸ mapped)
  · rw [others other own] at mapped
    exact own (conserved.single other page frame mapped full)

end Steps

end FrameLedger
