import Mathlib.Data.List.Range
import ZurichOS.LineDrawing
import ZurichOS.Transitions

set_option linter.all false

/-!
The pointer on the screen: drawing goes to the back buffer, `fb_flush` and `fb_swap_buffers` copy it
to the video memory, and the mouse interrupt moves the pointer, also in the middle of a copy.
-/

namespace ZurichOS.Compositor

abbrev cursorW : Nat := 12
abbrev cursorH : Nat := 19

def cursorBitmap : List (List Nat) :=
  [[1, 0, 0, 0, 0, 0, 0, 0, 0, 0, 0, 0],
   [1, 1, 0, 0, 0, 0, 0, 0, 0, 0, 0, 0],
   [1, 2, 1, 0, 0, 0, 0, 0, 0, 0, 0, 0],
   [1, 2, 2, 1, 0, 0, 0, 0, 0, 0, 0, 0],
   [1, 2, 2, 2, 1, 0, 0, 0, 0, 0, 0, 0],
   [1, 2, 2, 2, 2, 1, 0, 0, 0, 0, 0, 0],
   [1, 2, 2, 2, 2, 2, 1, 0, 0, 0, 0, 0],
   [1, 2, 2, 2, 2, 2, 2, 1, 0, 0, 0, 0],
   [1, 2, 2, 2, 2, 2, 2, 2, 1, 0, 0, 0],
   [1, 2, 2, 2, 2, 2, 2, 2, 2, 1, 0, 0],
   [1, 2, 2, 2, 2, 2, 2, 2, 2, 2, 1, 0],
   [1, 2, 2, 2, 2, 2, 2, 2, 2, 2, 2, 1],
   [1, 2, 2, 2, 2, 2, 2, 1, 1, 1, 1, 1],
   [1, 2, 2, 2, 1, 2, 2, 1, 0, 0, 0, 0],
   [1, 2, 2, 1, 0, 1, 2, 2, 1, 0, 0, 0],
   [1, 2, 1, 0, 0, 1, 2, 2, 1, 0, 0, 0],
   [1, 1, 0, 0, 0, 0, 1, 2, 2, 1, 0, 0],
   [1, 0, 0, 0, 0, 0, 1, 2, 2, 1, 0, 0],
   [0, 0, 0, 0, 0, 0, 0, 1, 1, 0, 0, 0]]

/-- The pixels of a buffer, by their coordinates. -/
abbrev Pixels : Type := Point → Nat

structure Dirty where
  x0 : Int
  y0 : Int
  x1 : Int
  y1 : Int
  full : Bool

def Dirty.reset : Dirty := ⟨0x7FFFFFFF, 0x7FFFFFFF, 0, 0, false⟩

def Dirty.mark (d : Dirty) (x y w h : Int) : Dirty where
  x0 := if x < d.x0 then x else d.x0
  y0 := if y < d.y0 then y else d.y0
  x1 := if d.x1 < x + w then x + w else d.x1
  y1 := if d.y1 < y + h then y + h else d.y1
  full := d.full

def Dirty.Covers (d : Dirty) (p : Point) : Prop :=
  d.full = true ∨ d.x0 ≤ p.x ∧ p.x < d.x1 ∧ d.y0 ≤ p.y ∧ p.y < d.y1

/-- The pixels that a copy still has to do, and whether nothing is dirty when it is over. -/
inductive Phase
  | idle
  | copying (todo : List Point) (resets : Bool)

structure Screen where
  width : Int
  height : Int
  back : Pixels
  vram : Pixels
  fbDirty : Bool
  dirty : Dirty
  phase : Phase
  x : Int
  y : Int
  visible : Bool
  drawn : Bool
  drawnX : Int
  drawnY : Int
  save : Int → Int → Nat

def Screen.On (s : Screen) (p : Point) : Prop :=
  0 ≤ p.x ∧ p.x < s.width ∧ 0 ≤ p.y ∧ p.y < s.height

instance (s : Screen) (p : Point) : Decidable (s.On p) := inferInstanceAs (Decidable (_ ∧ _))

/-- The pixel lies in the rectangle of a pointer at the position. -/
def Under (x y : Int) (p : Point) : Prop :=
  0 ≤ p.x - x ∧ p.x - x < cursorW ∧ 0 ≤ p.y - y ∧ p.y - y < cursorH

instance (x y : Int) (p : Point) : Decidable (Under x y p) := inferInstanceAs (Decidable (_ ∧ _))

/-- The colour that a pointer at the position gives to a pixel. -/
def cursorPixel (x y : Int) (p : Point) : Option Nat :=
  if Under x y p then
    let pixel := (cursorBitmap.getD (p.y - y).toNat []).getD (p.x - x).toNat 0
    if pixel = 1 then some 0xFF000000 else if pixel = 2 then some 0xFFFFFFFF else none
  else none

def saveUnder (s : Screen) (x y : Int) : Screen :=
  { s with
    save := fun dx dy =>
      if 0 ≤ y + dy ∧ y + dy < s.height then
        if 0 ≤ x + dx ∧ x + dx < s.width then s.back ⟨x + dx, y + dy⟩ else 0
      else s.save dx dy }

def restoreUnder (s : Screen) (x y : Int) : Screen :=
  { s with
    vram := fun p => if s.On p ∧ Under x y p then s.save (p.x - x) (p.y - y) else s.vram p }

def drawCursor (s : Screen) (x y : Int) : Screen :=
  { s with vram := fun p => if s.On p then (cursorPixel x y p).getD (s.vram p) else s.vram p }

/-- The pointer is drawn where it is now. -/
def placeCursor (s : Screen) : Screen :=
  { drawCursor (saveUnder s s.x s.y) s.x s.y with drawnX := s.x, drawnY := s.y, drawn := true }

def vramPre (s : Screen) : Screen :=
  if s.drawn then { restoreUnder s s.drawnX s.drawnY with drawn := false } else s

def vramPost (s : Screen) : Screen := if s.visible then placeCursor s else s

/-- What a packet of the mouse does to the screen. -/
def moveTo (s : Screen) (x y : Int) : Screen :=
  let moved := { s with x := x, y := y }
  if s.visible then
    placeCursor (if s.drawn then restoreUnder moved s.drawnX s.drawnY else moved)
  else moved

def showCursor (s : Screen) : Screen :=
  let shown := { s with visible := true }
  if s.drawn then shown else placeCursor shown

def hideCursor (s : Screen) : Screen := { vramPre s with visible := false }

def region (x0 y0 x1 y1 : Int) : List Point :=
  (List.range (y1 - y0).toNat).flatMap fun (j : Nat) =>
    (List.range (x1 - x0).toNat).map fun (i : Nat) => ⟨x0 + i, y0 + j⟩

def swapBuffers (s : Screen) (resets : Bool) : Screen :=
  { vramPre s with phase := .copying (region 0 0 s.width s.height) resets }

def fbFlush (s : Screen) : Screen :=
  if s.fbDirty then
    let s := { s with fbDirty := false }
    let d := s.dirty
    if d.full then swapBuffers s true
    else if d.x1 ≤ d.x0 ∨ d.y1 ≤ d.y0 then { s with dirty := .reset }
    else
      let x1 := if s.width < d.x1 then s.width else d.x1
      let y1 := if s.height < d.y1 then s.height else d.y1
      let x0 := if d.x0 < 0 then 0 else d.x0
      let y0 := if d.y0 < 0 then 0 else d.y0
      { vramPre s with phase := .copying (region x0 y0 x1 y1) true }
  else s

/-- The next pixel of a copy, or its end. -/
def copyNext (s : Screen) : Screen :=
  match s.phase with
  | .idle => s
  | .copying [] resets =>
      let s := { vramPost s with phase := .idle }
      if resets then { s with dirty := .reset } else s
  | .copying (p :: todo) resets =>
      { s with vram := Function.update s.vram p (s.back p), phase := .copying todo resets }

inductive Event
  | paint (x y w h : Int) (colors : Pixels)
  | clear (color : Nat)
  | request
  | flush
  | swap
  | copy
  | move (x y : Int)
  | reveal
  | hide

/-- What the kernel itself does with the screen. -/
def work (s : Screen) : Event → Screen
  | .paint x y w h colors =>
      { s with
        back := fun p => if x ≤ p.x ∧ p.x < x + w ∧ y ≤ p.y ∧ p.y < y + h then colors p
          else s.back p
        dirty := s.dirty.mark x y w h }
  | .clear color => { s with back := fun _ => color, dirty := { s.dirty with full := true } }
  | .request => { s with fbDirty := true }
  | .flush => fbFlush s
  | .swap => swapBuffers s false
  | .reveal => showCursor s
  | .hide => hideCursor s
  | _ => s

/-- The kernel waits for the end of a copy; the mouse does not. -/
def step (s : Screen) : Event → Screen
  | .copy => copyNext s
  | .move x y => moveTo s x y
  | event =>
      match s.phase with
      | .copying _ _ => s
      | .idle => work s event

/-- The picture: the back buffer with the pointer on top. -/
def picture (s : Screen) (p : Point) : Nat :=
  if s.visible then (cursorPixel s.x s.y p).getD (s.back p) else s.back p

/-- A pixel that is not stale shows the back buffer or the pointer, and what is saved of it is what
the back buffer has. -/
structure Layered (s : Screen) (stale : Point → Prop) : Prop where
  shown : ∀ p, s.On p → ¬stale p →
    s.vram p = s.back p ∨ s.drawn = true ∧ cursorPixel s.x s.y p = some (s.vram p)
  saved : s.drawn = true → ∀ p, s.On p → Under s.x s.y p → ¬stale p →
    s.save (p.x - s.x) (p.y - s.y) = s.back p
  placed : s.drawn = true → s.drawnX = s.x ∧ s.drawnY = s.y
  seen : s.drawn = true → s.visible = true

/-- Between the copies the pointer is drawn when it is visible. -/
structure Settled (s : Screen) (stale : Point → Prop) : Prop extends Layered s stale where
  settled : ∀ p, s.On p → ¬stale p → s.vram p = picture s p
  drawn : s.drawn = s.visible

/-- During a copy what is saved is right everywhere. -/
structure Copying (s : Screen) (todo : List Point) : Prop where
  layered : Layered s (· ∈ todo)
  saved : s.drawn = true → ∀ p, s.On p → Under s.x s.y p →
    s.save (p.x - s.x) (p.y - s.y) = s.back p

def Sound (s : Screen) : Prop :=
  match s.phase with
  | .idle => Settled s s.dirty.Covers
  | .copying todo _ => Copying s todo

variable {s : Screen} {stale : Point → Prop} {p : Point}

theorem mem_region {x0 y0 x1 y1 : Int} :
    p ∈ region x0 y0 x1 y1 ↔ x0 ≤ p.x ∧ p.x < x1 ∧ y0 ≤ p.y ∧ p.y < y1 := by
  rw [region, List.mem_flatMap]
  constructor
  · rintro ⟨j, row, member⟩
    obtain ⟨i, column, rfl⟩ := List.mem_map.mp member
    have tall := List.mem_range.mp row
    have wide := List.mem_range.mp column
    dsimp only
    omega
  · intro inside
    refine ⟨(p.y - y0).toNat, List.mem_range.mpr (by omega), List.mem_map.mpr
      ⟨(p.x - x0).toNat, List.mem_range.mpr (by omega), ?_⟩⟩
    cases p
    simp only [Point.mk.injEq]
    dsimp only at inside
    omega

theorem cursorPixel_outside {x y : Int} (outside : ¬Under x y p) : cursorPixel x y p = none :=
  if_neg outside

theorem saveUnder_on (on : s.On p) (x y : Int) :
    (saveUnder s x y).save (p.x - x) (p.y - y) = s.back p := by
  obtain ⟨left, right, top, bottom⟩ := on
  have isX : x + (p.x - x) = p.x := by omega
  have isY : y + (p.y - y) = p.y := by omega
  simp only [saveUnder, isX, isY]
  rw [if_pos ⟨top, bottom⟩, if_pos ⟨left, right⟩]

/-- Without the pointer a pixel that is not stale shows the back buffer. -/
theorem Layered.restored (layered : Layered s stale) (on : s.On p) (fresh : ¬stale p) :
    (if s.drawn = true then restoreUnder s s.drawnX s.drawnY else s).vram p = s.back p := by
  have shown := layered.shown p on fresh
  by_cases drawn : s.drawn = true
  · obtain ⟨isX, isY⟩ := layered.placed drawn
    rw [if_pos drawn, isX, isY]
    by_cases under : Under s.x s.y p
    · exact (if_pos ⟨on, under⟩).trans (layered.saved drawn p on under fresh)
    · refine (if_neg fun both => under both.2).trans ?_
      rcases shown with same | ⟨_, pixel⟩
      · exact same
      · rw [cursorPixel_outside under] at pixel
        exact absurd pixel (Option.some_ne_none _).symm
  · rw [if_neg drawn]
    exact shown.resolve_right fun no => drawn no.1

/-- Where each pixel shows the back buffer, or the pointer where it is now, drawing the pointer
gives the picture. -/
theorem place_settled
    (bare : ∀ p, s.On p → ¬stale p → s.vram p = s.back p ∨ cursorPixel s.x s.y p = some (s.vram p))
    (visible : s.visible = true) :
    Settled (placeCursor s) stale ∧ ∀ p, s.On p →
      (placeCursor s).save (p.x - s.x) (p.y - s.y) = s.back p := by
  have saved : ∀ p, s.On p → (placeCursor s).save (p.x - s.x) (p.y - s.y) = s.back p :=
    fun p on => saveUnder_on on s.x s.y
  have settled : ∀ p, s.On p → ¬stale p →
      (placeCursor s).vram p = (cursorPixel s.x s.y p).getD (s.back p) := by
    intro p on fresh
    refine (if_pos on).trans ?_
    change (cursorPixel s.x s.y p).getD (s.vram p) = _
    cases isPixel : cursorPixel s.x s.y p with
    | some color => rfl
    | none =>
        refine (bare p on fresh).resolve_right fun pixel => ?_
        rw [isPixel] at pixel
        exact absurd pixel (Option.some_ne_none _).symm
  have isPicture : ∀ p, picture (placeCursor s) p = (cursorPixel s.x s.y p).getD (s.back p) :=
    fun p => if_pos visible
  refine ⟨⟨⟨fun p on fresh => ?_, fun _ p on _ _ => saved p on, fun _ => ⟨rfl, rfl⟩,
    fun _ => visible⟩, fun p on fresh => ?_, visible.symm⟩, saved⟩
  · rw [settled p on fresh]
    cases isPixel : cursorPixel s.x s.y p with
    | some color => exact .inr ⟨rfl, isPixel⟩
    | none => exact .inl rfl
  · rw [settled p on fresh, isPicture]

theorem Settled.mono {other : Point → Prop} (settled : Settled s stale)
    (fewer : ∀ p, s.On p → ¬other p → ¬stale p) : Settled s other where
  shown p on fresh := settled.shown p on (fewer p on fresh)
  saved drawn p on under fresh := settled.saved drawn p on under (fewer p on fresh)
  placed := settled.placed
  seen := settled.seen
  settled p on fresh := settled.settled p on (fewer p on fresh)
  drawn := settled.drawn

/-- When the pointer is not drawn and not visible, the picture is the back buffer. -/
theorem hidden_settled (bare : ∀ p, s.On p → ¬stale p → s.vram p = s.back p)
    (undrawn : s.drawn = false) (invisible : s.visible = false) : Settled s stale := by
  refine ⟨⟨fun p on fresh => .inl (bare p on fresh), fun drawn => ?_, fun drawn => ?_,
    fun drawn => ?_⟩, fun p on fresh => ?_, undrawn.trans invisible.symm⟩
  · exact absurd (undrawn.symm.trans drawn) Bool.false_ne_true
  · exact absurd (undrawn.symm.trans drawn) Bool.false_ne_true
  · exact absurd (undrawn.symm.trans drawn) Bool.false_ne_true
  · rw [picture, invisible]
    exact bare p on fresh

theorem pre_bare (layered : Layered s stale) :
    (vramPre s).drawn = false ∧
      ∀ p, s.On p → ¬stale p → (vramPre s).vram p = s.back p := by
  rw [vramPre]
  by_cases drawn : s.drawn = true
  · rw [if_pos drawn]
    refine ⟨rfl, fun p on fresh => ?_⟩
    have bare := layered.restored on fresh
    rwa [if_pos drawn] at bare
  · rw [if_neg drawn]
    refine ⟨Bool.eq_false_iff.mpr drawn, fun p on fresh => ?_⟩
    have bare := layered.restored on fresh
    rwa [if_neg drawn] at bare

theorem pre_same (s : Screen) :
    (vramPre s).back = s.back ∧ (vramPre s).width = s.width ∧ (vramPre s).height = s.height ∧
      (vramPre s).visible = s.visible ∧ (vramPre s).dirty = s.dirty := by
  rw [vramPre]
  split <;> exact ⟨rfl, rfl, rfl, rfl, rfl⟩

/-- A copy starts with all pixels that are stale before it. -/
theorem copy_starts (layered : Layered s stale) {todo : List Point} (resets : Bool)
    (all : ∀ p, s.On p → stale p → p ∈ todo) :
    Sound { vramPre s with phase := .copying todo resets } := by
  obtain ⟨undrawn, bare⟩ := pre_bare layered
  obtain ⟨back, width, height, _, _⟩ := pre_same s
  have isOn (p : Point) : (vramPre s).On p → s.On p := by
    rw [Screen.On, width, height]
    exact id
  have noDraw : ¬(vramPre s).drawn = true := by rw [undrawn]; exact Bool.false_ne_true
  refine ⟨⟨fun p on fresh => .inl ?_, fun drawn => absurd drawn noDraw,
    fun drawn => absurd drawn noDraw, fun drawn => absurd drawn noDraw⟩,
    fun drawn => absurd drawn noDraw⟩
  have on' := isOn p on
  exact (bare p on' fun old => fresh (all p on' old)).trans (congrFun back p).symm

theorem moveTo_same (s : Screen) (x y : Int) :
    (moveTo s x y).phase = s.phase ∧ (moveTo s x y).dirty = s.dirty := by
  rw [moveTo]
  split
  · split <;> exact ⟨rfl, rfl⟩
  · exact ⟨rfl, rfl⟩

/-- The mouse takes the pointer from where it is to where it goes. -/
theorem move_visible (layered : Layered s stale) (visible : s.visible = true) (x y : Int) :
    Settled (moveTo s x y) stale ∧ (∀ p, s.On p →
      (moveTo s x y).save (p.x - x) (p.y - y) = s.back p) ∧
      (moveTo s x y).back = s.back ∧ (moveTo s x y).x = x ∧ (moveTo s x y).y = y := by
  generalize isBare : (if s.drawn = true then restoreUnder { s with x := x, y := y } s.drawnX s.drawnY
    else { s with x := x, y := y }) = bare
  have isMoved : moveTo s x y = placeCursor bare := by
    rw [moveTo, if_pos visible, ← isBare]
  have isVram : bare.vram = (if s.drawn = true then restoreUnder s s.drawnX s.drawnY else s).vram := by
    rw [← isBare]
    by_cases drawn : s.drawn = true
    · rw [if_pos drawn, if_pos drawn]
      rfl
    · rw [if_neg drawn, if_neg drawn]
  have same : bare.back = s.back ∧ bare.width = s.width ∧ bare.height = s.height ∧
      bare.visible = s.visible ∧ bare.x = x ∧ bare.y = y := by
    rw [← isBare]
    split <;> exact ⟨rfl, rfl, rfl, rfl, rfl, rfl⟩
  obtain ⟨back, width, height, seen, isX, isY⟩ := same
  have isOn (p : Point) : bare.On p ↔ s.On p := by
    rw [Screen.On, Screen.On, width, height]
  obtain ⟨settled, saved⟩ := @place_settled bare stale (fun p on fresh => .inl (by
    rw [isVram, back]
    exact layered.restored ((isOn p).mp on) fresh)) (seen.trans visible)
  rw [isX, isY] at saved
  rw [isMoved]
  refine ⟨settled, fun p on => ?_, back, isX, isY⟩
  rw [saved p ((isOn p).mpr on), back]

theorem move_hidden (invisible : s.visible = false) (x y : Int) :
    moveTo s x y = { s with x := x, y := y } := by
  rw [moveTo, if_neg (by rw [invisible]; exact Bool.false_ne_true)]

theorem Sound.move (sound : Sound s) (x y : Int) : Sound (moveTo s x y) := by
  obtain ⟨phase, dirty⟩ := moveTo_same s x y
  rw [Sound, phase, dirty]
  rw [Sound] at sound
  cases isPhase : s.phase with
  | idle =>
      rw [isPhase] at sound
      have sound : Settled s s.dirty.Covers := sound
      cases visible : s.visible with
      | true => exact (move_visible sound.toLayered visible x y).1
      | false =>
          have undrawn : s.drawn = false := sound.drawn.trans visible
          rw [move_hidden visible]
          refine hidden_settled (fun p on fresh => ?_) undrawn visible
          exact (sound.shown p on fresh).resolve_right fun both => by
            rw [undrawn] at both
            exact Bool.false_ne_true both.1
  | copying todo resets =>
      rw [isPhase] at sound
      have sound : Copying s todo := sound
      cases visible : s.visible with
      | true =>
          obtain ⟨settled, saved, back, isX, isY⟩ := move_visible sound.layered visible x y
          refine ⟨settled.toLayered, fun _ p on _ => ?_⟩
          have same : (moveTo s x y).On p → s.On p := by
            rw [moveTo, if_pos visible]
            split <;> exact id
          rw [isX, isY, saved p (same on), back]
      | false =>
          have undrawn : s.drawn = false := by
            cases drawn : s.drawn with
            | false => rfl
            | true => exact absurd (sound.layered.seen drawn) (by rw [visible]; decide)
          have noDraw : ¬s.drawn = true := by rw [undrawn]; exact Bool.false_ne_true
          rw [move_hidden visible]
          refine ⟨⟨fun p on fresh => .inl ?_, fun drawn => absurd drawn noDraw,
            fun drawn => absurd drawn noDraw, fun drawn => absurd drawn noDraw⟩,
            fun drawn => absurd drawn noDraw⟩
          exact (sound.layered.shown p on fresh).resolve_right fun both => noDraw both.1

/-- When the copy is over, every pixel on the screen shows the picture. -/
theorem Copying.ends (sound : Copying s []) : Settled (vramPost s) fun _ => False := by
  have shown := sound.layered.shown
  rw [vramPost]
  cases visible : s.visible with
  | true =>
      rw [if_pos rfl]
      refine (place_settled (fun p on _ => ?_) visible).1
      exact (shown p on List.not_mem_nil).imp_right (·.2)
  | false =>
      have undrawn : ¬s.drawn = true := fun drawn => by
        have seen := sound.layered.seen drawn
        rw [visible] at seen
        exact Bool.false_ne_true seen
      rw [if_neg Bool.false_ne_true]
      refine hidden_settled (fun p on _ => ?_) (Bool.eq_false_iff.mpr undrawn) visible
      exact (shown p on List.not_mem_nil).resolve_right fun both => undrawn both.1

theorem reset_covers (p : Point) : ¬Dirty.reset.Covers p := by
  rintro (full | ⟨left, right, _⟩)
  · exact absurd full (by decide)
  · change 0x7FFFFFFF ≤ p.x at left
    change p.x < 0 at right
    omega

theorem Sound.copy (sound : Sound s) : Sound (copyNext s) := by
  rw [copyNext]
  cases isPhase : s.phase with
  | idle => exact sound
  | copying todo resets =>
      rw [Sound, isPhase] at sound
      have sound : Copying s todo := sound
      cases todo with
      | nil =>
          have done := sound.ends
          cases resets with
          | true =>
              have all := @Settled.mono _ _ Dirty.reset.Covers done fun _ _ _ => id
              change Settled { vramPost s with phase := .idle, dirty := .reset } Dirty.reset.Covers
              exact ⟨⟨all.shown, all.saved, all.placed, all.seen⟩, all.settled, all.drawn⟩
          | false =>
              have all := @Settled.mono _ _ (vramPost s).dirty.Covers done fun _ _ _ => id
              change Settled { vramPost s with phase := .idle } (vramPost s).dirty.Covers
              exact ⟨⟨all.shown, all.saved, all.placed, all.seen⟩, all.settled, all.drawn⟩
      | cons first todo =>
          refine ⟨⟨fun p on fresh => ?_, fun drawn p on under _ => sound.saved drawn p on under,
            sound.layered.placed, sound.layered.seen⟩, sound.saved⟩
          by_cases now : p = first
          · subst now
            exact .inl (Function.update_self ..)
          · have older : p ∉ first :: todo := fun member =>
              (List.mem_cons.mp member).elim now fresh
            have same : Function.update s.vram first (s.back first) p = s.vram p :=
              Function.update_of_ne now ..
            have shown := sound.layered.shown p on older
            change Function.update s.vram first (s.back first) p = s.back p ∨ s.drawn = true ∧
              cursorPixel s.x s.y p = some (Function.update s.vram first (s.back first) p)
            rwa [same]

theorem Sound.swap (settled : Settled s stale) (resets : Bool) : Sound (swapBuffers s resets) :=
  copy_starts settled.toLayered resets fun _ on _ => mem_region.mpr
    ⟨on.1, on.2.1, on.2.2.1, on.2.2.2⟩

/-- Nothing that is looked at changes with the flag. -/
theorem Settled.flag (settled : Settled s stale) (flag : Bool) :
    Settled { s with fbDirty := flag } stale :=
  ⟨⟨settled.shown, settled.saved, settled.placed, settled.seen⟩, settled.settled, settled.drawn⟩

theorem Sound.flush (idle : s.phase = .idle) (settled : Settled s s.dirty.Covers) :
    Sound (fbFlush s) := by
  have sound : Sound s := by
    rw [Sound, idle]
    exact settled
  rw [fbFlush]
  split
  · have flagged := settled.flag false
    dsimp only
    split
    · exact Sound.swap flagged true
    · rename_i partly
      split
      · rename_i empty
        rw [Sound]
        dsimp only
        rw [idle]
        have resets := @Settled.mono _ _ Dirty.reset.Covers flagged fun p _ _ => by
          rintro (full | inside)
          · exact partly full
          · omega
        exact ⟨⟨resets.shown, resets.saved, resets.placed, resets.seen⟩, resets.settled,
          resets.drawn⟩
      · refine copy_starts flagged.toLayered true fun p on covered => mem_region.mpr ?_
        obtain ⟨left, right, top, bottom⟩ := on
        have inside := covered.resolve_left partly
        dsimp only at inside left right top bottom
        refine ⟨?_, ?_, ?_, ?_⟩
        all_goals
          split
          · assumption
          · omega
  · exact sound

theorem mark_covers {d : Dirty} {x y w h : Int} (fresh : ¬(d.mark x y w h).Covers p) :
    ¬d.Covers p ∧ ¬(x ≤ p.x ∧ p.x < x + w ∧ y ≤ p.y ∧ p.y < y + h) := by
  have grown : (d.mark x y w h).x0 ≤ d.x0 ∧ (d.mark x y w h).x0 ≤ x ∧
      (d.mark x y w h).y0 ≤ d.y0 ∧ (d.mark x y w h).y0 ≤ y ∧ d.x1 ≤ (d.mark x y w h).x1 ∧
      x + w ≤ (d.mark x y w h).x1 ∧ d.y1 ≤ (d.mark x y w h).y1 ∧
      y + h ≤ (d.mark x y w h).y1 := by
    simp only [Dirty.mark]
    refine ⟨?_, ?_, ?_, ?_, ?_, ?_, ?_, ?_⟩ <;> split <;> omega
  constructor
  · rintro (full | inside)
    · exact fresh (.inl full)
    · exact fresh (.inr (by omega))
  · intro inside
    exact fresh (.inr (by omega))

/-- Drawing changes only pixels that are stale afterwards. -/
theorem Settled.redraw {other : Point → Prop} (settled : Settled s stale) (back : Pixels)
    (dirty : Dirty) (fresh : ∀ p, ¬other p → ¬stale p ∧ back p = s.back p) :
    Settled { s with back := back, dirty := dirty } other := by
  refine ⟨⟨fun p on new => ?_, fun drawn p on under new => ?_, settled.placed, settled.seen⟩,
    fun p on new => ?_, settled.drawn⟩
  · obtain ⟨old, kept⟩ := fresh p new
    dsimp only
    rw [kept]
    exact settled.shown p on old
  · obtain ⟨old, kept⟩ := fresh p new
    dsimp only
    rw [kept]
    exact settled.saved drawn p on under old
  · obtain ⟨old, kept⟩ := fresh p new
    have shows := settled.settled p on old
    simp only [picture] at shows ⊢
    rw [kept]
    exact shows

theorem sound_idle (idle : s.phase = .idle) (settled : Settled s s.dirty.Covers) : Sound s := by
  rw [Sound, idle]
  exact settled

theorem Settled.show (settled : Settled s stale) : Settled (showCursor s) stale := by
  by_cases drawn : s.drawn = true
  · have visible : s.visible = true := settled.drawn.symm.trans drawn
    have same : { s with visible := true } = s := by rw [← visible]
    rw [showCursor, if_pos drawn, same]
    exact settled
  · rw [showCursor, if_neg drawn]
    refine (@place_settled { s with visible := true } stale (fun p on fresh => .inl ?_) rfl).1
    exact (settled.shown p on fresh).resolve_right fun both => drawn both.1

theorem Settled.hide (settled : Settled s stale) : Settled (hideCursor s) stale := by
  obtain ⟨undrawn, bare⟩ := pre_bare settled.toLayered
  obtain ⟨back, width, height, _, _⟩ := pre_same s
  refine hidden_settled (fun p on fresh => ?_) undrawn rfl
  have on' : s.On p := by
    have isOn : (vramPre s).On p := on
    rwa [Screen.On, width, height] at isOn
  exact (bare p on' fresh).trans (congrFun back p).symm

theorem hide_same (s : Screen) :
    (hideCursor s).phase = s.phase ∧ (hideCursor s).dirty = s.dirty := by
  rw [hideCursor, vramPre]
  split <;> exact ⟨rfl, rfl⟩

theorem show_same (s : Screen) :
    (showCursor s).phase = s.phase ∧ (showCursor s).dirty = s.dirty := by
  rw [showCursor]
  split <;> exact ⟨rfl, rfl⟩

theorem step_cases (s : Screen) (event : Event) :
    step s event = s ∨ (s.phase = .idle ∧ step s event = work s event) ∨
      step s event = copyNext s ∨ ∃ x y, step s event = moveTo s x y := by
  cases event
  case copy => exact .inr (.inr (.inl rfl))
  case move x y => exact .inr (.inr (.inr ⟨x, y, rfl⟩))
  all_goals
    cases isPhase : s.phase with
    | idle => exact .inr (.inl ⟨rfl, by simp only [step, isPhase]⟩)
    | copying todo resets => exact .inl (by simp only [step, isPhase])

theorem Sound.work (idle : s.phase = .idle) (settled : Settled s s.dirty.Covers) (event : Event) :
    Sound (work s event) := by
  cases event with
  | copy => exact sound_idle idle settled
  | move x y => exact sound_idle idle settled
  | paint x y w h colors =>
      exact sound_idle idle (settled.redraw _ _ fun p fresh =>
        ⟨(mark_covers fresh).1, if_neg (mark_covers fresh).2⟩)
  | clear color =>
      exact sound_idle idle (settled.redraw _ _ fun p fresh => absurd (Or.inl rfl) fresh)
  | request => exact sound_idle idle (settled.flag true)
  | flush => exact Sound.flush idle settled
  | swap => exact Sound.swap settled false
  | reveal =>
      obtain ⟨phase, dirty⟩ := show_same s
      exact sound_idle (phase.trans idle) (dirty ▸ settled.show)
  | hide =>
      obtain ⟨phase, dirty⟩ := hide_same s
      exact sound_idle (phase.trans idle) (dirty ▸ settled.hide)

theorem Sound.step (sound : Sound s) (event : Event) : Sound (step s event) := by
  rcases step_cases s event with same | ⟨idle, worked⟩ | copied | ⟨x, y, moved⟩
  · rw [same]
    exact sound
  · rw [worked]
    rw [Sound, idle] at sound
    exact Sound.work idle sound event
  · rw [copied]
    exact sound.copy
  · rw [moved]
    exact sound.move x y

/-- After `fb_init`: the back buffer is on the screen, and there is no pointer. -/
def fbInit (width height : Int) (pixels : Pixels) (x y : Int) : Screen where
  width := width
  height := height
  back := pixels
  vram := pixels
  fbDirty := false
  dirty := .reset
  phase := .idle
  x := x
  y := y
  visible := false
  drawn := false
  drawnX := 0
  drawnY := 0
  save := fun _ _ => 0

theorem sound_run {events : List Event} (sound : Sound s) : Sound (events.foldl step s) := by
  induction events generalizing s with
  | nil => exact sound
  | cons event rest ih => exact ih (sound.step event)

end ZurichOS.Compositor
