import Mathlib.Algebra.Order.Group.Unbundled.Abs
import Mathlib.Data.Nat.Bitwise
import ZurichOS.InterruptRing

set_option linter.all false

/-!
The mouse driver: `mouse_handler` collects the bytes of a packet, `mouse_process_packet` moves the
pointer and queues the events.
-/

namespace ZurichOS.Mouse

open InterruptRing Transitions

abbrev mouseEventQueueSize : Nat := 64

inductive EventType
  | move
  | press
  | release
  | drag
  | scroll
  | dblclick
deriving DecidableEq

structure MouseEvent where
  type : EventType
  button : UInt8
  x : Int
  y : Int
  dx : Int
  dy : Int
  buttons : UInt8
deriving DecidableEq

/-- The static variables of the driver, without the cursor on the screen. -/
structure Driver where
  x : Int
  y : Int
  buttons : UInt8
  maxX : Int
  maxY : Int
  cycle : Nat
  bytes : Nat → UInt8
  prevButtons : UInt8
  hasWheel : Bool
  packetSize : Nat
  tickCount : UInt32
  lastClickTick : UInt32
  lastClickX : Int
  lastClickY : Int

/-- The `int8_t` of a byte. -/
def signed (byte : UInt8) : Int := if byte < 128 then byte.toNat else byte.toNat - 256

/-- One coordinate after a movement. -/
def within (position limit : Int) : Int :=
  let lower := if position < 0 then 0 else position
  if limit ≤ lower then limit - 1 else lower

def event (m : Driver) (type : EventType) (button : UInt8) (dx dy : Int) (buttons : UInt8) :
    MouseEvent := ⟨type, button, m.x, m.y, dx, dy, buttons⟩

/-- The left button went down: a double click, or the start of one. -/
def click (m : Driver) (newButtons : UInt8) : Driver × List MouseEvent :=
  if m.tickCount - m.lastClickTick < 30 ∧ |m.x - m.lastClickX| < 8 ∧ |m.y - m.lastClickY| < 16 then
    ({ m with lastClickTick := 0 }, [event m .dblclick 1 0 0 newButtons])
  else
    ({ m with lastClickTick := m.tickCount, lastClickX := m.x, lastClickY := m.y }, [])

/-- One turn of the loop over the buttons. -/
def buttonEvents (dx dy : Int) (newButtons : UInt8) (m : Driver) (mask : UInt8) :
    Driver × List MouseEvent :=
  let pressed := newButtons &&& ~~~m.prevButtons
  let released := m.prevButtons &&& ~~~newButtons
  let clicked :=
    if pressed &&& mask ≠ 0 then
      let first := if mask = 1 then click m newButtons else (m, [])
      (first.1, event m .press mask dx dy newButtons :: first.2)
    else (m, [])
  (clicked.1, clicked.2 ++
    if released &&& mask ≠ 0 then [event m .release mask dx dy newButtons] else [])

def masks : List UInt8 := [1, 2, 4]

def allButtons (dx dy : Int) (newButtons : UInt8) (m : Driver) : List UInt8 → Driver × List MouseEvent
  | [] => (m, [])
  | mask :: rest =>
      let first := buttonEvents dx dy newButtons m mask
      let later := allButtons dx dy newButtons first.1 rest
      (later.1, first.2 ++ later.2)

def motionEvents (m : Driver) (dx dy scroll : Int) (newButtons : UInt8) : List MouseEvent :=
  (if scroll ≠ 0 then [event m .scroll 0 0 scroll newButtons] else []) ++
    if dx = 0 ∧ dy = 0 then []
    else if newButtons ≠ 0 then [event m .drag newButtons dx dy newButtons]
    else [event m .move 0 dx dy 0]

def mouseProcessPacket (m : Driver) : Driver × List MouseEvent :=
  let dx := signed (m.bytes 1)
  let dy := -signed (m.bytes 2)
  let newButtons := m.bytes 0 &&& 7
  let scroll := if m.hasWheel then signed (m.bytes 3) else 0
  let m := { m with x := within (m.x + dx) m.maxX, y := within (m.y + dy) m.maxY }
  let clicked := allButtons dx dy newButtons m masks
  ({ clicked.1 with buttons := newButtons, prevButtons := newButtons },
    clicked.2 ++ motionEvents clicked.1 dx dy scroll newButtons)

def keep (m : Driver) (data : UInt8) (next : Nat) : Driver :=
  { m with bytes := Function.update m.bytes m.cycle data, cycle := next }

def mouseByte (m : Driver) (data : UInt8) : Driver × List MouseEvent :=
  if m.cycle = 0 then
    if data &&& 8 = 0 then (m, []) else (keep m data 1, [])
  else if m.cycle = 1 then (keep m data 2, [])
  else if m.cycle = 2 then
    if m.packetSize = 4 then (keep m data 3, []) else mouseProcessPacket (keep m data 0)
  else if m.cycle = 3 then mouseProcessPacket (keep m data 0)
  else (m, [])

/-- The timer ticks, or the mouse interrupt finds the ports like this. -/
inductive Input
  | tick
  | irq (status data : UInt8)

def react (m : Driver) : Input → Driver × List MouseEvent
  | .tick => ({ m with tickCount := m.tickCount + 1 }, [])
  | .irq status data =>
      if status &&& 1 = 0 ∨ status &&& 0x20 = 0 then (m, []) else mouseByte m data

/-- The driver after `mouse_init` with the number that the mouse gave, and the size of the screen. -/
def mouseInit (mouseId : UInt8) (width height : Int) : Driver where
  x := width / 2
  y := height / 2
  buttons := 0
  maxX := width
  maxY := height
  cycle := 0
  bytes := fun _ => 0
  prevButtons := 0
  hasWheel := mouseId = 3
  packetSize := if mouseId = 3 then 4 else 3
  tickCount := 0
  lastClickTick := 0
  lastClickX := 0
  lastClickY := 0

def eventParts : List (FieldCopy MouseEvent) :=
  [fun copy entry => { copy with type := entry.type },
   fun copy entry => { copy with button := entry.button },
   fun copy entry => { copy with x := entry.x },
   fun copy entry => { copy with y := entry.y },
   fun copy entry => { copy with dx := entry.dx },
   fun copy entry => { copy with dy := entry.dy },
   fun copy entry => { copy with buttons := entry.buttons }]

def noEvent : MouseEvent := ⟨.move, 0, 0, 0, 0, 0, 0⟩

abbrev step (d : Device Driver MouseEvent) (input : Step Input) : Device Driver MouseEvent :=
  d.step mouseEventQueueSize eventParts noEvent react input

def MouseEvent.OnScreen (width height : Int) (e : MouseEvent) : Prop :=
  0 ≤ e.x ∧ e.x < width ∧ 0 ≤ e.y ∧ e.y < height

structure Inside (width height : Int) (m : Driver) : Prop where
  buttons : m.buttons = m.prevButtons
  maxX : m.maxX = width
  maxY : m.maxY = height
  left : 0 ≤ m.x
  right : m.x < width
  top : 0 ≤ m.y
  bottom : m.y < height

def EventType.transition : EventType → Option Bool
  | .press => some true
  | .release => some false
  | _ => none

/-- The presses and releases of a button among the events. -/
def transitions (mask : UInt8) (events : List MouseEvent) : List Bool :=
  (events.filter (·.button == mask)).filterMap (·.type.transition)

/-- Whether the button is down after it went down and up in turn. -/
def follow : Bool → List Bool → Option Bool
  | down, [] => some down
  | down, next :: rest => if next = !down then follow next rest else none

def down (mask buttons : UInt8) : Bool := buttons &&& mask ≠ 0

/-- The turns of the loop leave everything alone but the last click. -/
structure Clicked (m after : Driver) : Prop where
  x : after.x = m.x
  y : after.y = m.y
  maxX : after.maxX = m.maxX
  maxY : after.maxY = m.maxY
  prevButtons : after.prevButtons = m.prevButtons
  cycle : after.cycle = m.cycle
  hasWheel : after.hasWheel = m.hasWheel
  packetSize : after.packetSize = m.packetSize

variable {width height : Int} {m : Driver}

theorem within_bounds {limit : Int} (some : 0 < limit) (position : Int) :
    0 ≤ within position limit ∧ within position limit < limit := by
  simp only [within]
  split <;> split <;> omega

theorem follow_append (held : Bool) (first later : List Bool) :
    follow held (first ++ later) = (follow held first).bind (follow · later) := by
  induction first generalizing held with
  | nil => rfl
  | cons next rest ih =>
      rw [List.cons_append, follow, follow]
      split
      · exact ih next
      · rfl

theorem transitions_append (mask : UInt8) (events later : List MouseEvent) :
    transitions mask (events ++ later) = transitions mask events ++ transitions mask later := by
  rw [transitions, List.filter_append, List.filterMap_append, transitions, transitions]

theorem transitions_other {events : List MouseEvent}
    (others : ∀ e ∈ events, e.type.transition = none) (mask : UInt8) :
    transitions mask events = [] :=
  List.filterMap_eq_nil_iff.mpr fun e member => others e (List.mem_of_mem_filter member)

theorem and_mask {mask : UInt8} (isMask : mask ∈ masks) :
    ∃ i < 8, ∀ buttons : UInt8, buttons &&& mask ≠ 0 ↔ buttons.toNat.testBit i := by
  have single : ∃ i < 8, mask.toNat = 2 ^ i := by
    simp only [masks, List.mem_cons, List.not_mem_nil, or_false] at isMask
    rcases isMask with rfl | rfl | rfl
    · exact ⟨0, by decide, rfl⟩
    · exact ⟨1, by decide, rfl⟩
    · exact ⟨2, by decide, rfl⟩
  obtain ⟨i, small, isPower⟩ := single
  refine ⟨i, small, fun buttons => ?_⟩
  have value : (buttons &&& mask).toNat = (buttons.toNat.testBit i).toNat * 2 ^ i := by
    rw [UInt8.toNat_and, isPower, Nat.and_two_pow]
  rw [Ne, ← UInt8.toNat_inj, value]
  cases buttons.toNat.testBit i with
  | false => simp
  | true => simp

/-- A button has changed when it is set now and was not before. -/
theorem changed_iff {mask : UInt8} (isMask : mask ∈ masks) (now before : UInt8) :
    (now &&& ~~~before) &&& mask ≠ 0 ↔ down mask now = true ∧ down mask before = false := by
  obtain ⟨i, small, bit⟩ := and_mask isMask
  have small' : before.toNat < 2 ^ 8 := before.toNat_lt
  have isNot : (~~~before).toNat = 2 ^ 8 - (before.toNat + 1) := by
    rw [UInt8.toNat_not]
    change 255 - _ = 256 - _
    omega
  rw [bit, UInt8.toNat_and, Nat.testBit_and, isNot, Nat.testBit_two_pow_sub_succ small']
  simp only [down, bit, small, decide_true, Bool.true_and, Bool.and_eq_true, Bool.not_eq_true',
    decide_eq_true_eq, decide_eq_false_iff_not, Bool.not_eq_true]

theorem click_clicked (m : Driver) (newButtons : UInt8) : Clicked m (click m newButtons).1 := by
  rw [click]
  split
  · exact ⟨rfl, rfl, rfl, rfl, rfl, rfl, rfl, rfl⟩
  · exact ⟨rfl, rfl, rfl, rfl, rfl, rfl, rfl, rfl⟩

theorem click_events {newButtons : UInt8} {e : MouseEvent} (member : e ∈ (click m newButtons).2) :
    e = event m .dblclick 1 0 0 newButtons := by
  rw [click] at member
  split at member
  · exact List.mem_singleton.mp member
  · exact absurd member List.not_mem_nil

theorem clicked_refl (m : Driver) : Clicked m m := ⟨rfl, rfl, rfl, rfl, rfl, rfl, rfl, rfl⟩

theorem Clicked.trans {next last : Driver} (first : Clicked m next) (later : Clicked next last) :
    Clicked m last :=
  ⟨later.x.trans first.x, later.y.trans first.y, later.maxX.trans first.maxX,
    later.maxY.trans first.maxY, later.prevButtons.trans first.prevButtons,
    later.cycle.trans first.cycle, later.hasWheel.trans first.hasWheel,
    later.packetSize.trans first.packetSize⟩

theorem buttonEvents_clicked (dx dy : Int) (newButtons mask : UInt8) (m : Driver) :
    Clicked m (buttonEvents dx dy newButtons m mask).1 := by
  simp only [buttonEvents]
  split
  · split
    · exact click_clicked m newButtons
    · exact clicked_refl m
  · exact clicked_refl m

/-- The events of a turn are at the pointer, and say what the button did. -/
theorem buttonEvents_events (dx dy : Int) (newButtons mask : UInt8) (m : Driver) :
    (∀ e ∈ (buttonEvents dx dy newButtons m mask).2, e.x = m.x ∧ e.y = m.y) ∧
      (∀ other, other ≠ mask → transitions other (buttonEvents dx dy newButtons m mask).2 = []) ∧
      transitions mask (buttonEvents dx dy newButtons m mask).2 =
        (if newButtons &&& ~~~m.prevButtons &&& mask ≠ 0 then [true] else []) ++
          if m.prevButtons &&& ~~~newButtons &&& mask ≠ 0 then [false] else [] := by
  have double (other : UInt8) : transitions other
      (if mask = 1 then click m newButtons else (m, [])).2 = [] := by
    refine transitions_other (fun e member => ?_) other
    split at member
    · rw [click_events member]
      rfl
    · exact absurd member List.not_mem_nil
  have place : ∀ e ∈ (if mask = 1 then click m newButtons else (m, [])).2, e.x = m.x ∧ e.y = m.y := by
    intro e member
    split at member
    · rw [click_events member]
      exact ⟨rfl, rfl⟩
    · exact absurd member List.not_mem_nil
  have one (type : EventType) (other : UInt8) :
      transitions other [event m type mask dx dy newButtons] =
        if other = mask then type.transition.toList else [] := by
    by_cases same : other = mask
    · subst same
      cases type <;> simp [transitions, event, EventType.transition]
    · simp [transitions, event, same, Ne.symm same]
  have pressing (other : UInt8) : transitions other (event m .press mask dx dy newButtons ::
      (if mask = 1 then click m newButtons else (m, [])).2) =
        if other = mask then [true] else [] := by
    have split' := transitions_append other [event m .press mask dx dy newButtons]
      (if mask = 1 then click m newButtons else (m, [])).2
    rw [double, one, List.append_nil] at split'
    exact split'
  simp only [buttonEvents]
  refine ⟨fun e member => ?_, fun other differs => ?_, ?_⟩
  · rcases List.mem_append.mp member with member | member
    · split at member
      · rcases List.mem_cons.mp member with rfl | member
        · exact ⟨rfl, rfl⟩
        · exact place e member
      · exact absurd member List.not_mem_nil
    · split at member
      · rw [List.mem_singleton.mp member]
        exact ⟨rfl, rfl⟩
      · exact absurd member List.not_mem_nil
  · rw [transitions_append]
    have first : transitions other (if newButtons &&& ~~~m.prevButtons &&& mask ≠ 0 then
        ((if mask = 1 then click m newButtons else (m, [])).1,
          event m .press mask dx dy newButtons ::
            (if mask = 1 then click m newButtons else (m, [])).2)
        else (m, [])).2 = [] := by
      by_cases pressed : newButtons &&& ~~~m.prevButtons &&& mask ≠ 0
      · rw [if_pos pressed, pressing, if_neg differs]
      · rw [if_neg pressed]
        rfl
    rw [first, List.nil_append]
    by_cases released : m.prevButtons &&& ~~~newButtons &&& mask ≠ 0
    · rw [if_pos released, one, if_neg differs]
    · rw [if_neg released]
      rfl
  · rw [transitions_append]
    congr 1
    · by_cases pressed : newButtons &&& ~~~m.prevButtons &&& mask ≠ 0
      · rw [if_pos pressed, if_pos pressed, pressing, if_pos rfl]
      · rw [if_neg pressed, if_neg pressed]
        rfl
    · by_cases released : m.prevButtons &&& ~~~newButtons &&& mask ≠ 0
      · rw [if_pos released, if_pos released, one, if_pos rfl]
        rfl
      · rw [if_neg released, if_neg released]
        rfl

theorem allButtons_clicked (dx dy : Int) (newButtons : UInt8) (m : Driver) (list : List UInt8) :
    Clicked m (allButtons dx dy newButtons m list).1 := by
  induction list generalizing m with
  | nil => exact clicked_refl m
  | cons mask rest ih => exact (buttonEvents_clicked dx dy newButtons mask m).trans (ih _)

theorem allButtons_place (dx dy : Int) (newButtons : UInt8) (m : Driver) (list : List UInt8) :
    ∀ e ∈ (allButtons dx dy newButtons m list).2, e.x = m.x ∧ e.y = m.y := by
  induction list generalizing m with
  | nil => exact fun e member => absurd member List.not_mem_nil
  | cons mask rest ih =>
      intro e member
      rcases List.mem_append.mp member with member | member
      · exact (buttonEvents_events dx dy newButtons mask m).1 e member
      · have same := buttonEvents_clicked dx dy newButtons mask m
        obtain ⟨x, y⟩ := ih _ e member
        exact ⟨x.trans same.x, y.trans same.y⟩

/-- Each button has its own turn in the loop. -/
theorem allButtons_transitions (dx dy : Int) (newButtons : UInt8) (m : Driver)
    {list : List UInt8} (distinct : list.Nodup) (mask : UInt8) :
    transitions mask (allButtons dx dy newButtons m list).2 =
      if mask ∈ list then
        (if newButtons &&& ~~~m.prevButtons &&& mask ≠ 0 then [true] else []) ++
          if m.prevButtons &&& ~~~newButtons &&& mask ≠ 0 then [false] else []
      else [] := by
  induction list generalizing m with
  | nil => rfl
  | cons first rest ih =>
      obtain ⟨fresh, others⟩ := List.nodup_cons.mp distinct
      obtain ⟨_, elsewhere, own⟩ := buttonEvents_events dx dy newButtons first m
      have later := ih (buttonEvents dx dy newButtons m first).1 others
      rw [(buttonEvents_clicked dx dy newButtons first m).prevButtons] at later
      rw [allButtons, transitions_append, later]
      by_cases same : mask = first
      · subst same
        rw [own, if_neg fresh, if_pos List.mem_cons_self, List.append_nil]
      · rw [elsewhere mask same, List.nil_append]
        simp only [List.mem_cons, same, false_or]

/-- A button goes down when it was up, and up when it was down. -/
theorem follow_change {mask : UInt8} (isMask : mask ∈ masks) (now before : UInt8) :
    follow (down mask before)
      ((if now &&& ~~~before &&& mask ≠ 0 then [true] else []) ++
        if before &&& ~~~now &&& mask ≠ 0 then [false] else []) = some (down mask now) := by
  simp only [changed_iff isMask]
  cases down mask now <;> cases down mask before <;> rfl

theorem motionEvents_place (dx dy scroll : Int) (newButtons : UInt8) :
    ∀ e ∈ motionEvents m dx dy scroll newButtons,
      (e.x = m.x ∧ e.y = m.y) ∧ e.type.transition = none := by
  intro e member
  rw [motionEvents] at member
  rcases List.mem_append.mp member with member | member
  · split at member
    · rw [List.mem_singleton.mp member]
      exact ⟨⟨rfl, rfl⟩, rfl⟩
    · exact absurd member List.not_mem_nil
  · split at member
    · exact absurd member List.not_mem_nil
    · split at member
      · rw [List.mem_singleton.mp member]
        exact ⟨⟨rfl, rfl⟩, rfl⟩
      · rw [List.mem_singleton.mp member]
        exact ⟨⟨rfl, rfl⟩, rfl⟩

/-- What a step of the driver keeps, and what its events say. -/
structure Good (width height : Int) (m : Driver) (result : Driver × List MouseEvent) : Prop where
  inside : Inside width height result.1
  onScreen : ∀ e ∈ result.2, e.OnScreen width height
  follows : ∀ mask ∈ masks, follow (down mask m.prevButtons) (transitions mask result.2) =
    some (down mask result.1.prevButtons)

theorem packet_good (inside : Inside width height m) :
    Good width height m (mouseProcessPacket m) := by
  have some : 0 < width ∧ 0 < height := by
    have := inside.left; have := inside.right; have := inside.top; have := inside.bottom
    omega
  generalize isDx : signed (m.bytes 1) = dx
  generalize isDy : -signed (m.bytes 2) = dy
  generalize isNow : m.bytes 0 &&& 7 = now
  generalize isMoved : ({ m with x := within (m.x + dx) m.maxX, y := within (m.y + dy) m.maxY } :
    Driver) = moved
  have x := within_bounds some.1 (m.x + dx)
  have y := within_bounds some.2 (m.y + dy)
  rw [← inside.maxX] at x
  rw [← inside.maxY] at y
  have atX : moved.x = within (m.x + dx) m.maxX := isMoved ▸ rfl
  have atY : moved.y = within (m.y + dy) m.maxY := isMoved ▸ rfl
  have maxX : moved.maxX = m.maxX := isMoved ▸ rfl
  have maxY : moved.maxY = m.maxY := isMoved ▸ rfl
  have before : moved.prevButtons = m.prevButtons := isMoved ▸ rfl
  have clicked := allButtons_clicked dx dy now moved masks
  have isResult : mouseProcessPacket m =
      ({ (allButtons dx dy now moved masks).1 with buttons := now, prevButtons := now },
        (allButtons dx dy now moved masks).2 ++ motionEvents (allButtons dx dy now moved masks).1
          dx dy (if m.hasWheel then signed (m.bytes 3) else 0) now) := by
    subst isDx isDy isNow isMoved
    rfl
  have place {e : MouseEvent} (isX : e.x = moved.x) (isY : e.y = moved.y) :
      e.OnScreen width height := by
    rw [MouseEvent.OnScreen, isX, isY, atX, atY, ← inside.maxX, ← inside.maxY]
    exact ⟨x.1, x.2, y.1, y.2⟩
  rw [isResult]
  refine ⟨⟨rfl, ?_, ?_, ?_, ?_, ?_, ?_⟩, fun e member => ?_, fun mask isMask => ?_⟩
  · exact clicked.maxX.trans (maxX.trans inside.maxX)
  · exact clicked.maxY.trans (maxY.trans inside.maxY)
  · exact (clicked.x.trans atX) ▸ x.1
  · exact inside.maxX ▸ (clicked.x.trans atX) ▸ x.2
  · exact (clicked.y.trans atY) ▸ y.1
  · exact inside.maxY ▸ (clicked.y.trans atY) ▸ y.2
  · rcases List.mem_append.mp member with member | member
    · obtain ⟨isX, isY⟩ := allButtons_place dx dy now moved masks e member
      exact place isX isY
    · obtain ⟨⟨isX, isY⟩, _⟩ := motionEvents_place dx dy _ now e member
      exact place (isX.trans clicked.x) (isY.trans clicked.y)
  · have motion (events : List MouseEvent)
        (others : ∀ e ∈ events, e.type.transition = none) :
        transitions mask ((allButtons dx dy now moved masks).2 ++ events) =
          transitions mask (allButtons dx dy now moved masks).2 := by
      rw [transitions_append, transitions_other others, List.append_nil]
    rw [motion _ fun e member => (motionEvents_place dx dy _ now e member).2]
    rw [allButtons_transitions dx dy now moved (by decide) mask, if_pos isMask, before]
    exact follow_change isMask now m.prevButtons

theorem idle_good {after : Driver} (inside : Inside width height after)
    (same : after.prevButtons = m.prevButtons) : Good width height m (after, []) :=
  ⟨inside, fun _ member => absurd member List.not_mem_nil, fun _ _ => by rw [same]; rfl⟩

theorem Inside.keep (inside : Inside width height m) (data : UInt8) (next : Nat) :
    Inside width height (keep m data next) :=
  ⟨inside.buttons, inside.maxX, inside.maxY, inside.left, inside.right, inside.top, inside.bottom⟩

theorem byte_good (inside : Inside width height m) (data : UInt8) :
    Good width height m (mouseByte m data) := by
  have kept (next : Nat) : Good width height m (keep m data next, []) :=
    idle_good (inside.keep data next) rfl
  have packet : Good width height m (mouseProcessPacket (keep m data 0)) := by
    have good := packet_good (inside.keep data 0)
    exact ⟨good.inside, good.onScreen, good.follows⟩
  rw [mouseByte]
  split
  · split
    · exact idle_good inside rfl
    · exact kept 1
  · split
    · exact kept 2
    · split
      · split
        · exact kept 3
        · exact packet
      · split
        · exact packet
        · exact idle_good inside rfl

theorem react_good (inside : Inside width height m) (input : Input) :
    Good width height m (react m input) := by
  cases input with
  | tick =>
      exact idle_good ⟨inside.buttons, inside.maxX, inside.maxY, inside.left, inside.right,
        inside.top, inside.bottom⟩ rfl
  | irq status data =>
      rw [react]
      split
      · exact idle_good inside rfl
      · exact byte_good inside data

theorem outputs_good (inside : Inside width height m) (steps : List (Step Input)) :
    Good width height m (outputs react m steps) := by
  induction steps generalizing m with
  | nil => exact idle_good inside rfl
  | cons event rest ih =>
      cases event with
      | read => exact ih inside
      | interrupt input =>
          have first := react_good inside input
          have later := ih first.inside
          refine ⟨later.inside, fun e member => ?_, fun mask isMask => ?_⟩
          · exact (List.mem_append.mp member).elim (first.onScreen e) (later.onScreen e)
          · rw [outputs, transitions_append, follow_append, first.follows mask isMask]
            exact later.follows mask isMask

theorem eventParts_complete : Complete eventParts := fun _ _ => rfl

theorem mouseInit_inside (mouseId : UInt8) (wide : 0 < width) (tall : 0 < height) :
    Inside width height (mouseInit mouseId width height) := by
  refine ⟨rfl, rfl, rfl, ?_, ?_, ?_, ?_⟩
  · exact Int.ediv_nonneg (Int.le_of_lt wide) (by decide)
  · change width / 2 < width
    omega
  · exact Int.ediv_nonneg (Int.le_of_lt tall) (by decide)
  · change height / 2 < height
    omega

/-- Whatever bytes the mouse sends and whenever the events are read: the pointer and all events
stay on the screen, events come out as they went in, and, as long as none is lost, each button
goes down and up in turn and is at the end where the driver has it. -/
theorem pointer_runs (mouseId : UInt8) (wide : 0 < width) (tall : 0 < height)
    (slots : Nat → MouseEvent) (steps : List (Step Input)) :
    let start : Device Driver MouseEvent := ⟨mouseInit mouseId width height, Traffic.start slots⟩
    let d := steps.foldl step start
    Inside width height d.state ∧
      d.traffic.accepted = d.traffic.received ++ d.traffic.ring.contents mouseEventQueueSize ∧
      (∀ e ∈ d.traffic.accepted, e.OnScreen width height) ∧
      (Along step (HasRoom mouseEventQueueSize react) start steps → ∀ mask ∈ masks,
        follow false (transitions mask d.traffic.accepted) = some (down mask d.state.buttons)) := by
  intro start d
  have empty : Sound mouseEventQueueSize start.traffic := Sound.start slots (by decide)
  have sound : Sound mouseEventQueueSize d.traffic := empty.run eventParts_complete steps
  have good := outputs_good (mouseInit_inside mouseId wide tall) steps
  obtain ⟨state, ⟨got, among, accepted⟩, all⟩ :=
    @Sound.outputs _ _ eventParts noEvent _ _ react start empty eventParts_complete steps
  have isState : d.state = (outputs react (mouseInit mouseId width height) steps).1 := state
  refine ⟨isState ▸ good.inside, sound.order, fun e member => ?_, fun room mask isMask => ?_⟩
  · have isGot : d.traffic.accepted = got := accepted
    exact good.onScreen e (among.subset (isGot ▸ member))
  · have isAll : d.traffic.accepted = (outputs react (mouseInit mouseId width height) steps).2 :=
      all room
    rw [isAll, isState, good.inside.buttons]
    have none : down mask (mouseInit mouseId width height).prevButtons = false := by
      rw [down, mouseInit, UInt8.zero_and]
      rfl
    rw [← none]
    exact good.follows mask isMask

/-- The left button goes down and up again, and both events are read. -/
theorem pointer_runs_click :
    let start : Device Driver MouseEvent := ⟨mouseInit 0 640 480, Traffic.start fun _ => noEvent⟩
    let d := ([8 + 1, 5, 0, 8, 0, 0].map fun data => Step.interrupt (.irq 0x21 data)).foldl
      step start
    Inside 640 480 d.state :=
  (pointer_runs 0 (by decide) (by decide) _ _).1

/-- A packet, and bytes before it that cannot start one. -/
structure Packet where
  junk : List UInt8
  flags : UInt8
  dx : UInt8
  dy : UInt8
  wheel : UInt8

def Packet.Valid (p : Packet) : Prop := (∀ byte ∈ p.junk, byte &&& 8 = 0) ∧ p.flags &&& 8 ≠ 0

def Packet.bytes (hasWheel : Bool) (p : Packet) : List UInt8 :=
  p.junk ++ [p.flags, p.dx, p.dy] ++ if hasWheel then [p.wheel] else []

/-- The driver with the bytes of a packet. -/
def loaded (m : Driver) (p : Packet) : Driver :=
  let three := Function.update (Function.update (Function.update m.bytes 0 p.flags) 1 p.dx) 2 p.dy
  { m with bytes := if m.hasWheel then Function.update three 3 p.wheel else three }

def runBytes (m : Driver) : List UInt8 → Driver × List MouseEvent
  | [] => (m, [])
  | data :: rest =>
      let first := mouseByte m data
      let later := runBytes first.1 rest
      (later.1, first.2 ++ later.2)

def runPackets (m : Driver) : List Packet → Driver × List MouseEvent
  | [] => (m, [])
  | p :: rest =>
      let first := mouseProcessPacket (loaded m p)
      let later := runPackets first.1 rest
      (later.1, first.2 ++ later.2)

/-- Between two packets, with the packet size that goes with the wheel. -/
structure Ready (m : Driver) : Prop where
  cycle : m.cycle = 0
  packetSize : m.packetSize = if m.hasWheel then 4 else 3

theorem runBytes_append (m : Driver) (bytes later : List UInt8) :
    runBytes m (bytes ++ later) =
      ((runBytes (runBytes m bytes).1 later).1,
        (runBytes m bytes).2 ++ (runBytes (runBytes m bytes).1 later).2) := by
  induction bytes generalizing m with
  | nil => rfl
  | cons data rest ih =>
      rw [List.cons_append, runBytes, ih, runBytes]
      simp only [List.append_assoc]

theorem junk_skipped (ready : Ready m) {junk : List UInt8} (skips : ∀ byte ∈ junk, byte &&& 8 = 0) :
    runBytes m junk = (m, []) := by
  induction junk with
  | nil => rfl
  | cons data rest ih =>
      have one : mouseByte m data = (m, []) := by
        rw [mouseByte, if_pos ready.cycle, if_pos (skips data List.mem_cons_self)]
      rw [runBytes, one, ih fun byte member => skips byte (List.mem_cons_of_mem _ member)]
      rfl

theorem packet_frame (m : Driver) :
    let after := (mouseProcessPacket m).1
    after.x = within (m.x + signed (m.bytes 1)) m.maxX ∧
      after.y = within (m.y - signed (m.bytes 2)) m.maxY ∧ after.maxX = m.maxX ∧
      after.maxY = m.maxY ∧ after.cycle = m.cycle ∧ after.hasWheel = m.hasWheel ∧
      after.packetSize = m.packetSize := by
  have same := allButtons_clicked (signed (m.bytes 1)) (-signed (m.bytes 2)) (m.bytes 0 &&& 7)
    { m with
      x := within (m.x + signed (m.bytes 1)) m.maxX
      y := within (m.y + -signed (m.bytes 2)) m.maxY } masks
  exact ⟨same.x, same.y, same.maxX, same.maxY, same.cycle, same.hasWheel, same.packetSize⟩

theorem packet_ready (ready : Ready m) (p : Packet) : Ready (mouseProcessPacket (loaded m p)).1 := by
  obtain ⟨_, _, _, _, cycle, wheel, size⟩ := packet_frame (loaded m p)
  exact ⟨cycle.trans ready.cycle, size.trans (wheel ▸ ready.packetSize)⟩

theorem packet_read (ready : Ready m) {p : Packet} (valid : p.Valid) :
    runBytes m (p.bytes m.hasWheel) = mouseProcessPacket (loaded m p) := by
  obtain ⟨skips, marked⟩ := valid
  have size := ready.packetSize
  have first : mouseByte m p.flags = (keep m p.flags 1, []) := by
    rw [mouseByte, if_pos ready.cycle, if_neg marked]
  have second : mouseByte (keep m p.flags 1) p.dx = (keep (keep m p.flags 1) p.dx 2, []) := rfl
  rw [Packet.bytes, List.append_assoc, runBytes_append, junk_skipped ready skips, List.nil_append]
  cases isWheel : m.hasWheel with
  | false =>
      have third : mouseByte (keep (keep m p.flags 1) p.dx 2) p.dy =
          mouseProcessPacket (loaded m p) := by
        rw [isWheel] at size
        have short : (keep (keep m p.flags 1) p.dx 2).packetSize ≠ 4 := by
          change m.packetSize ≠ 4
          rw [size]
          decide
        have isLoaded : keep (keep (keep m p.flags 1) p.dx 2) p.dy 0 = loaded m p := by
          simp [keep, loaded, isWheel, ready.cycle]
        rw [← isLoaded]
        exact if_neg short
      simp [runBytes, first, second, third]
  | true =>
      have third : mouseByte (keep (keep m p.flags 1) p.dx 2) p.dy =
          (keep (keep (keep m p.flags 1) p.dx 2) p.dy 3, []) := by
        rw [isWheel] at size
        exact if_pos size
      have last : mouseByte (keep (keep (keep m p.flags 1) p.dx 2) p.dy 3) p.wheel =
          mouseProcessPacket (loaded m p) := by
        have isLoaded : keep (keep (keep (keep m p.flags 1) p.dx 2) p.dy 3) p.wheel 0 =
            loaded m p := by
          simp [keep, loaded, isWheel, ready.cycle]
        rw [← isLoaded]
        rfl
      simp [runBytes, first, second, third, last]

/-- A stream of packets is read packet by packet, bytes that cannot start one are skipped, and the
pointer goes where the movements lead, stopping at the borders. -/
theorem packets_read (ready : Ready m) {packets : List Packet} (valid : ∀ p ∈ packets, p.Valid) :
    let after := runBytes m (packets.flatMap (Packet.bytes m.hasWheel))
    after = runPackets m packets ∧ Ready after.1 ∧
      after.1.x = packets.foldl (fun x p => within (x + signed p.dx) m.maxX) m.x ∧
      after.1.y = packets.foldl (fun y p => within (y - signed p.dy) m.maxY) m.y := by
  induction packets generalizing m with
  | nil => exact ⟨rfl, ready, rfl, rfl⟩
  | cons p rest ih =>
      have one := packet_read ready (valid p List.mem_cons_self)
      have next := packet_ready ready p
      obtain ⟨x, y, maxX, maxY, _, wheel, _⟩ := packet_frame (loaded m p)
      have isX : (loaded m p).bytes 1 = p.dx ∧ (loaded m p).bytes 2 = p.dy := by
        simp only [loaded]
        split <;> exact ⟨rfl, rfl⟩
      obtain ⟨bytes, last, atX, atY⟩ := ih next fun other member =>
        valid other (List.mem_cons_of_mem _ member)
      rw [isX.1] at x
      rw [isX.2] at y
      have sameWheel : (mouseProcessPacket (loaded m p)).1.hasWheel = m.hasWheel := wheel
      rw [sameWheel] at bytes last atX atY
      rw [x, maxX] at atX
      rw [y, maxY] at atY
      have isRun : runBytes m ((p :: rest).flatMap (Packet.bytes m.hasWheel)) =
          runPackets m (p :: rest) := by
        rw [List.flatMap_cons, runBytes_append, one, bytes]
        rfl
      have isState : (runBytes m ((p :: rest).flatMap (Packet.bytes m.hasWheel))).1 =
          (runBytes (mouseProcessPacket (loaded m p)).1
            (rest.flatMap (Packet.bytes m.hasWheel))).1 := by
        rw [List.flatMap_cons, runBytes_append, one]
      exact ⟨isRun, isState ▸ last, isState ▸ atX, isState ▸ atY⟩

/-- A wheel mouse that moves twice, with a byte of a lost packet in between. -/
theorem packets_read_wheel :
    let m := mouseInit 3 640 480
    let packets : List Packet := [⟨[], 8, 250, 3, 0⟩, ⟨[0, 4], 9, 1, 1, 1⟩]
    runBytes m (packets.flatMap (Packet.bytes m.hasWheel)) = runPackets m packets :=
  (@packets_read (mouseInit 3 640 480) ⟨rfl, rfl⟩ [⟨[], 8, 250, 3, 0⟩, ⟨[0, 4], 9, 1, 1, 1⟩]
    (by simp [Packet.Valid]; decide)).1

end ZurichOS.Mouse
