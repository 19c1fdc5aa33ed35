import Mathlib.Data.Nat.Bitwise
import ZurichOS.InterruptRing
import ZurichOS.LineEditor
import ZurichOS.Transitions

set_option linter.all false

/-!
The keyboard driver: the bytes of the controller become key events in the interrupt handler, which
`keyboard_process_events` takes out of the ring and turns into characters and scrolling.
-/

namespace ZurichOS.Keyboard

open ByteBuffer InterruptRing Transitions

abbrev eventBufferSize : Nat := 64

structure KeyEvent where
  scancode : UInt8
  pressed : Bool
  extended : Bool
  modifiers : UInt8
  ascii : UInt8
deriving DecidableEq

/-- The variables of the driver that the handler decodes the bytes with. -/
structure Keys where
  extendedKey : Bool
  e1State : Nat
  shiftPressed : Bool
  ctrlPressed : Bool
  altPressed : Bool
  capsLock : Bool
  rightCtrl : Bool
  rightAlt : Bool
deriving DecidableEq

def codes (row : List Char) : List UInt8 := row.map fun c => UInt8.ofNat c.toNat

def scancodeToAscii : List UInt8 :=
  [0, 27] ++ codes ['1', '2', '3', '4', '5', '6', '7', '8', '9', '0', '-', '='] ++ [8, 9] ++
  codes ['q', 'w', 'e', 'r', 't', 'y', 'u', 'i', 'o', 'p', '[', ']'] ++ [10, 0] ++
  codes ['a', 's', 'd', 'f', 'g', 'h', 'j', 'k', 'l', ';'] ++ [39, 96, 0, 92] ++
  codes ['z', 'x', 'c', 'v', 'b', 'n', 'm', ',', '.', '/'] ++ [0] ++ codes ['*'] ++ [0] ++
  codes [' '] ++ List.replicate 16 0 ++ codes ['-'] ++ [0, 0, 0] ++ codes ['+']

def scancodeToAsciiShift : List UInt8 :=
  [0, 27] ++ codes ['!', '@', '#', '$', '%', '^', '&', '*', '(', ')', '_', '+'] ++ [8, 9] ++
  codes ['Q', 'W', 'E', 'R', 'T', 'Y', 'U', 'I', 'O', 'P'] ++ [123, 125] ++ [10, 0] ++
  codes ['A', 'S', 'D', 'F', 'G', 'H', 'J', 'K', 'L', ':'] ++ [34, 126, 0, 124] ++
  codes ['Z', 'X', 'C', 'V', 'B', 'N', 'M', '<', '>', '?'] ++ [0] ++ codes ['*'] ++ [0] ++
  codes [' '] ++ List.replicate 16 0 ++ codes ['-'] ++ [0, 0, 0] ++ codes ['+']

/-- Both tables have 128 entries; those that the source leaves out are zero. -/
def plain (scancode : UInt8) : UInt8 := scancodeToAscii.getD scancode.toNat 0

def shifted (scancode : UInt8) : UInt8 := scancodeToAsciiShift.getD scancode.toNat 0

def Keys.init : Keys := ⟨false, 0, false, false, false, false, false, false⟩

def getModifiers (k : Keys) : UInt8 :=
  (if k.shiftPressed then 1 else 0) ||| (if k.ctrlPressed || k.rightCtrl then 2 else 0) |||
    (if k.altPressed || k.rightAlt then 4 else 0) ||| (if k.capsLock then 8 else 0)

def isLower (c : UInt8) : Bool := 97 ≤ c && c ≤ 122

def scancodeToChar (k : Keys) (scancode : UInt8) (extended : Bool) : UInt8 :=
  if extended then 0
  else if 128 ≤ scancode then 0
  else
    let useShift :=
      if k.capsLock && isLower (plain scancode) then !k.shiftPressed else k.shiftPressed
    if useShift then shifted scancode else plain scancode

/-- What a key does to the modifiers. -/
def hold (k : Keys) (code : UInt8) (extended released : Bool) : Keys :=
  if extended then
    if code = 0x1D then { k with rightCtrl := !released }
    else if code = 0x38 then { k with rightAlt := !released }
    else k
  else if code = 0x2A ∨ code = 0x36 then { k with shiftPressed := !released }
  else if code = 0x1D then { k with ctrlPressed := !released }
  else if code = 0x38 then { k with altPressed := !released }
  else if code = 0x3A then if released then k else { k with capsLock := !k.capsLock }
  else k

/-- The event of a key that has just been put into the modifiers. -/
def keyEvent (k : Keys) (code : UInt8) (extended released : Bool) : KeyEvent where
  scancode := code
  pressed := !released
  extended := extended
  modifiers := getModifiers k
  ascii := if released then 0 else scancodeToChar k code extended

def processScancode (k : Keys) (scancode : UInt8) : Keys × Option KeyEvent :=
  if 0 < k.e1State then ({ k with e1State := k.e1State - 1 }, none)
  else if scancode = 0xE0 then ({ k with extendedKey := true }, none)
  else if scancode = 0xE1 then ({ k with e1State := 5 }, none)
  else if scancode = 0xFA ∨ scancode = 0xFE ∨ scancode = 0 ∨ scancode = 0xFF then (k, none)
  else
    let isExtended := k.extendedKey
    let released : Bool := scancode &&& 0x80 ≠ 0
    let code := scancode &&& 0x7F
    let after := hold { k with extendedKey := false } code isExtended released
    (after, some (keyEvent after code isExtended released))

/-- The keys and the events after a stretch of bytes. -/
def decode (k : Keys) : List UInt8 → Keys × List KeyEvent
  | [] => (k, [])
  | byte :: rest =>
      let first := processScancode k byte
      let later := decode first.1 rest
      (later.1, first.2.toList ++ later.2)

/-- The status register, and the byte that the data port holds then. -/
structure PortRead where
  status : UInt8
  data : UInt8

/-- The bytes that a handler takes which may read `maxReads` of them. -/
def handlerBytes : Nat → List PortRead → List UInt8
  | 0, _ => []
  | _, [] => []
  | maxReads + 1, port :: rest =>
      if port.status &&& 1 = 0 then []
      else if port.status &&& 0x20 ≠ 0 then []
      else port.data :: handlerBytes maxReads rest

abbrev Driver : Type := Device Keys KeyEvent

abbrev KeyStep : Type := Step (List PortRead)

/-- `keyboard_get_event` copies the event field by field, and then frees its slot. -/
def eventParts : List (FieldCopy KeyEvent) :=
  [fun copy entry => { copy with scancode := entry.scancode },
   fun copy entry => { copy with pressed := entry.pressed },
   fun copy entry => { copy with extended := entry.extended },
   fun copy entry => { copy with modifiers := entry.modifiers },
   fun copy entry => { copy with ascii := entry.ascii }]

def noEvent : KeyEvent := ⟨0, false, false, 0, 0⟩

def bufferAddEvent (kb : Driver) (event : KeyEvent) : Driver :=
  { kb with traffic := offer eventBufferSize kb.traffic event }

def processByte (kb : Driver) (scancode : UInt8) : Driver :=
  let decoded := processScancode kb.state scancode
  decoded.2.toList.foldl bufferAddEvent { kb with state := decoded.1 }

def step (kb : Driver) : KeyStep → Driver
  | .interrupt ports => (handlerBytes 16 ports).foldl processByte kb
  | .read => { kb with traffic := advance eventBufferSize eventParts noEvent kb.traffic }

def keyboardInit (slots : Nat → KeyEvent) : Driver where
  state := Keys.init
  traffic := Traffic.start slots

def pending (kb : Driver) : List KeyEvent := kb.traffic.ring.contents eventBufferSize

/-- The bytes that the interrupts of a run have taken from the controller. -/
def scancodes (steps : List KeyStep) : List UInt8 :=
  steps.flatMap fun
    | .interrupt ports => handlerBytes 16 ports
    | .read => []

/-- What an interrupt makes of the ports. -/
def react (k : Keys) (ports : List PortRead) : Keys × List KeyEvent :=
  decode k (handlerBytes 16 ports)

theorem decode_append (k : Keys) (bytes later : List UInt8) :
    decode k (bytes ++ later) =
      ((decode (decode k bytes).1 later).1,
        (decode k bytes).2 ++ (decode (decode k bytes).1 later).2) := by
  induction bytes generalizing k with
  | nil => rfl
  | cons byte rest ih =>
      rw [List.cons_append, decode, ih, decode]
      simp only [List.append_assoc]

theorem eventParts_complete : Complete eventParts := fun _ _ => rfl

theorem addEvents (kb : Driver) (events : List KeyEvent) :
    events.foldl bufferAddEvent kb =
      { kb with traffic := events.foldl (offer eventBufferSize) kb.traffic } := by
  induction events generalizing kb with
  | nil => rfl
  | cons event rest ih => exact ih (bufferAddEvent kb event)

/-- An interrupt decodes its bytes and offers the events one after the other. -/
theorem foldl_processByte (kb : Driver) (bytes : List UInt8) :
    bytes.foldl processByte kb =
      { state := (decode kb.state bytes).1
        traffic := (decode kb.state bytes).2.foldl (offer eventBufferSize) kb.traffic } := by
  induction bytes generalizing kb with
  | nil => rfl
  | cons byte rest ih =>
      rw [List.foldl_cons, ih, processByte, addEvents, decode, List.foldl_append]

theorem step_eq : step = Device.step eventBufferSize eventParts noEvent react := by
  funext kb event
  cases event with
  | interrupt ports => exact foldl_processByte kb (handlerBytes 16 ports)
  | read => rfl

/-- It does not matter how the bytes are spread over the interrupts. -/
theorem outputs_eq (k : Keys) (steps : List KeyStep) :
    outputs react k steps = decode k (scancodes steps) := by
  induction steps generalizing k with
  | nil => rfl
  | cons event rest ih =>
      cases event with
      | read => exact ih k
      | interrupt ports =>
          have bytes : scancodes (.interrupt ports :: rest) =
              handlerBytes 16 ports ++ scancodes rest := rfl
          rw [outputs, ih, bytes, decode_append]
          rfl

/-- What the controller sends: a key going down or up, the pause key, or an answer to a command. -/
inductive Sent
  | key (code : UInt8) (extended released : Bool)
  | pause
  | answer (byte : UInt8)

def keyByte (code : UInt8) (released : Bool) : UInt8 := if released then code + 0x80 else code

def Sent.bytes : Sent → List UInt8
  | .key code extended released =>
      (if extended then [0xE0] else []) ++ [keyByte code released]
  | .pause => [0xE1, 0x1D, 0x45, 0xE1, 0x9D, 0xC5]
  | .answer byte => [byte]

def IsAnswer (byte : UInt8) : Prop := byte = 0xFA ∨ byte = 0xFE ∨ byte = 0 ∨ byte = 0xFF

def Sent.Valid : Sent → Prop
  | .key code _ released => code < 128 ∧ keyByte code released ≠ 0xE0 ∧
      keyByte code released ≠ 0xE1 ∧ ¬IsAnswer (keyByte code released)
  | .pause => True
  | .answer byte => IsAnswer byte

/-- Whether the key was pressed or released, each time that it was. -/
def strokes (isKey : UInt8 → Bool → Bool) (sent : List Sent) : List Bool :=
  sent.filterMap fun
    | .key code extended released => if isKey code extended then some (!released) else none
    | _ => none

def held (isKey : UInt8 → Bool → Bool) (sent : List Sent) : Bool :=
  (strokes isKey sent).getLast? == some true

/-- The modifiers in terms of what has been sent; both shift keys count as one key. -/
def heldKeys (sent : List Sent) : Keys where
  extendedKey := false
  e1State := 0
  shiftPressed := held (fun code extended => !extended && (code == 0x2A || code == 0x36)) sent
  ctrlPressed := held (fun code extended => !extended && code == 0x1D) sent
  altPressed := held (fun code extended => !extended && code == 0x38) sent
  capsLock := (strokes (fun code extended => !extended && code == 0x3A) sent).count true % 2 == 1
  rightCtrl := held (fun code extended => extended && code == 0x1D) sent
  rightAlt := held (fun code extended => extended && code == 0x38) sent

/-- The events of what is sent after a history. -/
def expected (history : List Sent) : List Sent → List KeyEvent
  | [] => []
  | .key code extended released :: rest =>
      keyEvent (heldKeys (history ++ [.key code extended released])) code extended released ::
        expected (history ++ [.key code extended released]) rest
  | sent :: rest => expected (history ++ [sent]) rest

theorem low_bits (byte : UInt8) : (byte &&& 0x7F).toNat = byte.toNat % 128 :=
  Nat.and_two_pow_sub_one_eq_mod byte.toNat 7

theorem high_bit (byte : UInt8) : byte &&& 0x80 ≠ 0 ↔ 128 ≤ byte.toNat := by
  have small : byte.toNat < 256 := byte.toNat_lt
  have isBit : (byte &&& 0x80).toNat = (byte.toNat.testBit 7).toNat * 128 :=
    Nat.and_two_pow byte.toNat 7
  have isZero : byte &&& 0x80 = 0 ↔ (byte &&& 0x80).toNat = 0 := by
    rw [← UInt8.toNat_inj]
    rfl
  rw [Ne, isZero, isBit, Nat.testBit_eq_decide_div_mod_eq, show 2 ^ 7 = 128 from rfl]
  by_cases high : byte.toNat / 128 % 2 = 1
  · rw [decide_eq_true high, Bool.toNat_true]
    omega
  · rw [decide_eq_false high, Bool.toNat_false]
    omega

theorem keyByte_toNat {code : UInt8} (low : code < 128) (released : Bool) :
    (keyByte code released).toNat = code.toNat + if released then 128 else 0 := by
  have small : code.toNat < 128 := low
  cases released with
  | false => rfl
  | true =>
      change (code + 0x80).toNat = code.toNat + 128
      rw [UInt8.toNat_add, Nat.mod_eq_of_lt (by change code.toNat + 128 < 256; omega)]
      rfl

/-- A byte that is not one of the special ones ends a key, with a prefix or without one. -/
theorem processScancode_key {k : Keys} {code : UInt8} {released : Bool} (low : code < 128)
    (idle : k.e1State = 0) (first : keyByte code released ≠ 0xE0)
    (second : keyByte code released ≠ 0xE1) (third : ¬IsAnswer (keyByte code released)) :
    processScancode k (keyByte code released) =
      (hold { k with extendedKey := false } code k.extendedKey released,
        some (keyEvent (hold { k with extendedKey := false } code k.extendedKey released) code
          k.extendedKey released)) := by
  have small : code.toNat < 128 := low
  have value := keyByte_toNat low released
  have isCode : keyByte code released &&& 0x7F = code := by
    rw [← UInt8.toNat_inj, low_bits, value]
    split <;> omega
  have isReleased : decide (keyByte code released &&& 0x80 ≠ 0) = released := by
    have above := (high_bit (keyByte code released)).trans (by rw [value])
    cases released with
    | false => exact decide_eq_false fun high => absurd (above.mp high) (by simp; omega)
    | true => exact decide_eq_true (above.mpr (by simp))
  have noAnswer := third
  rw [IsAnswer] at noAnswer
  rw [processScancode, if_neg (by omega), if_neg first, if_neg second, if_neg noAnswer]
  simp only [isCode, isReleased]

theorem decode_key {k : Keys} {code : UInt8} {extended released : Bool}
    (valid : (Sent.key code extended released).Valid) (idle : k.e1State = 0)
    (unprefixed : k.extendedKey = false) :
    decode k (Sent.key code extended released).bytes =
      (hold k code extended released,
        [keyEvent (hold k code extended released) code extended released]) := by
  obtain ⟨low, first, second, third⟩ := valid
  have same : { k with extendedKey := false } = k := by
    rw [← unprefixed]
  cases extended with
  | false =>
      have one := processScancode_key low idle first second third
      rw [same, unprefixed] at one
      simp [Sent.bytes, decode, one]
  | true =>
      have start : processScancode k 0xE0 = ({ k with extendedKey := true }, none) := by
        rw [processScancode, if_neg (by omega), if_pos rfl]
      have one := @processScancode_key { k with extendedKey := true } code released low idle
        first second third
      simp only [same] at one
      simp [Sent.bytes, decode, start, one]

theorem decode_pause {k : Keys} (idle : k.e1State = 0) : decode k Sent.pause.bytes = (k, []) := by
  have same : { k with e1State := 0 } = k := by
    rw [← idle]
  simp [Sent.bytes, decode, processScancode, idle, same]

theorem decode_answer {k : Keys} {byte : UInt8} (answer : IsAnswer byte) (idle : k.e1State = 0) :
    decode k (Sent.answer byte).bytes = (k, []) := by
  have one : processScancode k byte = (k, none) := by
    rcases answer with rfl | rfl | rfl | rfl <;> simp [processScancode, idle]
  simp [Sent.bytes, decode, one]

theorem strokes_append (isKey : UInt8 → Bool → Bool) (sent later : List Sent) :
    strokes isKey (sent ++ later) = strokes isKey sent ++ strokes isKey later :=
  List.filterMap_append

theorem held_key (isKey : UInt8 → Bool → Bool) (sent : List Sent) (code : UInt8)
    (extended released : Bool) :
    held isKey (sent ++ [.key code extended released]) =
      if isKey code extended then !released else held isKey sent := by
  rw [held, strokes_append]
  by_cases isIt : isKey code extended
  · simp [strokes, isIt]
  · simp [strokes, isIt, held]

/-- What `hold` does is what the history says. -/
theorem heldKeys_key (sent : List Sent) (code : UInt8) (extended released : Bool) :
    heldKeys (sent ++ [.key code extended released]) =
      hold (heldKeys sent) code extended released := by
  simp only [heldKeys, held_key, strokes_append, List.count_append]
  cases extended with
  | true =>
      by_cases ctrl : code = 0x1D
      · simp [hold, strokes, ctrl]
      · by_cases alt : code = 0x38
        · simp [hold, strokes, alt]
        · simp [hold, strokes, ctrl, alt]
  | false =>
      by_cases shift : code = 0x2A ∨ code = 0x36
      · rcases shift with rfl | rfl <;> simp [hold, strokes]
      · have noLeft : code ≠ 0x2A := fun isLeft => shift (.inl isLeft)
        have noRight : code ≠ 0x36 := fun isRight => shift (.inr isRight)
        by_cases ctrl : code = 0x1D
        · simp [hold, strokes, ctrl]
        · by_cases alt : code = 0x38
          · simp [hold, strokes, alt]
          · by_cases caps : code = 0x3A
            · cases released with
              | true => simp [hold, strokes, caps]
              | false =>
                  simp only [hold, caps]
                  simp only [strokes]
                  generalize (List.filterMap _ sent).count true = presses
                  rcases Nat.mod_two_eq_zero_or_one presses with even | odd
                  · simp [Nat.add_mod, even]
                  · simp [Nat.add_mod, odd]
            · simp [hold, strokes, noLeft, noRight, ctrl, alt, caps]

theorem heldKeys_other (sent : List Sent) {other : Sent}
    (noKey : ∀ code extended released, other ≠ .key code extended released) :
    heldKeys (sent ++ [other]) = heldKeys sent := by
  have none (isKey : UInt8 → Bool → Bool) : strokes isKey (sent ++ [other]) = strokes isKey sent := by
    rw [strokes_append]
    cases other with
    | key code extended released => exact absurd rfl (noKey code extended released)
    | pause => exact List.append_nil _
    | answer byte => exact List.append_nil _
  simp only [heldKeys, held, none]

/-- The bytes of valid keys decode to these keys, with the modifiers that are held. -/
theorem decode_after (history sent : List Sent) (valid : ∀ s ∈ sent, s.Valid) :
    decode (heldKeys history) (sent.flatMap Sent.bytes) =
      (heldKeys (history ++ sent), expected history sent) := by
  induction sent generalizing history with
  | nil => rw [List.append_nil]; rfl
  | cons first rest ih =>
      have later := ih (history ++ [first]) fun s member => valid s (List.mem_cons_of_mem _ member)
      have isValid := valid first List.mem_cons_self
      rw [List.flatMap_cons, decode_append]
      cases first with
      | key code extended released =>
          rw [decode_key isValid rfl rfl, ← heldKeys_key, later, List.append_assoc]
          rfl
      | pause =>
          rw [heldKeys_other history fun _ _ _ same => Sent.noConfusion same] at later
          rw [decode_pause rfl, later, List.append_assoc]
          rfl
      | answer byte =>
          rw [heldKeys_other history fun _ _ _ same => Sent.noConfusion same] at later
          rw [decode_answer isValid rfl, later, List.append_assoc]
          rfl

/-- What `keyboard_process_events` calls: the console that is in use, and the callbacks. -/
inductive Action
  | scrollUp (lines : Nat)
  | scrollDown (lines : Nat)
  | scrollReset
  | leaveScrollback
  | event (e : KeyEvent)
  | char (c : UInt8)

/-- Whether the framebuffer is in use, the height of the console, and which callbacks are set. -/
structure Consumer where
  useFb : Bool
  rows : Nat
  callback : Bool
  eventCallback : Bool

def Consumer.call (d : Consumer) (cs : List UInt8) : List Action :=
  if d.callback then cs.map .char else []

/-- The keys that `continue` the loop. -/
def extendedKey (d : Consumer) (event : KeyEvent) : Option (List Action) :=
  let isShift : Bool := event.modifiers &&& 1 ≠ 0
  let page := if isShift then d.rows / 2 else d.rows - 1
  if event.scancode = 0x49 then some [.scrollUp page]
  else if event.scancode = 0x51 then some [.scrollDown page]
  else if event.scancode = 0x47 then some [.scrollUp 200]
  else if event.scancode = 0x4F then some [.scrollReset]
  else if event.scancode = 0x48 then
    some (if isShift then [.scrollUp 1] else d.call [0x1B, 91, 65])
  else if event.scancode = 0x50 then
    some (if isShift then [.scrollDown 1] else d.call [0x1B, 91, 66])
  else if event.scancode = 0x4B then some (d.call [0x1B, 91, 68])
  else if event.scancode = 0x4D then some (d.call [0x1B, 91, 67])
  else none

def ctrlChar (ascii : UInt8) : UInt8 :=
  if 97 ≤ ascii ∧ ascii ≤ 122 then ascii - 97 + 1
  else if 65 ≤ ascii ∧ ascii ≤ 90 then ascii - 65 + 1
  else 0

def charOf (event : KeyEvent) : List UInt8 :=
  if event.pressed && event.modifiers &&& 2 ≠ 0 && ctrlChar event.ascii ≠ 0 then
    [ctrlChar event.ascii]
  else if event.pressed && event.ascii ≠ 0 then [event.ascii]
  else []

def otherKey (d : Consumer) (event : KeyEvent) : List Action :=
  (if event.pressed && event.ascii ≠ 0 then [.leaveScrollback] else []) ++
    (if d.eventCallback then [.event event] else []) ++ d.call (charOf event)

def handleEvent (d : Consumer) (event : KeyEvent) : List Action :=
  if event.pressed && event.extended then
    (extendedKey d event).getD (otherKey d event)
  else otherKey d event

def Action.handed : Action → Option UInt8
  | .char c => some c
  | _ => none

/-- The characters that the events hand to the callback. -/
def chars (d : Consumer) (events : List KeyEvent) : List UInt8 :=
  (events.flatMap (handleEvent d)).filterMap Action.handed

/-- The key that has a character, and whether it is on the upper half of the key. -/
def keyOf (c : UInt8) : Option (UInt8 × Bool) :=
  match scancodeToAscii.findIdx? (· == c) with
  | some index => some (UInt8.ofNat index, false)
  | none => (scancodeToAsciiShift.findIdx? (· == c)).map fun index => (UInt8.ofNat index, true)

def Typable (c : UInt8) : Prop := c ≠ 0 ∧ (keyOf c).isSome

def tap (code : UInt8) : List Sent := [.key code false false, .key code false true]

/-- How a character is typed: shift turns the key over, and so does caps lock with a letter. -/
def typed (caps : Bool) (c : UInt8) : List Sent :=
  match keyOf c with
  | none => []
  | some (code, upper) =>
      if upper != (caps && isLower (plain code)) then
        [.key 0x2A false false] ++ tap code ++ [.key 0x2A false true]
      else tap code

theorem chars_append (d : Consumer) (events later : List KeyEvent) :
    chars d (events ++ later) = chars d events ++ chars d later := by
  rw [chars, List.flatMap_append, List.filterMap_append, chars, chars]

/-- Outside of the keys that scroll and the arrows, the callback gets the character. -/
theorem chars_plain {d : Consumer} (calls : d.callback = true) {event : KeyEvent}
    (unextended : event.extended = false) : chars d [event] = charOf event := by
  have plainKey : handleEvent d event = otherKey d event := by
    rw [handleEvent, unextended, Bool.and_false]
    rfl
  have own (cs : List UInt8) : (cs.map Action.char).filterMap Action.handed = cs := by
    rw [List.filterMap_map]
    exact List.filterMap_some
  rw [chars, List.flatMap_singleton, plainKey, otherKey, Consumer.call, if_pos calls]
  rw [List.filterMap_append, List.filterMap_append, own]
  split <;> split <;> rfl

/-- The keys with a character are no modifiers, and their bytes are not special. -/
theorem code_small {code : UInt8} (printed : plain code ≠ 0 ∨ shifted code ≠ 0) :
    code.toNat < 79 := by
  by_contra large
  have past : scancodeToAscii.length = 79 ∧ scancodeToAsciiShift.length = 79 := by decide
  rcases printed with printed | printed
  · exact printed (List.getD_eq_default _ _ (by omega))
  · exact printed (List.getD_eq_default _ _ (by omega))

theorem code_plain {code : UInt8} (printed : plain code ≠ 0 ∨ shifted code ≠ 0) :
    code ≠ 0x2A ∧ code ≠ 0x36 ∧ code ≠ 0x1D ∧ code ≠ 0x38 ∧ code ≠ 0x3A ∧ code ≠ 0 := by
  have blank : ∀ other ∈ ([0x2A, 0x36, 0x1D, 0x38, 0x3A, 0] : List UInt8),
      plain other = 0 ∧ shifted other = 0 := by
    intro other member
    simp only [List.mem_cons, List.not_mem_nil, or_false] at member
    rcases member with rfl | rfl | rfl | rfl | rfl | rfl
    all_goals exact ⟨rfl, rfl⟩
  have differs {other : UInt8} (member : other ∈ ([0x2A, 0x36, 0x1D, 0x38, 0x3A, 0] : List UInt8)) :
      code ≠ other := by
    rintro rfl
    obtain ⟨noPlain, noShifted⟩ := blank _ member
    exact printed.elim (· noPlain) (· noShifted)
  exact ⟨differs (by simp), differs (by simp), differs (by simp), differs (by simp),
    differs (by simp), differs (by simp)⟩

theorem tap_valid {code : UInt8} (printed : plain code ≠ 0 ∨ shifted code ≠ 0) :
    ∀ s ∈ tap code, s.Valid := by
  have small := code_small printed
  have low : code < 128 := by
    change code.toNat < 128
    omega
  have nonzero : code.toNat ≠ 0 := fun zero =>
    (code_plain printed).2.2.2.2.2 (UInt8.toNat_inj.mp zero)
  have differs (released : Bool) (other : UInt8)
      (far : other.toNat = 0 ∨ 79 ≤ other.toNat ∧ other.toNat < 128 ∨ 207 ≤ other.toNat) :
      keyByte code released ≠ other := by
    rintro rfl
    rw [keyByte_toNat low] at far
    cases released with
    | false => simp only [Bool.false_eq_true, if_false] at far; omega
    | true => simp only [if_true] at far; omega
  have valid (released : Bool) : (Sent.key code false released).Valid := by
    refine ⟨low, differs _ _ (by decide), differs _ _ (by decide), ?_⟩
    rintro (isAck | isResend | isError | isError)
    · exact differs _ _ (by decide) isAck
    · exact differs _ _ (by decide) isResend
    · exact differs _ _ (by decide) isError
    · exact differs _ _ (by decide) isError
  intro s member
  rcases List.mem_cons.mp member with rfl | member
  · exact valid false
  · rcases List.mem_singleton.mp member with rfl
    exact valid true

/-- The modifiers while a text is typed. -/
def typing (caps shift : Bool) : Keys := { Keys.init with capsLock := caps, shiftPressed := shift }

theorem hold_printed {code : UInt8} (printed : plain code ≠ 0 ∨ shifted code ≠ 0) (k : Keys)
    (released : Bool) : hold k code false released = k := by
  obtain ⟨left, right, ctrl, alt, caps, _⟩ := code_plain printed
  have noShift : ¬(code = 0x2A ∨ code = 0x36) := fun either => either.elim left right
  simp only [hold, Bool.false_eq_true, if_false, if_neg noShift, if_neg ctrl, if_neg alt,
    if_neg caps]

theorem no_ctrl (caps shift : Bool) : getModifiers (typing caps shift) &&& 2 = 0 := by
  cases caps <;> cases shift <;> decide

theorem charOf_key (caps shift released : Bool) (code : UInt8) :
    charOf (keyEvent (typing caps shift) code false released) =
      if released ∨ scancodeToChar (typing caps shift) code false = 0 then []
      else [scancodeToChar (typing caps shift) code false] := by
  cases released with
  | true => rfl
  | false =>
      rw [charOf]
      simp only [keyEvent, no_ctrl]
      by_cases blank : scancodeToChar (typing caps shift) code false = 0
      · simp [blank]
      · simp [blank]

theorem shift_silent (caps shift released : Bool) :
    charOf (keyEvent (typing caps shift) 0x2A false released) = [] := by
  cases caps <;> cases shift <;> cases released <;> decide

theorem scancodeToChar_typed {code : UInt8} (printed : plain code ≠ 0 ∨ shifted code ≠ 0)
    (caps upper : Bool) :
    scancodeToChar (typing caps (upper != (caps && isLower (plain code)))) code false =
      if upper then shifted code else plain code := by
  have low : ¬128 ≤ code := by
    have small := code_small printed
    change ¬128 ≤ code.toNat
    omega
  rw [scancodeToChar, if_neg Bool.false_ne_true, if_neg low]
  simp only [typing]
  cases caps <;> cases upper <;> cases isLower (plain code) <;> rfl

theorem decode_tap {code : UInt8} (printed : plain code ≠ 0 ∨ shifted code ≠ 0)
    (caps shift : Bool) :
    decode (typing caps shift) ((tap code).flatMap Sent.bytes) =
      (typing caps shift, [keyEvent (typing caps shift) code false false,
        keyEvent (typing caps shift) code false true]) := by
  have valid := tap_valid printed
  have down := @decode_key (typing caps shift) code false false (valid _ (by simp [tap])) rfl rfl
  have up := @decode_key (typing caps shift) code false true (valid _ (by simp [tap])) rfl rfl
  rw [hold_printed printed] at down up
  simp only [tap, List.flatMap_cons, List.flatMap_nil, List.append_nil]
  rw [decode_append, down, up]
  rfl

theorem decode_shift (caps shift released : Bool) :
    decode (typing caps shift) (Sent.key 0x2A false released).bytes =
      (typing caps !released, [keyEvent (typing caps !released) 0x2A false released]) := by
  have valid : (Sent.key 0x2A false released).Valid := by
    cases released with
    | false => exact ⟨by decide, by decide, by decide, by simp [IsAnswer, keyByte]⟩
    | true => exact ⟨by decide, by decide, by decide, by simp [IsAnswer, keyByte]⟩
  exact decode_key valid rfl rfl

theorem keyOf_prints {c code : UInt8} {upper : Bool} (nonzero : c ≠ 0)
    (isKey : keyOf c = some (code, upper)) :
    (plain code ≠ 0 ∨ shifted code ≠ 0) ∧ (if upper then shifted code else plain code) = c := by
  have found {table : List UInt8} (short : table.length ≤ 128) {index : Nat}
      (isIndex : table.findIdx? (· == c) = some index) :
      table.getD (UInt8.ofNat index).toNat 0 = c := by
    obtain ⟨within, isChar, _⟩ := List.findIdx?_eq_some_iff_getElem.mp isIndex
    have same : (UInt8.ofNat index).toNat = index := UInt8.toNat_ofNat_of_lt' (by
      change index < 256
      omega)
    rw [same, List.getD_eq_getElem _ _ within]
    exact eq_of_beq isChar
  rw [keyOf] at isKey
  cases unshifted : scancodeToAscii.findIdx? (· == c) with
  | some index =>
      rw [unshifted] at isKey
      obtain ⟨rfl, rfl⟩ := Prod.mk.inj (Option.some.inj isKey)
      have prints : plain (UInt8.ofNat index) = c := found (by decide) unshifted
      exact ⟨.inl (prints ▸ nonzero), prints⟩
  | none =>
      rw [unshifted] at isKey
      obtain ⟨index, isIndex, isPair⟩ := Option.map_eq_some_iff.mp isKey
      obtain ⟨rfl, rfl⟩ := Prod.mk.inj isPair
      have prints : shifted (UInt8.ofNat index) = c := found (by decide) isIndex
      exact ⟨.inr (prints ▸ nonzero), prints⟩

/-- Typing a character gives events that hand out just this character, and releases shift. -/
theorem decode_typed {d : Consumer} (calls : d.callback = true) (caps : Bool) {c : UInt8}
    (typable : Typable c) :
    (decode (typing caps false) ((typed caps c).flatMap Sent.bytes)).1 = typing caps false ∧
      chars d (decode (typing caps false) ((typed caps c).flatMap Sent.bytes)).2 = [c] := by
  obtain ⟨nonzero, hasKey⟩ := typable
  obtain ⟨⟨code, upper⟩, isKey⟩ := Option.isSome_iff_exists.mp hasKey
  obtain ⟨printed, prints⟩ := keyOf_prints nonzero isKey
  have isChar := scancodeToChar_typed printed caps upper
  rw [prints] at isChar
  have pressed : chars d [keyEvent (typing caps (upper != (caps && isLower (plain code)))) code
      false false] = [c] := by
    rw [chars_plain calls rfl, charOf_key, isChar, if_neg (by simpa using nonzero)]
  have freed (shift : Bool) : chars d [keyEvent (typing caps shift) code false true] = [] :=
    (chars_plain calls rfl).trans rfl
  have shifts (shift released : Bool) :
      chars d [keyEvent (typing caps shift) 0x2A false released] = [] :=
    (chars_plain calls rfl).trans (shift_silent caps shift released)
  have pair (first second : KeyEvent) : [first, second] = [first] ++ [second] := rfl
  simp only [typed, isKey]
  cases isShift : upper != (caps && isLower (plain code)) with
  | false =>
      rw [isShift] at pressed
      rw [if_neg Bool.false_ne_true, decode_tap printed]
      rw [pair, chars_append, pressed, freed]
      exact ⟨rfl, rfl⟩
  | true =>
      rw [isShift] at pressed
      simp only [if_true, List.flatMap_append, List.flatMap_singleton]
      simp only [decode_append, decode_shift, decode_tap printed, Bool.not_false, Bool.not_true]
      simp only [pair, chars_append, shifts, pressed, freed, List.nil_append, List.append_nil]
      exact ⟨trivial, trivial⟩

theorem decode_text {d : Consumer} (calls : d.callback = true) (caps : Bool) {text : List UInt8}
    (typable : ∀ c ∈ text, Typable c) :
    chars d (decode (typing caps false) ((text.flatMap (typed caps)).flatMap Sent.bytes)).2 =
      text := by
  induction text with
  | nil => rfl
  | cons c rest ih =>
      have one := decode_typed calls caps (typable c List.mem_cons_self)
      have later := ih fun other member => typable other (List.mem_cons_of_mem _ member)
      rw [List.flatMap_cons, List.flatMap_append, decode_append, one.1, chars_append, one.2, later]
      rfl

/-- Characters that the editor has room for stand in its buffer one behind the other. -/
theorem line_typed {commands : List CString} {e : Editor} {keys : List KeyPress}
    (printable : ∀ key ∈ keys, 32 ≤ key.char ∧ key.char < 127)
    (room : e.inputPos + keys.length ≤ shellBufferSize - 1) (unescaped : e.escapeState = 0) :
    (keys.foldl (Editor.shellInput commands) e).inputPos = e.inputPos + keys.length ∧
      bytesAt (keys.foldl (Editor.shellInput commands) e).inputBuffer 0
          (e.inputPos + keys.length) =
        bytesAt e.inputBuffer 0 e.inputPos ++ keys.map (·.char) := by
  induction keys generalizing e with
  | nil => exact ⟨rfl, (List.append_nil _).symm⟩
  | cons key rest ih =>
      obtain ⟨low, high⟩ := printable key List.mem_cons_self
      have differs {other : UInt8} (outside : other < 32) : key.char ≠ other := by
        rintro rfl
        exact absurd outside (UInt8.not_lt.mpr low)
      rw [List.length_cons] at room
      have free : e.inputPos < shellBufferSize - 1 := by omega
      have typed : Editor.shellInput commands e key =
          { e.put e.inputPos [key.char] with inputPos := e.inputPos + 1 } := by
        rw [Editor.shellInput, unescaped, if_neg (by decide), if_neg (by decide), Editor.press]
        rw [if_neg (differs (by decide)), if_neg (differs (by decide)), if_neg (differs (by decide)),
          if_neg (differs (by decide)), if_neg (differs (by decide)), if_pos ⟨low, high⟩,
          if_pos free]
      obtain ⟨isPos, shown⟩ := @ih { e.put e.inputPos [key.char] with inputPos := e.inputPos + 1 }
        (fun other member => printable other (List.mem_cons_of_mem _ member))
        (by change e.inputPos + 1 + rest.length ≤ _; omega) unescaped
      have isLength : e.inputPos + (rest.length + 1) = e.inputPos + 1 + rest.length := by omega
      rw [List.foldl_cons, typed, List.length_cons, isLength]
      refine ⟨isPos, shown.trans ?_⟩
      have before : bytesAt (putBytes e.inputBuffer e.inputPos [key.char]) 0 e.inputPos =
          bytesAt e.inputBuffer 0 e.inputPos :=
        bytesAt_congr fun i below => putBytes_outside _ (.inl (by omega))
      change bytesAt (putBytes e.inputBuffer e.inputPos [key.char]) 0 (e.inputPos + 1) ++ _ = _
      have last : bytesAt (putBytes e.inputBuffer e.inputPos [key.char]) e.inputPos 1 =
          [key.char] := bytesAt_putBytes _
      rw [← bytesAt_append, before, Nat.zero_add, last, List.append_assoc]
      rfl

variable (slots : Nat → KeyEvent)

/-- In every run of interrupts and reader steps, what was put into the ring is what was read and
what is pending; an interrupt gets its events in for which there is room, in their order. -/
theorem ring_delivers (steps : List KeyStep) (ports : List PortRead) :
    let kb := steps.foldl step (keyboardInit slots)
    let events := (decode kb.state (handlerBytes 16 ports)).2
    kb.traffic.accepted = kb.traffic.received ++ pending kb ∧ (pending kb).length ≤ 63 ∧
      (step kb (.interrupt ports)).traffic.received = kb.traffic.received ∧
      pending (step kb (.interrupt ports)) =
        pending kb ++ events.take (63 - (pending kb).length) ∧
      kb.state = (decode Keys.init (scancodes steps)).1 ∧
      kb.traffic.accepted.Sublist (decode Keys.init (scancodes steps)).2 := by
  intro kb events
  have start : Sound eventBufferSize (keyboardInit slots).traffic := Sound.start slots (by decide)
  have sound : Sound eventBufferSize kb.traffic := by
    simp only [kb, step_eq]
    exact start.run eventParts_complete steps
  obtain ⟨state, ⟨got, within, accepted⟩, _⟩ :=
    @Sound.outputs _ _ eventParts noEvent _ _ react _ start eventParts_complete steps
  rw [← step_eq, outputs_eq] at state
  rw [← step_eq] at accepted
  rw [outputs_eq] at within
  obtain ⟨after, _, received, offered⟩ := sound.offers events
  have isStep : step kb (.interrupt ports) = _ := foldl_processByte kb (handlerBytes 16 ports)
  have below : (pending kb).length < eventBufferSize := by
    rw [pending, contents_length]
    exact count_lt sound.head
  have order := after.order
  rw [offered, received, sound.order, List.append_assoc] at order
  refine ⟨sound.order, Nat.le_of_lt_succ below, ?_, ?_, state, ?_⟩
  · rw [isStep]
    exact received
  · rw [isStep]
    exact (List.append_cancel_left order).symm
  · rw [show kb.traffic.accepted = got from accepted]
    exact within

/-- Whatever a controller sends decodes to its keys, each with the modifiers that are held by
then; the pause key and the answers to commands leave no trace. -/
theorem decode_sent (sent : List Sent) (valid : ∀ s ∈ sent, s.Valid) :
    decode Keys.init (sent.flatMap Sent.bytes) = (heldKeys sent, expected [] sent) :=
  decode_after [] sent valid

theorem decode_sent_shift :
    decode Keys.init ([.pause, .key 0x2A false false, .answer 0xFA, .key 0x48 true false].flatMap
      Sent.bytes) = (heldKeys [.pause, .key 0x2A false false, .answer 0xFA, .key 0x48 true false],
        expected [] [.pause, .key 0x2A false false, .answer 0xFA, .key 0x48 true false]) :=
  decode_sent _ (by simp [Sent.Valid, IsAnswer, keyByte])

/-- What is typed gets into the ring, and out of it in its order. -/
theorem typed_accepted (caps : Bool) {text : List UInt8} (steps : List KeyStep)
    (sent : scancodes steps = (text.flatMap (typed caps)).flatMap Sent.bytes)
    (room : Along step (HasRoom eventBufferSize react)
      ⟨typing caps false, Traffic.start slots⟩ steps) :
    let kb := steps.foldl step ⟨typing caps false, Traffic.start slots⟩
    kb.traffic.received ++ pending kb =
      (decode (typing caps false) ((text.flatMap (typed caps)).flatMap Sent.bytes)).2 := by
  intro kb
  have start : Sound eventBufferSize (⟨typing caps false, Traffic.start slots⟩ : Driver).traffic :=
    Sound.start slots (by decide)
  have sound : Sound eventBufferSize kb.traffic := by
    simp only [kb, step_eq]
    exact start.run eventParts_complete steps
  rw [step_eq] at room
  have all := (@Sound.outputs _ _ eventParts noEvent _ _ react _ start eventParts_complete
    steps).2.2 room
  rw [← step_eq, outputs_eq, sent] at all
  rw [pending, ← sound.order]
  exact all

/-- A text that is typed, with caps lock on or off, arrives at the callback however interrupts and
reads alternate, as long as the ring does not fill up; and then stands in the line of the shell. -/
theorem typed_text_arrives {d : Consumer} (calls : d.callback = true) (caps : Bool)
    {text : List UInt8} (typable : ∀ c ∈ text, Typable c) (steps : List KeyStep)
    (sent : scancodes steps = (text.flatMap (typed caps)).flatMap Sent.bytes)
    (room : Along step (HasRoom eventBufferSize react)
      ⟨typing caps false, Traffic.start slots⟩ steps) :
    let kb := steps.foldl step ⟨typing caps false, Traffic.start slots⟩
    chars d kb.traffic.received ++ chars d (pending kb) = text ∧
      ∀ (commands : List CString) (keys : List KeyPress),
        keys.map (·.char) = chars d kb.traffic.received →
        (∀ c ∈ text, 32 ≤ c ∧ c < 127) → text.length ≤ shellBufferSize - 1 →
        pending kb = [] →
        bytesAt (keys.foldl (Editor.shellInput commands) Editor.init).inputBuffer 0
            (keys.foldl (Editor.shellInput commands) Editor.init).inputPos = text := by
  intro kb
  have arrived : chars d kb.traffic.received ++ chars d (pending kb) = text := by
    rw [← chars_append, typed_accepted slots caps steps sent room]
    exact decode_text calls caps typable
  refine ⟨arrived, fun commands keys isKeys printable short drained => ?_⟩
  have isText : keys.map (·.char) = text := by
    rw [isKeys, ← arrived, drained]
    exact (List.append_nil _).symm
  have isLength : keys.length = text.length := by
    rw [← isText, List.length_map]
  obtain ⟨isPos, shown⟩ := @line_typed commands Editor.init keys
    (fun key member => printable _ (isText ▸ List.mem_map_of_mem member))
    (by change 0 + keys.length ≤ _; omega) rfl
  rw [isPos, shown, isText]
  rfl

/-- A shifted letter in one interrupt. -/
def typedH : List KeyStep := [.interrupt [⟨1, 0x2A⟩, ⟨1, 0x23⟩, ⟨1, 0xA3⟩, ⟨1, 0xAA⟩]]

theorem typed_text_arrives_shifted :
    let kb := typedH.foldl step ⟨typing false false, Traffic.start fun _ => noEvent⟩
    chars ⟨false, 25, true, false⟩ kb.traffic.received ++
      chars ⟨false, 25, true, false⟩ (pending kb) = [72] :=
  (@typed_text_arrives (fun _ => noEvent) ⟨false, 25, true, false⟩ rfl false [72]
    (fun c member => List.mem_singleton.mp member ▸ ⟨by decide, by decide⟩) typedH (by decide)
    ⟨by change 0 + 4 < 64; decide, trivial⟩).1

end ZurichOS.Keyboard
