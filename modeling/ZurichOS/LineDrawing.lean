import Mathlib.Algebra.Order.Ring.Int
import Mathlib.Data.List.Chain
import Mathlib.Data.List.Range
import Mathlib.Logic.Function.Iterate
import Mathlib.Tactic.Linarith
import Mathlib.Tactic.Ring
import ZurichOS.SignedWords
import ZurichOS.Words

set_option linter.all false

/-!
`fb_draw_line`: the points that the error term leads through, and the pixels that are set.
-/

namespace ZurichOS

open Words

/-- The geometry of a mode, in words. -/
structure FbMode where
  width : Nat
  height : Nat
  pitch : Nat

structure Framebuffer extends FbMode where
  available : Bool
  backBuffer : Nat → Nat

structure Point where
  x : Int
  y : Int
  deriving DecidableEq

structure Pen extends Point where
  err : Int

/-- The distances and the directions of a line. -/
structure Slope where
  dx : Int
  dy : Int
  sx : Int
  sy : Int

def slope (start stop : Point) : Slope :=
  let dx := wrap32 (stop.x - start.x)
  let dy := wrap32 (stop.y - start.y)
  { dx := if dx < 0 then wrap32 (-dx) else dx
    dy := if dy < 0 then wrap32 (-dy) else dy
    sx := if 0 < dx then 1 else -1
    sy := if 0 < dy then 1 else -1 }

def Slope.step (line : Slope) (pen : Pen) : Pen :=
  let e2 := wrap32 (2 * pen.err)
  let pen :=
    if wrap32 (-line.dy) < e2 then
      { pen with err := wrap32 (pen.err - line.dy), x := wrap32 (pen.x + line.sx) }
    else pen
  if e2 < line.dx then
    { pen with err := wrap32 (pen.err + line.dx), y := wrap32 (pen.y + line.sy) }
  else pen

def FbMode.OnScreen (mode : FbMode) (point : Point) : Prop :=
  0 ≤ point.x ∧ point.x < int32 mode.width ∧ 0 ≤ point.y ∧ point.y < int32 mode.height

instance (mode : FbMode) (point : Point) : Decidable (mode.OnScreen point) :=
  inferInstanceAs (Decidable (_ ∧ _))

/-- The index of a pixel in the back buffer. -/
def FbMode.pixel (mode : FbMode) (point : Point) : Nat :=
  u32 (point.y.toNat * (mode.pitch / 4) + point.x.toNat)

namespace Framebuffer

def plot (color : Nat) (fb : Framebuffer) (point : Point) : Framebuffer :=
  if fb.OnScreen point then
    { fb with backBuffer := fun i => if i = fb.pixel point then color else fb.backBuffer i }
  else fb

/-- The loop, with the points that it visits.  It is cut off when the fuel is used up. -/
def lineLoop (line : Slope) (stop : Point) (color : Nat) :
    Nat → Framebuffer → Pen → Option (List Point × Framebuffer)
  | 0, _, _ => none
  | fuel + 1, fb, pen =>
      let fb := fb.plot color pen.toPoint
      if pen.x = stop.x ∧ pen.y = stop.y then some ([pen.toPoint], fb)
      else
        (lineLoop line stop color fuel fb (line.step pen)).map fun rest =>
          (pen.toPoint :: rest.1, rest.2)

def fbDrawLine (fuel : Nat) (fb : Framebuffer) (start stop : Point) (color : Nat) :
    Option (List Point × Framebuffer) :=
  if fb.available = false then some ([], fb)
  else
    let line := slope start stop
    lineLoop line stop color fuel fb { start with err := wrap32 (line.dx - line.dy) }

end Framebuffer

/-- Along the longer side there is a step every turn, and the error stays in a strip that keeps
the steps along the shorter side in proportion. -/
structure Lead (long short turn minor err : Int) : Prop where
  is : err = (minor + 1) * long - (turn + 1) * short
  nonneg : 0 ≤ minor
  lower : -short < 2 * err
  upper : 2 * err < 3 * long - 2 * short

section Lead

variable {long short turn minor err : Int}

theorem Lead.start (positive : 0 < long) (within : short ≤ long) (nonneg : 0 ≤ short) :
    Lead long short 0 0 (long - short) := by
  refine ⟨by ring, Int.le_refl 0, ?_, ?_⟩
  · omega
  · omega

theorem Lead.next (lead : Lead long short turn minor err) (nonneg : 0 ≤ short)
    (within : short ≤ long) :
    Lead long short (turn + 1) (minor + if 2 * err < long then 1 else 0)
      (err - short + if 2 * err < long then long else 0) := by
  have lower := lead.lower
  have upper := lead.upper
  by_cases low : 2 * err < long
  · rw [if_pos low, if_pos low]
    refine ⟨by rw [lead.is]; ring, Int.add_nonneg lead.nonneg (by decide), ?_, ?_⟩
    · omega
    · omega
  · rw [if_neg low, if_neg low]
    refine ⟨by rw [lead.is]; ring, Int.add_nonneg lead.nonneg (by decide), ?_, ?_⟩
    · omega
    · omega

/-- The two sides end together. -/
theorem Lead.minor_eq (lead : Lead long short long minor err) (positive : 0 < long)
    (nonneg : 0 ≤ short) : minor = short := by
  have lower := lead.lower
  have upper := lead.upper
  rw [lead.is] at lower upper
  refine Int.le_antisymm ?_ ?_
  · by_contra beyond
    have far : short + 1 ≤ minor := by omega
    have more := Int.mul_le_mul_of_nonneg_right far positive.le
    nlinarith
  · by_contra short_of
    have near : minor + 1 ≤ short := by omega
    have less := Int.mul_le_mul_of_nonneg_right near positive.le
    nlinarith

end Lead

/-- The sides of a line between two points that are not too far off. -/
structure Straight (line : Slope) (start stop : Point) : Prop where
  dx : 0 ≤ line.dx ∧ line.dx < 536870912
  dy : 0 ≤ line.dy ∧ line.dy < 536870912
  sx : line.sx = 1 ∨ line.sx = -1
  sy : line.sy = 1 ∨ line.sy = -1
  x : start.x + line.sx * line.dx = stop.x
  y : start.y + line.sy * line.dy = stop.y

/-- The coordinates have an absolute value below `2 ^ 28`. -/
def Point.Small (point : Point) : Prop :=
  -268435456 < point.x ∧ point.x < 268435456 ∧ -268435456 < point.y ∧ point.y < 268435456

def steps (start stop : Point) : Nat :=
  max (stop.x - start.x).natAbs (stop.y - start.y).natAbs

theorem slope_side {first last : Int} (lower : -268435456 < first ∧ -268435456 < last)
    (upper : first < 268435456 ∧ last < 268435456) (far direction : Int)
    (isFar : far = if wrap32 (last - first) < 0 then wrap32 (-wrap32 (last - first))
      else wrap32 (last - first))
    (isDirection : direction = if 0 < wrap32 (last - first) then 1 else -1) :
    far = (last - first).natAbs ∧ far < 536870912 ∧ (direction = 1 ∨ direction = -1) ∧
      first + direction * far = last := by
  have is : wrap32 (last - first) = last - first := wrap32_eq (by omega) (by omega)
  have isNeg : wrap32 (-(last - first)) = -(last - first) := wrap32_eq (by omega) (by omega)
  rw [is, isNeg] at isFar
  rw [is] at isDirection
  by_cases forth : 0 < last - first
  · rw [if_pos forth] at isDirection
    rw [if_neg (by omega)] at isFar
    subst isDirection isFar
    omega
  · rw [if_neg forth] at isDirection
    subst isDirection
    split at isFar
    · subst isFar
      omega
    · subst isFar
      omega

variable {start stop : Point}

theorem slope_straight (small : start.Small) (small_stop : stop.Small) :
    Straight (slope start stop) start stop ∧ (slope start stop).dx = (stop.x - start.x).natAbs ∧
      (slope start stop).dy = (stop.y - start.y).natAbs := by
  obtain ⟨lowX, highX, lowY, highY⟩ := small
  obtain ⟨lowX', highX', lowY', highY'⟩ := small_stop
  obtain ⟨dx, far, sx, x⟩ := slope_side ⟨lowX, lowX'⟩ ⟨highX, highX'⟩ (slope start stop).dx
    (slope start stop).sx rfl rfl
  obtain ⟨dy, high, sy, y⟩ := slope_side ⟨lowY, lowY'⟩ ⟨highY, highY'⟩ (slope start stop).dy
    (slope start stop).sy rfl rfl
  exact ⟨⟨⟨by omega, far⟩, ⟨by omega, high⟩, sx, sy, x, y⟩, dx, dy⟩

/-- A step where nothing overflows. -/
theorem Slope.step_eq {line : Slope} (straight : Straight line start stop) {pen : Pen}
    (x : -1073741824 < pen.x ∧ pen.x < 1073741824) (y : -1073741824 < pen.y ∧ pen.y < 1073741824)
    (err : -1073741824 < pen.err ∧ pen.err < 1073741824) :
    line.step pen =
      { x := pen.x + if -line.dy < 2 * pen.err then line.sx else 0
        y := pen.y + if 2 * pen.err < line.dx then line.sy else 0
        err := pen.err - (if -line.dy < 2 * pen.err then line.dy else 0) +
          if 2 * pen.err < line.dx then line.dx else 0 } := by
  have dx := straight.dx
  have dy := straight.dy
  have sx := straight.sx
  have sy := straight.sy
  have isDy : wrap32 (-line.dy) = -line.dy := wrap32_eq (by omega) (by omega)
  have double : wrap32 (2 * pen.err) = 2 * pen.err := wrap32_eq (by omega) (by omega)
  have right : wrap32 (pen.x + line.sx) = pen.x + line.sx := wrap32_eq (by omega) (by omega)
  have down : wrap32 (pen.y + line.sy) = pen.y + line.sy := wrap32_eq (by omega) (by omega)
  have less : wrap32 (pen.err - line.dy) = pen.err - line.dy := wrap32_eq (by omega) (by omega)
  have more : wrap32 (pen.err + line.dx) = pen.err + line.dx := wrap32_eq (by omega) (by omega)
  have both : wrap32 (pen.err - line.dy + line.dx) = pen.err - line.dy + line.dx :=
    wrap32_eq (by omega) (by omega)
  rw [Slope.step, isDy, double]
  by_cases turnsX : -line.dy < 2 * pen.err
  · rw [if_pos turnsX, if_pos turnsX, if_pos turnsX]
    dsimp only
    rw [right, less, down, both]
    by_cases turnsY : 2 * pen.err < line.dx
    · rw [if_pos turnsY, if_pos turnsY, if_pos turnsY]
    · rw [if_neg turnsY, if_neg turnsY, if_neg turnsY, Int.add_zero, Int.add_zero]
  · rw [if_neg turnsX, if_neg turnsX, if_neg turnsX, down, more]
    by_cases turnsY : 2 * pen.err < line.dx
    · rw [if_pos turnsY, if_pos turnsY, if_pos turnsY, Int.add_zero, Int.sub_zero]
    · rw [if_neg turnsY, if_neg turnsY, if_neg turnsY, Int.add_zero, Int.add_zero, Int.sub_zero,
        Int.add_zero]

/-- Where the pen is after some turns. -/
inductive Track (line : Slope) (start : Point) (turn : Int) (pen : Pen) : Prop
  | flat (j : Int) (within : line.dy ≤ line.dx) (x : pen.x = start.x + line.sx * turn)
      (y : pen.y = start.y + line.sy * j) (lead : Lead line.dx line.dy turn j pen.err)
  | steep (i : Int) (within : line.dx < line.dy) (x : pen.x = start.x + line.sx * i)
      (y : pen.y = start.y + line.sy * turn) (lead : Lead line.dy line.dx turn i (-pen.err))

variable {line : Slope} {turn : Int} {pen : Pen}

theorem Lead.minor_le {long short turn minor err : Int} (lead : Lead long short turn minor err)
    (positive : 0 < long) (nonneg : 0 ≤ short) (before : turn ≤ long) : minor ≤ short := by
  have upper := lead.upper
  rw [lead.is] at upper
  by_contra beyond
  have far : short + 1 ≤ minor := by omega
  have more := Int.mul_le_mul_of_nonneg_right far positive.le
  have less := Int.mul_le_mul_of_nonneg_right before nonneg
  nlinarith

/-- Nothing has run out of the range of an `int`. -/
theorem Track.bounds (track : Track line start turn pen) (straight : Straight line start stop)
    (small : start.Small) (nonneg : 0 ≤ turn) (before : turn ≤ max line.dx line.dy)
    (some : 0 < max line.dx line.dy) :
    (-1073741824 < pen.x ∧ pen.x < 1073741824) ∧ (-1073741824 < pen.y ∧ pen.y < 1073741824) ∧
      -1073741824 < pen.err ∧ pen.err < 1073741824 := by
  have dx := straight.dx
  have dy := straight.dy
  obtain ⟨lowX, highX, lowY, highY⟩ := small
  have side {first direction distance : Int} (low : -268435456 < first) (high : first < 268435456)
      (unit : direction = 1 ∨ direction = -1) (positive : 0 ≤ distance)
      (near : distance < 536870912) : -1073741824 < first + direction * distance ∧
        first + direction * distance < 1073741824 := by
    obtain rfl | rfl := unit
    · omega
    · omega
  cases track with
  | flat j within x y lead =>
      have minor := lead.minor_le (by omega) dy.1 (by omega)
      have lower := lead.lower
      have upper := lead.upper
      have j_nonneg := lead.nonneg
      rw [x, y]
      exact ⟨side lowX highX straight.sx nonneg (by omega),
        side lowY highY straight.sy j_nonneg (by omega), by omega, by omega⟩
  | steep i within x y lead =>
      have minor := lead.minor_le (by omega) dx.1 (by omega)
      have lower := lead.lower
      have upper := lead.upper
      have i_nonneg := lead.nonneg
      rw [x, y]
      exact ⟨side lowX highX straight.sx i_nonneg (by omega),
        side lowY highY straight.sy nonneg (by omega), by omega, by omega⟩

theorem Track.next (track : Track line start turn pen) (straight : Straight line start stop)
    (small : start.Small) (nonneg : 0 ≤ turn) (before : turn ≤ max line.dx line.dy)
    (some : 0 < max line.dx line.dy) : Track line start (turn + 1) (line.step pen) := by
  obtain ⟨x_bounds, y_bounds, err_bounds⟩ := track.bounds straight small nonneg before some
  have dx := straight.dx
  have dy := straight.dy
  rw [Slope.step_eq straight x_bounds y_bounds err_bounds]
  cases track with
  | flat j within x y lead =>
      have turns : -line.dy < 2 * pen.err := lead.lower
      rw [if_pos turns, if_pos turns]
      refine .flat _ within ?_ ?_ (lead.next dy.1 within)
      · dsimp only
        rw [x]
        ring
      · dsimp only
        rw [y]
        split
        · ring
        · ring
  | steep i within x y lead =>
      have turns : 2 * pen.err < line.dx := by
        have lower := lead.lower
        omega
      have swapped : 2 * -pen.err < line.dy ↔ -line.dy < 2 * pen.err := by omega
      have next := lead.next dx.1 within.le
      rw [if_pos turns, if_pos turns]
      simp only [swapped] at next
      refine .steep (i + if -line.dy < 2 * pen.err then 1 else 0) within ?_ ?_ ?_
      · dsimp only
        rw [x]
        split
        · ring
        · ring
      · dsimp only
        rw [y]
        ring
      · convert next using 1
        split
        · ring
        · ring

theorem Track.ends_iff (track : Track line start turn pen) (straight : Straight line start stop)
    (some : 0 < max line.dx line.dy) :
    pen.x = stop.x ∧ pen.y = stop.y ↔ turn = max line.dx line.dy := by
  have dx := straight.dx
  have dy := straight.dy
  have x_stop := straight.x
  have y_stop := straight.y
  have same {first direction distance far : Int} (unit : direction = 1 ∨ direction = -1)
      (met : first + direction * distance = first + direction * far) : distance = far := by
    obtain rfl | rfl := unit
    · omega
    · omega
  cases track with
  | flat j within x y lead =>
      rw [max_eq_left within] at some ⊢
      constructor
      · rintro ⟨at_x, -⟩
        exact same straight.sx (x.symm.trans (at_x.trans x_stop.symm))
      · rintro rfl
        rw [x, y, lead.minor_eq some dy.1]
        exact ⟨x_stop, y_stop⟩
  | steep i within x y lead =>
      rw [max_eq_right within.le] at some ⊢
      constructor
      · rintro ⟨-, at_y⟩
        exact same straight.sy (y.symm.trans (at_y.trans y_stop.symm))
      · rintro rfl
        rw [x, y, lead.minor_eq some dx.1]
        exact ⟨x_stop, y_stop⟩

/-- The pen at the start of the loop. -/
def Slope.firstPen (line : Slope) (start : Point) : Pen :=
  { start with err := wrap32 (line.dx - line.dy) }

theorem Straight.track (straight : Straight line start stop) (some : 0 < max line.dx line.dy) :
    Track line start 0 (line.firstPen start) := by
  have dx := straight.dx
  have dy := straight.dy
  have err : (line.firstPen start).err = line.dx - line.dy := wrap32_eq (by omega) (by omega)
  have stays (first direction : Int) : first = first + direction * 0 := by ring
  by_cases within : line.dy ≤ line.dx
  · refine .flat 0 within (stays _ _) (stays _ _) ?_
    rw [err]
    exact Lead.start (by omega) within dy.1
  · refine .steep 0 (by omega) (stays _ _) (stays _ _) ?_
    rw [err, neg_sub]
    exact Lead.start (by omega) (by omega) dx.1

theorem Straight.tracks (straight : Straight line start stop) (small : start.Small)
    (some : 0 < max line.dx line.dy) (turn : Nat) (before : turn ≤ max line.dx line.dy) :
    Track line start turn (line.step^[turn] (line.firstPen start)) := by
  induction turn with
  | zero => exact straight.track some
  | succ turn ih =>
      rw [Function.iterate_succ_apply', Nat.cast_succ]
      rw [Nat.cast_succ] at before
      exact (ih (by omega)).next straight small (Int.natCast_nonneg turn) (by omega) some

/-- Neighbours on the way are at most one apart in each direction. -/
def Adjacent (first second : Point) : Prop :=
  (second.x - first.x).natAbs ≤ 1 ∧ (second.y - first.y).natAbs ≤ 1

theorem Track.adjacent (track : Track line start turn pen) (straight : Straight line start stop)
    (small : start.Small) (nonneg : 0 ≤ turn) (before : turn ≤ max line.dx line.dy)
    (some : 0 < max line.dx line.dy) : Adjacent pen.toPoint (line.step pen).toPoint := by
  obtain ⟨x_bounds, y_bounds, err_bounds⟩ := track.bounds straight small nonneg before some
  have sx := straight.sx
  have sy := straight.sy
  rw [Slope.step_eq straight x_bounds y_bounds err_bounds]
  constructor
  · dsimp only
    split
    · omega
    · omega
  · dsimp only
    split
    · omega
    · omega

/-- The points up to a turn. -/
def Slope.visited (line : Slope) (pen : Pen) (turns : Nat) : List Point :=
  (List.range (turns + 1)).map fun turn => (line.step^[turn] pen).toPoint

theorem Slope.visited_succ (line : Slope) (pen : Pen) (turns : Nat) :
    line.visited pen (turns + 1) = pen.toPoint :: line.visited (line.step pen) turns := by
  rw [Slope.visited, List.range_succ_eq_map, List.map_cons, List.map_map]
  rfl

namespace Framebuffer

variable {color : Nat}

theorem lineLoop_eq (fb : Framebuffer) (pen : Pen) (turns : Nat)
    (before : ∀ turn < turns,
      ¬ ((line.step^[turn] pen).x = stop.x ∧ (line.step^[turn] pen).y = stop.y))
    (last : (line.step^[turns] pen).x = stop.x ∧ (line.step^[turns] pen).y = stop.y)
    (fuel : Nat) :
    lineLoop line stop color fuel fb pen =
      if turns < fuel then
        some (line.visited pen turns, (line.visited pen turns).foldl (plot color) fb)
      else none := by
  induction turns generalizing fb pen fuel with
  | zero =>
      cases fuel with
      | zero => rfl
      | succ fuel =>
          rw [lineLoop, if_pos (Nat.succ_pos fuel)]
          exact if_pos last
  | succ turns ih =>
      cases fuel with
      | zero => rfl
      | succ fuel =>
          have rest := ih (fb.plot color pen.toPoint) (line.step pen)
            (fun turn below => before (turn + 1) (Nat.succ_lt_succ below)) last fuel
          have onward : ¬ (pen.x = stop.x ∧ pen.y = stop.y) := before 0 (Nat.succ_pos turns)
          rw [lineLoop, line.visited_succ, List.foldl_cons, if_neg onward, rest]
          by_cases enough : turns < fuel
          · rw [if_pos enough, if_pos (Nat.succ_lt_succ enough)]
            rfl
          · rw [if_neg enough, if_neg (by omega)]
            rfl

theorem plot_with (fb : Framebuffer) (backBuffer : Nat → Nat) (point : Point) :
    plot color { fb with backBuffer := backBuffer } point =
      { fb with backBuffer := fun i =>
          if fb.OnScreen point ∧ fb.pixel point = i then color else backBuffer i } := by
  by_cases shown : fb.OnScreen point
  · refine Eq.trans (if_pos shown) ?_
    congr 1
    funext i
    refine if_congr ?_ rfl rfl
    rw [and_iff_right shown]
    exact eq_comm
  · refine Eq.trans (if_neg shown) ?_
    congr 1
    funext i
    rw [if_neg fun both => shown both.1]

/-- The pixels that are set are those of the points on the screen. -/
theorem plotAll (fb : Framebuffer) (points : List Point) :
    points.foldl (plot color) fb =
      { fb with backBuffer := fun i =>
          if ∃ point ∈ points, fb.OnScreen point ∧ fb.pixel point = i then color
          else fb.backBuffer i } := by
  induction points using List.reverseRecOn with
  | nil => simp
  | append_singleton points point ih =>
      rw [List.foldl_concat, ih, plot_with]
      congr 1
      funext i
      rw [← ite_or]
      refine if_congr ?_ rfl rfl
      simp only [List.mem_append, List.mem_singleton, or_and_right, exists_or, exists_eq_left]
      exact or_comm

/-- A line is drawn in as many steps as its longer side has, from point to neighbouring point, and
the points of it that are on the screen are the pixels that are set. -/
theorem fbDrawLine_draws (fb : Framebuffer) (available : fb.available = true) (start stop : Point)
    (small : start.Small) (small_stop : stop.Small) (color : Nat) :
    ∃ visited : List Point, visited.length = steps start stop + 1 ∧
      visited.head? = some start ∧ visited.getLast? = some stop ∧ visited.IsChain Adjacent ∧
      ∀ fuel, fbDrawLine fuel fb start stop color =
        if steps start stop < fuel then
          some (visited,
            { fb with backBuffer := fun i =>
                if ∃ point ∈ visited, fb.OnScreen point ∧ fb.pixel point = i then color
                else fb.backBuffer i })
        else none := by
  obtain ⟨straight, dx, dy⟩ := slope_straight small small_stop
  generalize isLine : slope start stop = line at straight dx dy
  have longer : (steps start stop : Int) = max line.dx line.dy := by
    rw [steps, dx, dy]
    omega
  have isStop {point : Point} (met : point.x = stop.x ∧ point.y = stop.y) : point = stop := by
    cases point
    cases stop
    cases met.1
    cases met.2
    rfl
  have ends (turn : Nat) (within : turn ≤ steps start stop) :
      (line.step^[turn] (line.firstPen start)).x = stop.x ∧
        (line.step^[turn] (line.firstPen start)).y = stop.y ↔ turn = steps start stop := by
    by_cases some : 0 < max line.dx line.dy
    · have track := straight.tracks small some turn (by omega)
      rw [track.ends_iff straight some]
      omega
    · have dx_zero : line.dx = 0 := by omega
      have dy_zero : line.dy = 0 := by omega
      have none : turn = 0 := by omega
      have x := straight.x
      have y := straight.y
      rw [dx_zero, Int.mul_zero, Int.add_zero] at x
      rw [dy_zero, Int.mul_zero, Int.add_zero] at y
      subst none
      exact iff_of_true ⟨x, y⟩ (by omega)
  have last := (ends (steps start stop) (Nat.le_refl _)).mpr rfl
  refine ⟨line.visited (line.firstPen start) (steps start stop), ?_, ?_, ?_, ?_, fun fuel => ?_⟩
  · rw [Slope.visited, List.length_map, List.length_range]
  · rw [Slope.visited, List.range_succ_eq_map]
    rfl
  · rw [Slope.visited, List.range_succ, List.map_append, List.map_singleton,
      List.getLast?_concat]
    exact congrArg some (isStop last)
  · rw [Slope.visited, List.isChain_map, List.isChain_range_succ]
    intro turn below
    rw [Nat.succ_eq_add_one, Function.iterate_succ_apply']
    exact (straight.tracks small (by omega) turn (by omega)).adjacent straight small
      (Int.natCast_nonneg turn) (by omega) (by omega)
  · have loop := @lineLoop_eq stop line color fb (line.firstPen start) (steps start stop)
      (fun turn below met => (ends turn below.le).mp met |>.not_lt below) last fuel
    rw [fbDrawLine, if_neg (by rw [available]; decide), isLine, ← plotAll]
    exact loop

def vga : Framebuffer where
  available := true
  width := 640
  height := 480
  pitch := 2560
  backBuffer := fun _ => 0

theorem fbDrawLine_draws_diagonal : ∃ visited : List Point, visited.length = 4 ∧
    visited.head? = some ⟨-1, 2⟩ ∧ visited.getLast? = some ⟨2, 0⟩ ∧ visited.IsChain Adjacent ∧
    (fbDrawLine 4 vga ⟨-1, 2⟩ ⟨2, 0⟩ 7).isSome := by
  obtain ⟨visited, length, head, last, chain, drawn⟩ := fbDrawLine_draws vga rfl ⟨-1, 2⟩ ⟨2, 0⟩
    ⟨by decide, by decide, by decide, by decide⟩ ⟨by decide, by decide, by decide, by decide⟩ 7
  refine ⟨visited, length, head, last, chain, ?_⟩
  rw [drawn 4]
  rfl

/-- Without a framebuffer nothing is drawn. -/
theorem fbDrawLine_unavailable (fb : Framebuffer) (unavailable : fb.available = false)
    (fuel : Nat) (start stop : Point) : fbDrawLine fuel fb start stop color = some ([], fb) :=
  if_pos unavailable

end Framebuffer

end ZurichOS
