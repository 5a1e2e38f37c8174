import Cubiboot.Foundations.ArrayScan
import Mathlib.Algebra.Order.Field.Rat
import Mathlib.Tactic.NormNum

/-!
# The lines of the grid

`grid.c`: the rows of the menu, where they are on the screen and the movements
that are still pending for them.  `f32` is read as the exact rationals.

What the loops only count or print is left out.

`grid_dispatch_navigate_up` and `grid_dispatch_navigate_down` are loops over the lines
that carry what they have found so far: whether a line has entered the screen, and
whether one has left it. A movement is refused where another line still moves the other
way; a line that enters is put at the edge of the screen and moves in from there. A
frame moves every line by its share of what is pending, and drops what is left of a
movement once that is less than `0.1`.
-/

namespace Cubiboot
namespace Grid

open ArrayScan

/-- `DRAW_BOUND_TOP`. -/
abbrev drawBoundTop : ℚ := 104

/-- `DRAW_BOUND_BOTTOM`. -/
abbrev drawBoundBottom : ℚ := 328

/-- `DRAW_OFFSET_Y`, and the constant `offset_y`. -/
abbrev offsetY : ℚ := 56

/-- `DRAW_TOTAL_ROWS`. -/
abbrev drawTotalRows : Int := 4

/-- `MAX_ANIMS`. -/
abbrev maxAnims : Int := 100000

/-- `START_LINE`. -/
abbrev startLine : Int := 0

/-- `MAX_LINES`. -/
abbrev maxLines : Nat := 240

/-- `ANIM_DIRECTION_UP` and `ANIM_DIRECTION_DOWN`. -/
inductive AnimDirection where
  | up
  | down
deriving DecidableEq, Repr

/-- `line_backing_t`, with its `anim_list_t`. -/
structure LineBacking where
  pendingCount : Int
  direction : AnimDirection
  remaining : ℚ
  rawPositionY : ℚ
  transparency : ℚ
  movingOut : Bool
  movingIn : Bool
deriving DecidableEq

/-- A cleared line. -/
def LineBacking.zero : LineBacking where
  pendingCount := 0
  direction := .up
  remaining := 0
  rawPositionY := 0
  transparency := 0
  movingOut := false
  movingIn := false

/-- The variables of `grid.c`, and those of the menu that it shares. -/
structure GridState where
  gridSetupDone : Bool
  browserLines : Int → LineBacking
  numberOfLines : Int
  topLineNum : Int
  selectedSlot : Int

/-- `get_position_after`. -/
def getPositionAfter (l : LineBacking) : ℚ :=
  match l.direction with
  | .up => l.rawPositionY - l.remaining
  | .down => l.rawPositionY + l.remaining

/-- What `grid_setup_func` makes of a line of the list. -/
def gridSetupLine (lineNum : Int) : LineBacking :=
  { LineBacking.zero with
    rawPositionY := drawBoundTop - offsetY * startLine + lineNum * offsetY
    transparency :=
      if lineNum < startLine ∨ lineNum ≥ startLine + drawTotalRows then 0 else 1 }

/-- `grid_setup_func`. -/
def gridSetupFunc (s : GridState) : GridState :=
  { s with
    gridSetupDone := true
    browserLines := fun i =>
      if 0 ≤ i ∧ i < s.numberOfLines then
        gridSetupLine i
      else if 0 ≤ i ∧ i < maxLines then
        .zero
      else
        s.browserLines i
    topLineNum := startLine
    selectedSlot := startLine * 8 }

/-- `gm_setup_grid`. -/
def gmSetupGrid (s : GridState) (lineCount : Nat) (initial : Bool) : GridState :=
  let lines : Int := ((lineCount + 7) / 8 : Nat)
  let s := { s with numberOfLines := if lines < 4 then 4 else lines }
  if initial then gridSetupFunc s else s

/-- `grid_add_anim`. -/
def gridAddAnim
    (l : LineBacking) (direction : AnimDirection) (distance : ℚ) : LineBacking :=
  let l :=
    if l.pendingCount > 0 ∧ l.direction ≠ direction then
      { l with pendingCount := 0 }
    else
      l
  if l.pendingCount < maxAnims then
    { l with
      pendingCount := l.pendingCount + 1
      remaining := l.remaining + distance
      direction := direction }
  else
    l

/-- A line of the list has a movement pending in this direction. -/
def GridState.hasPending (s : GridState) (direction : AnimDirection) : Bool :=
  (List.range s.numberOfLines.toNat).any fun i =>
    decide ((s.browserLines i).pendingCount > 0 ∧
      (s.browserLines i).direction = direction)

/-- `found_move_in` and `found_move_out`. -/
structure Found where
  moveIn : Bool
  moveOut : Bool
deriving DecidableEq

/-- The first half of a pass of `grid_dispatch_navigate_up`: the movement. -/
def upMove (found : Found) (l : LineBacking) : Found × LineBacking :=
  let partialPositionY := getPositionAfter l
  if found.moveIn = false ∧ partialPositionY + offsetY + 10 ≥ drawBoundTop ∧
      partialPositionY - 10 < drawBoundTop then
    let animDistance := offsetY * (1 / 2)
    ({ found with moveIn := true },
      gridAddAnim
        { l with
          rawPositionY := drawBoundTop - animDistance
          transparency := 1 / 4
          movingIn := true
          movingOut := false }
        .down animDistance)
  else if partialPositionY < drawBoundBottom + offsetY - 10 ∧
      partialPositionY ≥ drawBoundTop - offsetY + 10 then
    (found, gridAddAnim l .down offsetY)
  else
    (found, { l with rawPositionY := l.rawPositionY + offsetY })

/-- The second half: the line that leaves the screen. -/
def upLeave (found : Found) (l : LineBacking) : Found × LineBacking :=
  let endPositionY := getPositionAfter l
  if found.moveOut = false ∧ endPositionY + 10 ≥ drawBoundBottom ∧
      endPositionY - offsetY < drawBoundBottom then
    ({ found with moveOut := true },
      { l with transparency := 999 / 1000, movingOut := true, movingIn := false })
  else
    (found, l)

/-- One pass of the loop of `grid_dispatch_navigate_up`. -/
def upLine (found : Found) (l : LineBacking) : Found × LineBacking :=
  let r := upMove found l
  upLeave r.1 r.2

/-- `grid_dispatch_navigate_up`: `none` is `GRID_MOVE_FAIL`. -/
def gridDispatchNavigateUp (s : GridState) : Option GridState :=
  if s.hasPending .up then
    none
  else
    some
      { s with
        browserLines :=
          (scan upLine s.numberOfLines.toNat ⟨false, false⟩ s.browserLines).2 }

/-- The first half of a pass of `grid_dispatch_navigate_down`: the movement. -/
def downMove (found : Found) (l : LineBacking) : Found × LineBacking :=
  let partialPositionY := getPositionAfter l
  if found.moveIn = false ∧ partialPositionY + 10 ≥ drawBoundBottom ∧
      partialPositionY - offsetY - 10 < drawBoundBottom then
    let animDistance := offsetY * (1 / 2)
    ({ found with moveIn := true },
      gridAddAnim
        { l with
          rawPositionY := drawBoundBottom - animDistance
          transparency := 1 / 4
          movingIn := true
          movingOut := false }
        .up animDistance)
  else if partialPositionY < drawBoundBottom + offsetY - 10 ∧
      partialPositionY ≥ drawBoundTop - offsetY + 10 then
    (found, gridAddAnim l .up offsetY)
  else
    (found, { l with rawPositionY := l.rawPositionY - offsetY })

/-- The second half: the line that leaves the screen. -/
def downLeave (found : Found) (l : LineBacking) : Found × LineBacking :=
  let endPositionY := getPositionAfter l
  if found.moveOut = false ∧ endPositionY + offsetY + 10 ≥ drawBoundTop ∧
      endPositionY < drawBoundTop then
    ({ found with moveOut := true },
      { l with transparency := 999 / 1000, movingOut := true, movingIn := false })
  else
    (found, l)

/-- One pass of the last loop of `grid_dispatch_navigate_down`. -/
def downLine (found : Found) (l : LineBacking) : Found × LineBacking :=
  let r := downMove found l
  downLeave r.1 r.2

/-- The fading of the lines that were leaving the screen. -/
def finishMove (l : LineBacking) : LineBacking :=
  if l.movingOut then { l with transparency := l.transparency * (1 / 10) } else l

/-- `grid_dispatch_navigate_down`: `none` is `GRID_MOVE_FAIL`. -/
def gridDispatchNavigateDown (s : GridState) : Option GridState :=
  if s.hasPending .down then
    none
  else
    let n := s.numberOfLines.toNat
    some
      { s with
        browserLines :=
          (scan downLine n ⟨false, false⟩
            (eachBelow n finishMove s.browserLines)).2 }

/-- `multiplier` of `grid_update_icon_positions`. -/
def frameMultiplier (l : LineBacking) : ℚ :=
  if l.pendingCount ≠ 0 then
    if 6 + (l.pendingCount : ℚ) > 8 then 8 else 6 + l.pendingCount
  else
    6

/-- The fading of a line in a frame. -/
def frameFade (l : LineBacking) : LineBacking :=
  if l.transparency < 1 then
    let delta := 1 / 100 * frameMultiplier l
    let l :=
      if l.movingIn then
        { l with transparency := min (l.transparency + delta * (4 / 10)) 1 }
      else
        l
    if l.movingOut then
      let transparency := l.transparency - delta * (8 / 10)
      if transparency < 0 then
        { l with transparency := 0, movingOut := false }
      else
        { l with transparency := transparency }
    else
      l
  else
    l

/-- The movement of a line in a frame. -/
def frameMove (multiplier : ℚ) (l : LineBacking) : LineBacking :=
  if l.pendingCount ≠ 0 then
    let delta := min (offsetY * (1 / 100) * multiplier / (15 / 10)) l.remaining
    let l := { l with remaining := l.remaining - delta }
    let l :=
      match l.direction with
      | .up => { l with rawPositionY := l.rawPositionY - delta }
      | .down => { l with rawPositionY := l.rawPositionY + delta }
    if l.remaining < 1 / 10 then
      { l with pendingCount := l.pendingCount - 1, remaining := 0 }
    else
      l
  else
    l

/-- One pass of the last loop of `grid_update_icon_positions`. -/
def frameLine (l : LineBacking) : LineBacking :=
  frameMove (frameMultiplier l) (frameFade l)

/-- `grid_update_icon_positions`. -/
def gridUpdateIconPositions (s : GridState) : GridState :=
  if s.gridSetupDone then
    { s with
      browserLines := eachBelow s.numberOfLines.toNat frameLine s.browserLines }
  else
    s

end Grid
end Cubiboot
