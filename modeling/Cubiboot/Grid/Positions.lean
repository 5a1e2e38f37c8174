import Cubiboot.Grid.Lines
import Mathlib.Data.Rat.Cast.Order
import Mathlib.Tactic.Linarith
import Mathlib.Tactic.Ring
import Mathlib.Tactic.FieldSimp

/-!
# Where the lines settle

Once everything that is pending has been carried out, line `L` of the list is
at `104 + 56 * (L - top)`.  Two things make this exact.  A line that enters the
screen has nothing pending, because lines that are moved up stay at or above the
last row and lines that are moved down at or below the first.  And what remains
of a movement is a multiple of `28 / 75`, so the test against `0.1` only ever
drops nothing.

Results: `LineInv.animated`, one more movement of a line; `upMove_inv` and
`downMove_inv`, the bodies of the two loops; `frameLine_inv`, a frame; and
`LineInv.few`, that there is always room for another movement.
-/

namespace Cubiboot
namespace Grid

open ArrayScan

/-- A line of the list when the top line is `top`. -/
structure LineInv (top lineNum : Int) (l : LineBacking) : Prop where
  position : getPositionAfter l = ((104 + 56 * (lineNum - top) : Int) : ℚ)
  count : 0 ≤ l.pendingCount
  rest : l.pendingCount = 0 → l.remaining = 0
  grain : ∃ m : ℕ, l.remaining = 28 * m / 75
  up : 0 < l.pendingCount → l.direction = .up →
    lineNum - top ≤ 3 ∧ l.pendingCount ≤ 4 - (lineNum - top) ∧ l.pendingCount ≤ 5
  down : 0 < l.pendingCount → l.direction = .down →
    0 ≤ lineNum - top ∧ l.pendingCount ≤ 1 + (lineNum - top) ∧ l.pendingCount ≤ 6

/-- What the invariant does not look at. -/
structure SameAnims (l l' : LineBacking) : Prop where
  count : l'.pendingCount = l.pendingCount
  direction : l'.direction = l.direction
  remaining : l'.remaining = l.remaining
  raw : l'.rawPositionY = l.rawPositionY

variable {top lineNum : Int} {l l' : LineBacking} {found : Found}

theorem SameAnims.position
    (h : SameAnims l l') : getPositionAfter l' = getPositionAfter l := by
  simp only [getPositionAfter, h.direction, h.remaining, h.raw]

theorem LineInv.same
    (h : LineInv top lineNum l) (hsame : SameAnims l l') :
    LineInv top lineNum l' := by
  constructor
  · rw [hsame.position]
    exact h.position
  · rw [hsame.count]
    exact h.count
  · rw [hsame.count, hsame.remaining]
    exact h.rest
  · rw [hsame.remaining]
    exact h.grain
  · rw [hsame.count, hsame.direction]
    exact h.up
  · rw [hsame.count, hsame.direction]
    exact h.down

/-- Nothing is pending in this direction. -/
def NonePending (direction : AnimDirection) (l : LineBacking) : Prop :=
  ¬ (l.pendingCount > 0 ∧ l.direction = direction)

/-- The other of the two directions. -/
def AnimDirection.other : AnimDirection → AnimDirection
  | .up => .down
  | .down => .up

theorem NonePending.congr
    {l' : LineBacking} {direction : AnimDirection} (h : NonePending direction l)
    (hcount : l'.pendingCount = l.pendingCount) (hdirection : l'.direction = l.direction) :
    NonePending direction l' := by
  rw [NonePending, hcount, hdirection]
  exact h

theorem NonePending.same
    {l' : LineBacking} {direction : AnimDirection} (h : NonePending direction l)
    (hsame : SameAnims l l') : NonePending direction l' :=
  h.congr hsame.count hsame.direction

/-- What is pending goes this way, when nothing goes the other way. -/
theorem NonePending.keeps
    {direction : AnimDirection} (h : NonePending direction.other l) :
    ¬ (l.pendingCount > 0 ∧ l.direction ≠ direction) := by
  rintro ⟨hpos, hne⟩
  refine h ⟨hpos, ?_⟩
  cases hl : l.direction <;> cases direction <;> simp_all [AnimDirection.other]

/-- An animation is added without any being cleared. -/
theorem gridAddAnim_eq
    {direction : AnimDirection} (hnone : NonePending direction.other l)
    (hmax : l.pendingCount < maxAnims) (distance : ℚ) :
    gridAddAnim l direction distance =
      { l with
        pendingCount := l.pendingCount + 1
        remaining := l.remaining + distance
        direction := direction } := by
  simp only [gridAddAnim, if_neg hnone.keeps, if_pos hmax]

/-- What remains is a multiple of `28 / 75` after `28` more. -/
theorem grain_add
    {r : ℚ} (h : ∃ m : ℕ, r = 28 * m / 75) (k : ℕ) :
    ∃ m : ℕ, r + 28 * k = 28 * m / 75 := by
  obtain ⟨m, hm⟩ := h
  refine ⟨m + 75 * k, ?_⟩
  rw [hm]
  push_cast
  ring

/-- Positions are whole numbers of pixels. -/
theorem LineInv.le_position_iff
    (h : LineInv top lineNum l) (c : Int) :
    (c : ℚ) ≤ getPositionAfter l ↔ c ≤ 104 + 56 * (lineNum - top) := by
  rw [h.position]
  exact Int.cast_le

theorem LineInv.position_lt_iff
    (h : LineInv top lineNum l) (c : Int) :
    getPositionAfter l < (c : ℚ) ↔ 104 + 56 * (lineNum - top) < c := by
  rw [h.position]
  exact Int.cast_lt

theorem LineInv.position_le_iff
    (h : LineInv top lineNum l) (c : Int) :
    getPositionAfter l ≤ (c : ℚ) ↔ 104 + 56 * (lineNum - top) ≤ c := by
  rw [h.position]
  exact Int.cast_le

/-- The lines that move are those on the screen, and the one below it. -/
theorem LineInv.visible_iff
    (h : LineInv top lineNum l) :
    (getPositionAfter l < drawBoundBottom + offsetY - 10 ∧
        getPositionAfter l ≥ drawBoundTop - offsetY + 10) ↔
      0 ≤ lineNum - top ∧ lineNum - top ≤ 4 := by
  have hhigh := h.position_lt_iff 374
  have hlow := h.le_position_iff 58
  push_cast at hhigh hlow
  have htop : drawBoundTop - offsetY + 10 = 58 := by norm_num
  have hbottom : drawBoundBottom + offsetY - 10 = 374 := by norm_num
  rw [htop, hbottom, ge_iff_le, hhigh, hlow]
  omega

/-- How the number of the top line changes when the lines move in a direction. -/
def AnimDirection.step : AnimDirection → Int
  | .up => 1
  | .down => -1

/-- The lines a move in this direction may animate. -/
def Reaches (direction : AnimDirection) (top lineNum : Int) : Prop :=
  match direction with
  | .up => 0 ≤ lineNum - top ∧ lineNum - top ≤ 4
  | .down => -1 ≤ lineNum - top ∧ lineNum - top ≤ 4

/-- A line never has too much pending. -/
theorem LineInv.few
    (h : LineInv top lineNum l) : l.pendingCount < maxAnims := by
  simp only [maxAnims] at *
  rcases Int.lt_or_le 0 l.pendingCount with hpos | hzero
  · cases hdir : l.direction with
    | up =>
        have hup := h.up hpos hdir
        omega
    | down =>
        have hdown := h.down hpos hdir
        omega
  · omega

/-- A line off the screen is moved at once. -/
theorem LineInv.shifted
    (h : LineInv top lineNum l) (direction : AnimDirection)
    (hnone : NonePending direction.other l) :
    LineInv (top + direction.step) lineNum
      { l with rawPositionY := l.rawPositionY - direction.step * offsetY } := by
  constructor
  · have hmoved :
        getPositionAfter
            { l with rawPositionY := l.rawPositionY - direction.step * offsetY } =
          getPositionAfter l - direction.step * offsetY := by
      cases hdir : l.direction <;> simp only [getPositionAfter, hdir] <;> ring
    rw [hmoved, h.position]
    simp only [offsetY]
    push_cast
    ring
  · exact h.count
  · exact h.rest
  · exact h.grain
  · intro hpos hdir
    have hup := h.up hpos hdir
    cases direction with
    | up =>
        simp only [AnimDirection.step] at hpos ⊢
        omega
    | down => exact absurd ⟨hpos, hdir⟩ hnone
  · intro hpos hdir
    have hdown := h.down hpos hdir
    cases direction with
    | up => exact absurd ⟨hpos, hdir⟩ hnone
    | down =>
        simp only [AnimDirection.step] at hpos ⊢
        omega

/-- A line on the screen is animated by a row. -/
theorem LineInv.animated
    (h : LineInv top lineNum l) (direction : AnimDirection)
    (hnone : NonePending direction.other l)
    (hreach : Reaches direction top lineNum) :
    LineInv (top + direction.step) lineNum
      { l with
        pendingCount := l.pendingCount + 1
        remaining := l.remaining + offsetY
        direction := direction } := by
  have hcount := h.count
  have hposition := h.position
  have hgrain : ∃ m : ℕ, l.remaining + offsetY = 28 * m / 75 := by
    have hmore := grain_add h.grain 2
    norm_num at hmore
    exact hmore
  -- whatever was pending goes the same way
  have hsame : 0 < l.pendingCount → l.direction = direction := by
    intro hpos
    by_contra hne
    refine hnone ⟨hpos, ?_⟩
    cases hdir : l.direction <;> cases direction <;>
      simp_all [AnimDirection.other]
  have hrest : l.direction ≠ direction → l.remaining = 0 := by
    intro hne
    refine h.rest ?_
    by_contra hnonzero
    exact hne (hsame (by omega))
  constructor
  · simp only [getPositionAfter] at hposition ⊢
    cases direction with
    | up =>
        cases hdir : l.direction with
        | up =>
            simp only [hdir] at hposition
            simp only [AnimDirection.step, offsetY]
            push_cast at hposition ⊢
            linarith
        | down =>
            have hzero := hrest (by simp [hdir])
            simp only [hdir, hzero] at hposition
            simp only [AnimDirection.step, offsetY, hzero]
            push_cast at hposition ⊢
            linarith
    | down =>
        cases hdir : l.direction with
        | up =>
            have hzero := hrest (by simp [hdir])
            simp only [hdir, hzero] at hposition
            simp only [AnimDirection.step, offsetY, hzero]
            push_cast at hposition ⊢
            linarith
        | down =>
            simp only [hdir] at hposition
            simp only [AnimDirection.step, offsetY]
            push_cast at hposition ⊢
            linarith
  · simp only
    omega
  · intro hc
    simp only at hc
    omega
  · exact hgrain
  · intro _ hdir
    simp only at hdir
    subst hdir
    simp only [Reaches, AnimDirection.step] at hreach ⊢
    rcases Int.lt_or_le 0 l.pendingCount with hpos | hzero
    · have hup := h.up hpos (hsame hpos)
      omega
    · omega
  · intro _ hdir
    simp only at hdir
    subst hdir
    simp only [Reaches, AnimDirection.step] at hreach ⊢
    rcases Int.lt_or_le 0 l.pendingCount with hpos | hzero
    · have hdown := h.down hpos (hsame hpos)
      omega
    · omega

/-- A line that enters the screen has half a row to go. -/
theorem lineInv_entered
    {direction : AnimDirection} (hcount : l.pendingCount = 1)
    (hremaining : l.remaining = 28) (hdir : l.direction = direction)
    (hposition : getPositionAfter l = ((104 + 56 * (lineNum - top) : Int) : ℚ))
    (hreach : Reaches direction (top - direction.step) lineNum) :
    LineInv top lineNum l := by
  constructor
  · exact hposition
  · omega
  · intro hc
    omega
  · exact ⟨75, by rw [hremaining]; norm_num⟩
  · intro _ hup
    rw [hdir] at hup
    subst hup
    simp only [Reaches, AnimDirection.step] at hreach
    omega
  · intro _ hdown
    rw [hdir] at hdown
    subst hdown
    simp only [Reaches, AnimDirection.step] at hreach
    omega

/-- A line enters from below when it is the first under the last row. -/
theorem LineInv.enters_below_iff
    (h : LineInv top lineNum l)
    (hfound : found.moveIn = decide (top + 4 < lineNum)) :
    (found.moveIn = false ∧ getPositionAfter l + 10 ≥ drawBoundBottom ∧
        getPositionAfter l - offsetY - 10 < drawBoundBottom) ↔
      lineNum - top = 4 := by
  have hlow := h.le_position_iff 318
  have hhigh := h.position_lt_iff 394
  push_cast at hhigh hlow
  have hbottom : getPositionAfter l + 10 ≥ drawBoundBottom ↔
      318 ≤ getPositionAfter l := by
    constructor <;> intro hc <;> simp only [drawBoundBottom] at * <;> linarith
  have htop : getPositionAfter l - offsetY - 10 < drawBoundBottom ↔
      getPositionAfter l < 394 := by
    constructor <;> intro hc <;> simp only [drawBoundBottom, offsetY] at * <;>
      linarith
  rw [hbottom, htop, hlow, hhigh, hfound, decide_eq_false_iff_not]
  omega

/-- One line of the list moves up by a row. -/
theorem downMove_inv
    (h : LineInv top lineNum l) (hnone : NonePending .down l)
    (hfound : found.moveIn = decide (top + 4 < lineNum)) :
    (downMove found l).1.moveIn = decide (top + 4 < lineNum + 1) ∧
      LineInv (top + 1) lineNum (downMove found l).2 := by
  have henters := h.enters_below_iff hfound
  have hvisible := h.visible_iff
  have hfew := h.few
  have hcount := h.count
  have hnone' : NonePending (AnimDirection.other .up) l := hnone
  simp only [downMove]
  by_cases henter : lineNum - top = 4
  · -- what is pending upwards has already passed the last row
    have hzero : l.pendingCount = 0 := by
      by_contra hne
      have hpos : 0 < l.pendingCount := by omega
      cases hdir : l.direction with
      | up =>
          have hup := h.up hpos hdir
          omega
      | down => exact hnone ⟨hpos, hdir⟩
    have hrest := h.rest hzero
    rw [if_pos (henters.2 henter)]
    simp only
    rw [gridAddAnim_eq (by simp [NonePending, hzero])
      (by simp only [hzero]; decide)]
    refine ⟨?_, lineInv_entered ?_ ?_ rfl ?_ ?_⟩
    · exact (decide_eq_true (by omega)).symm
    · simp only [hzero]
      rfl
    · simp only [hrest]
      norm_num
    · have hline : lineNum - (top + 1) = 3 := by omega
      rw [hline]
      simp only [getPositionAfter, hrest]
      norm_num
    · simp only [Reaches, AnimDirection.step]
      omega
  · rw [if_neg fun hc => henter (henters.1 hc)]
    have hflag : decide (top + 4 < lineNum) = decide (top + 4 < lineNum + 1) := by
      rw [decide_eq_decide]
      omega
    by_cases hmoves : 0 ≤ lineNum - top ∧ lineNum - top ≤ 4
    · rw [if_pos (hvisible.2 hmoves), gridAddAnim_eq hnone' hfew]
      exact ⟨hfound.trans hflag, h.animated .up hnone' hmoves⟩
    · rw [if_neg fun hc => hmoves (hvisible.1 hc)]
      have hshift := h.shifted .up hnone'
      simp only [AnimDirection.step, Int.cast_one, one_mul] at hshift
      exact ⟨hfound.trans hflag, hshift⟩

/-- The line that leaves the screen is only faded. -/
theorem downLeave_same
    (found : Found) (l : LineBacking) :
    (downLeave found l).1.moveIn = found.moveIn ∧
      SameAnims l (downLeave found l).2 := by
  simp only [downLeave]
  split <;> exact ⟨rfl, rfl, rfl, rfl, rfl⟩

theorem finishMove_same (l : LineBacking) : SameAnims l (finishMove l) := by
  simp only [finishMove]
  split <;> exact ⟨rfl, rfl, rfl, rfl⟩

/-- A line enters from above when it is the one over the first row. -/
theorem LineInv.enters_above_iff
    (h : LineInv top lineNum l)
    (hfound : found.moveIn = decide (top - 1 < lineNum)) :
    (found.moveIn = false ∧ getPositionAfter l + offsetY + 10 ≥ drawBoundTop ∧
        getPositionAfter l - 10 < drawBoundTop) ↔
      lineNum - top = -1 := by
  have hlow := h.le_position_iff 38
  have hhigh := h.position_lt_iff 114
  push_cast at hhigh hlow
  have hbottom : getPositionAfter l + offsetY + 10 ≥ drawBoundTop ↔
      38 ≤ getPositionAfter l := by
    constructor <;> intro hc <;> simp only [drawBoundTop, offsetY] at * <;>
      linarith
  have htop : getPositionAfter l - 10 < drawBoundTop ↔
      getPositionAfter l < 114 := by
    constructor <;> intro hc <;> simp only [drawBoundTop] at * <;> linarith
  rw [hbottom, htop, hlow, hhigh, hfound, decide_eq_false_iff_not]
  omega

/-- One line of the list moves down by a row. -/
theorem upMove_inv
    (h : LineInv top lineNum l) (hnone : NonePending .up l)
    (hfound : found.moveIn = decide (top - 1 < lineNum)) :
    (upMove found l).1.moveIn = decide (top - 1 < lineNum + 1) ∧
      LineInv (top - 1) lineNum (upMove found l).2 := by
  have henters := h.enters_above_iff hfound
  have hvisible := h.visible_iff
  have hfew := h.few
  have hcount := h.count
  have hnone' : NonePending (AnimDirection.other .down) l := hnone
  simp only [upMove]
  by_cases henter : lineNum - top = -1
  · -- what is pending downwards has already passed the first row
    have hzero : l.pendingCount = 0 := by
      by_contra hne
      have hpos : 0 < l.pendingCount := by omega
      cases hdir : l.direction with
      | up => exact hnone ⟨hpos, hdir⟩
      | down =>
          have hdown := h.down hpos hdir
          omega
    have hrest := h.rest hzero
    rw [if_pos (henters.2 henter)]
    simp only
    rw [gridAddAnim_eq (by simp [NonePending, hzero])
      (by simp only [hzero]; decide)]
    refine ⟨?_, lineInv_entered ?_ ?_ rfl ?_ ?_⟩
    · exact (decide_eq_true (by omega)).symm
    · simp only [hzero]
      rfl
    · simp only [hrest]
      norm_num
    · have hline : lineNum - (top - 1) = 0 := by omega
      rw [hline]
      simp only [getPositionAfter, hrest]
      norm_num
    · simp only [Reaches, AnimDirection.step]
      omega
  · rw [if_neg fun hc => henter (henters.1 hc)]
    have hflag : decide (top - 1 < lineNum) = decide (top - 1 < lineNum + 1) := by
      rw [decide_eq_decide]
      omega
    by_cases hmoves : 0 ≤ lineNum - top ∧ lineNum - top ≤ 4
    · rw [if_pos (hvisible.2 hmoves), gridAddAnim_eq hnone' hfew]
      have hreach : Reaches .down top lineNum := ⟨by omega, hmoves.2⟩
      exact ⟨hfound.trans hflag, h.animated .down hnone' hreach⟩
    · rw [if_neg fun hc => hmoves (hvisible.1 hc)]
      have hshift := h.shifted .down hnone'
      have hraw : l.rawPositionY - ((AnimDirection.down.step : Int) : ℚ) * offsetY =
          l.rawPositionY + offsetY := by
        simp only [AnimDirection.step]
        push_cast
        ring
      rw [hraw] at hshift
      exact ⟨hfound.trans hflag, hshift⟩

/-- The line that leaves the screen is only faded. -/
theorem upLeave_same
    (found : Found) (l : LineBacking) :
    (upLeave found l).1.moveIn = found.moveIn ∧
      SameAnims l (upLeave found l).2 := by
  simp only [upLeave]
  split <;> exact ⟨rfl, rfl, rfl, rfl, rfl⟩

/-- Fading leaves the movements alone. -/
theorem frameFade_same (l : LineBacking) : SameAnims l (frameFade l) := by
  simp only [frameFade]
  repeat' split
  all_goals exact ⟨rfl, rfl, rfl, rfl⟩

/-- The speed of a line is a whole number of steps. -/
theorem frameMultiplier_nat
    (hcount : 0 < l.pendingCount) : ∃ j : ℕ, frameMultiplier l = j := by
  have hne : l.pendingCount ≠ 0 := by omega
  simp only [frameMultiplier, if_pos hne]
  split
  · exact ⟨8, rfl⟩
  · refine ⟨6 + l.pendingCount.toNat, ?_⟩
    have hcast : ((l.pendingCount.toNat : Int) : ℚ) = (l.pendingCount : ℚ) := by
      rw [Int.toNat_of_nonneg (by omega)]
    push_cast at hcast ⊢
    rw [hcast]

/-- What is left after a step is a multiple of `28 / 75`: both sides of the minimum are. -/
theorem left_grain (j m : ℕ) :
    ∃ k : ℕ, 28 * (m : ℚ) / 75 -
      min (offsetY * (1 / 100) * (j : ℚ) / (15 / 10)) (28 * (m : ℚ) / 75) = 28 * k / 75 := by
  rcases le_total j m with hle | hle
  · have hmin : min (offsetY * (1 / 100) * (j : ℚ) / (15 / 10))
        (28 * (m : ℚ) / 75) = 28 * (j : ℚ) / 75 := by
      have hcast : (j : ℚ) ≤ m := by exact_mod_cast hle
      rw [min_eq_left] <;> simp only [offsetY] <;> linarith
    refine ⟨m - j, ?_⟩
    rw [hmin, Nat.cast_sub hle]
    ring
  · have hmin : min (offsetY * (1 / 100) * (j : ℚ) / (15 / 10))
        (28 * (m : ℚ) / 75) = 28 * (m : ℚ) / 75 := by
      have hcast : (m : ℚ) ≤ j := by exact_mod_cast hle
      rw [min_eq_right]
      simp only [offsetY]
      linarith
    refine ⟨0, ?_⟩
    rw [hmin]
    simp

/-- A multiple of `28 / 75` that is below `1 / 10` is zero. -/
theorem grain_small {k : ℕ} (hlt : 28 * (k : ℚ) / 75 < 1 / 10) : 28 * (k : ℚ) / 75 = 0 := by
  have hkzero : k = 0 := by
    by_contra hne
    have hone : (1 : ℚ) ≤ k := by
      exact_mod_cast Nat.one_le_iff_ne_zero.2 hne
    linarith
  rw [hkzero]
  simp

/-- A line that has been moved by `delta`. -/
def movedBy (l : LineBacking) (delta : ℚ) : LineBacking :=
  { l with
    remaining := l.remaining - delta
    rawPositionY := match l.direction with
      | .up => l.rawPositionY - delta
      | .down => l.rawPositionY + delta }

/-- A move does not change where a line ends up. -/
theorem movedBy_position (l : LineBacking) (delta : ℚ) :
    getPositionAfter (movedBy l delta) = getPositionAfter l := by
  cases hl : l.direction <;> simp only [getPositionAfter, movedBy, hl] <;> ring

/-- A frame moves a line by a step, and is done with an animation that has no more to go. -/
theorem frameMove_eq {multiplier delta : ℚ} (hzero : l.pendingCount ≠ 0)
    (hdelta : delta = min (offsetY * (1 / 100) * multiplier / (15 / 10)) l.remaining)
    (hsmall : l.remaining - delta < 1 / 10 → l.remaining - delta = 0) :
    frameMove multiplier l =
      if l.remaining - delta < 1 / 10 then
        { movedBy l delta with pendingCount := l.pendingCount - 1 }
      else
        movedBy l delta := by
  simp only [frameMove, movedBy, if_pos hzero, ← hdelta]
  by_cases hlt : l.remaining - delta < 1 / 10
  · cases hl : l.direction <;> simp only [hsmall hlt]
  · cases hl : l.direction <;> simp only [hlt, if_false]

/-- A frame carries out a part of what is pending. -/
theorem frameMove_inv
    {multiplier : ℚ} (h : LineInv top lineNum l)
    (hspeed : 0 < l.pendingCount → ∃ j : ℕ, multiplier = j) :
    LineInv top lineNum (frameMove multiplier l) := by
  have hcount := h.count
  by_cases hzero : l.pendingCount = 0
  · simpa [frameMove, hzero] using h
  · have hpos : 0 < l.pendingCount := by omega
    obtain ⟨j, hj⟩ := hspeed hpos
    obtain ⟨m, hm⟩ := h.grain
    obtain ⟨delta, hdelta⟩ : ∃ delta, delta =
        min (offsetY * (1 / 100) * multiplier / (15 / 10)) l.remaining := ⟨_, rfl⟩
    obtain ⟨k, hk⟩ : ∃ k : ℕ, l.remaining - delta = 28 * k / 75 := by
      rw [hdelta, hj, hm]
      exact left_grain j m
    have hsmall : l.remaining - delta < 1 / 10 → l.remaining - delta = 0 := by
      intro hlt
      rw [hk] at hlt ⊢
      exact grain_small hlt
    rw [frameMove_eq hzero hdelta hsmall]
    by_cases hlt : l.remaining - delta < 1 / 10
    · rw [if_pos hlt]
      constructor
      · exact (movedBy_position l delta).trans h.position
      · simp only
        omega
      · intro _
        exact hsmall hlt
      · exact ⟨k, hk⟩
      · intro hpos' hdir
        have hup := h.up hpos hdir
        simp only at hpos' ⊢
        omega
      · intro hpos' hdir
        have hdown := h.down hpos hdir
        simp only at hpos' ⊢
        omega
    · rw [if_neg hlt]
      constructor
      · exact (movedBy_position l delta).trans h.position
      · exact hcount
      · intro hc
        exact absurd hc hzero
      · exact ⟨k, hk⟩
      · exact h.up
      · exact h.down

/-- One frame of one line. -/
theorem frameLine_inv
    (h : LineInv top lineNum l) : LineInv top lineNum (frameLine l) := by
  have hsame := frameFade_same l
  refine frameMove_inv (h.same hsame) fun hpos => ?_
  rw [hsame.count] at hpos
  exact frameMultiplier_nat hpos

end Grid
end Cubiboot
