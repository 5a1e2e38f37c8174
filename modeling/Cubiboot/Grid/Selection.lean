import Cubiboot.Foundations.Runs
import Cubiboot.Grid.Positions

/-!
# The selected slot

The part of `handle_gameselect_inputs` that moves the selection and scrolls, and
the two calls of `gm_setup_grid` that one enumeration makes.  The sounds and the
banners that `gm_line_changed` loads and frees are left out.

Before the first of the two calls `number_of_lines` is 0 and the lines are those
of the directory before, or whatever the memory holds.

Results: `handleDown_inv`, `handleUp_inv`, `handleRight_inv` and `handleLeft_inv`, one
for each button; `GridStep.inv`, one step of a run; and `selection_on_grid`, that the
selection stays on the rows as long as no list is checked that lacks some of the rows
shown, and that with such a list it leaves them.
-/

namespace Cubiboot
namespace Grid

open ArrayScan Runs

/-- `gm_can_move`. -/
def gmCanMove : Bool := true

/-- `browser_lines[selected_slot / 8]`. -/
def GridState.selectedLine (s : GridState) : LineBacking :=
  s.browserLines (s.selectedSlot.tdiv 8)

/-- `handle_gameselect_inputs`, right. -/
def handleRight (s : GridState) : GridState :=
  if s.selectedSlot.tmod 8 = 8 - 1 then
    s
  else
    { s with selectedSlot := s.selectedSlot + 1 }

/-- `handle_gameselect_inputs`, left. -/
def handleLeft (s : GridState) : GridState :=
  if s.selectedSlot.tmod 8 = 0 then
    s
  else
    { s with selectedSlot := s.selectedSlot - 1 }

/-- `handle_gameselect_inputs`, down. -/
def handleDown (s : GridState) : GridState :=
  if s.numberOfLines - s.topLineNum = 4 ∧
      s.selectedSlot + 8 > s.numberOfLines * 8 - 1 then
    s
  else if getPositionAfter s.selectedLine ≥ drawBoundBottom - offsetY - 10 then
    if gmCanMove then
      match gridDispatchNavigateDown s with
      | none => s
      | some s =>
          { s with
            selectedSlot := s.selectedSlot + 8
            topLineNum := s.topLineNum + 1 }
    else
      s
  else
    { s with selectedSlot := s.selectedSlot + 8 }

/-- `handle_gameselect_inputs`, up. -/
def handleUp (s : GridState) : GridState :=
  if s.topLineNum = 0 ∧ s.selectedSlot - 8 < 0 then
    s
  else if s.topLineNum ≠ 0 ∧
      getPositionAfter s.selectedLine ≤ drawBoundTop + offsetY - 10 then
    if gmCanMove then
      match gridDispatchNavigateUp s with
      | none => s
      | some s =>
          { s with
            selectedSlot := s.selectedSlot - 8
            topLineNum := s.topLineNum - 1 }
    else
      s
  else
    { s with selectedSlot := s.selectedSlot - 8 }

/-- How far the enumeration has come. -/
inductive Phase where
  | starting
  | listed (numPaths : Nat)
  | checked
deriving DecidableEq

/-- The grid while one directory is enumerated. -/
structure Browsing where
  grid : GridState
  phase : Phase

/-- The most paths a directory has. -/
abbrev maxPaths : Nat := 1920

/-- Inputs, frames, and the two calls of the worker. -/
inductive GridEvent where
  | left
  | right
  | up
  | down
  | frame
  | listed (numPaths : Nat)
  | checked (entries : Nat)

/-- One step. -/
inductive GridStep (b : Browsing) : GridEvent → Browsing → Prop where
  | left : GridStep b .left { b with grid := handleLeft b.grid }
  | right : GridStep b .right { b with grid := handleRight b.grid }
  | up : GridStep b .up { b with grid := handleUp b.grid }
  | down : GridStep b .down { b with grid := handleDown b.grid }
  | frame : GridStep b .frame { b with grid := gridUpdateIconPositions b.grid }
  | listed (numPaths : Nat) (h : b.phase = .starting) (hmax : numPaths ≤ maxPaths) :
      GridStep b (.listed numPaths)
        ⟨gmSetupGrid b.grid numPaths true, .listed numPaths⟩
  | checked (entries : Nat) {numPaths : Nat} (h : b.phase = .listed numPaths)
      (hle : entries ≤ numPaths) :
      GridStep b (.checked entries) ⟨gmSetupGrid b.grid entries false, .checked⟩

/-- `gm_start_thread` has cleared the list. -/
structure Enumerating (b : Browsing) : Prop where
  phase : b.phase = .starting
  lines : b.grid.numberOfLines = 0

/-- The selection lies on the rows that are shown, and these are lines of the list. -/
structure OnGrid (s : GridState) : Prop where
  top_nonneg : 0 ≤ s.topLineNum
  top_le : s.topLineNum ≤ s.numberOfLines - 4
  line_ge : s.topLineNum ≤ s.selectedSlot.tdiv 8
  line_lt : s.selectedSlot.tdiv 8 < s.topLineNum + 4
  indexed : 0 ≤ s.selectedSlot.tdiv 8 ∧ s.selectedSlot.tdiv 8 < s.numberOfLines

/-- `number_of_lines` after `gm_setup_grid`. -/
def gridLines (lineCount : Nat) : Int :=
  if (((lineCount + 7) / 8 : Nat) : Int) < 4 then 4 else ((lineCount + 7) / 8 : Nat)

/--
The condition on a step: the list that has been checked still has the rows that
are shown.
-/
def GridGuard (b : Browsing) : GridEvent → Prop
  | .checked entries => b.grid.topLineNum + 4 ≤ gridLines entries
  | _ => True

/-- The grid of a list. -/
structure GridInv (s : GridState) : Prop where
  done : s.gridSetupDone = true
  few : s.numberOfLines ≤ maxLines
  top_nonneg : 0 ≤ s.topLineNum
  top_le : s.topLineNum ≤ s.numberOfLines - 4
  slot_ge : s.topLineNum * 8 ≤ s.selectedSlot
  slot_lt : s.selectedSlot < (s.topLineNum + 4) * 8
  line : ∀ i < s.numberOfLines.toNat, LineInv s.topLineNum i (s.browserLines i)

/-- What the phases keep. -/
def BrowsingInv (b : Browsing) : Prop :=
  match b.phase with
  | .starting => b.grid.numberOfLines = 0
  | .listed numPaths =>
      GridInv b.grid ∧ b.grid.numberOfLines = gridLines numPaths
  | .checked => GridInv b.grid

variable {s s' : GridState}

theorem gridLines_ge (lineCount : Nat) : 4 ≤ gridLines lineCount := by
  simp only [gridLines]
  split <;> omega

theorem gridLines_mono
    {m n : Nat} (h : m ≤ n) : gridLines m ≤ gridLines n := by
  simp only [gridLines]
  split <;> split <;> omega

theorem gridLines_le
    {lineCount : Nat} (h : lineCount ≤ maxPaths) :
    gridLines lineCount ≤ maxLines := by
  simp only [gridLines, maxPaths, maxLines] at *
  split <;> omega

theorem GridInv.onGrid (h : GridInv s) : OnGrid s := by
  have hge := h.slot_ge
  have hlt := h.slot_lt
  have htop := h.top_nonneg
  have hle := h.top_le
  have hdiv : s.selectedSlot.tdiv 8 = s.selectedSlot / 8 :=
    Int.tdiv_eq_ediv_of_nonneg (by omega)
  constructor
  · exact htop
  · exact hle
  · rw [hdiv]
    omega
  · rw [hdiv]
    omega
  · rw [hdiv]
    omega

/-- The line that is selected, and its row. -/
theorem GridInv.selected
    (h : GridInv s) :
    ∃ row : Int, 0 ≤ row ∧ row ≤ 3 ∧
      s.selectedSlot / 8 = s.topLineNum + row ∧
      LineInv s.topLineNum (s.topLineNum + row) s.selectedLine := by
  have hge := h.slot_ge
  have hlt := h.slot_lt
  have htop := h.top_nonneg
  have hle := h.top_le
  have hdiv : s.selectedSlot.tdiv 8 = s.selectedSlot / 8 :=
    Int.tdiv_eq_ediv_of_nonneg (by omega)
  refine ⟨s.selectedSlot / 8 - s.topLineNum, by omega, by omega, by omega, ?_⟩
  have hline := h.line (s.selectedSlot / 8).toNat (by omega)
  have hcast : ((s.selectedSlot / 8).toNat : Int) = s.selectedSlot / 8 :=
    Int.toNat_of_nonneg (by omega)
  rw [hcast] at hline
  have hrow : s.topLineNum + (s.selectedSlot / 8 - s.topLineNum) =
      s.selectedSlot / 8 := by omega
  rw [hrow]
  simp only [GridState.selectedLine, hdiv]
  exact hline

theorem hasPending_false
    {direction : AnimDirection} (h : s.hasPending direction = false)
    {i : Nat} (hi : i < s.numberOfLines.toNat) :
    NonePending direction (s.browserLines i) := by
  have hall := List.any_eq_false.1 h i (List.mem_range.2 hi)
  simpa [NonePending] using hall

/-- A line whose movement has been finished: nothing new is pending for it. -/
theorem finishMove_none
    {direction : AnimDirection} (h : s.hasPending direction = false)
    {i : Nat} (hi : i < s.numberOfLines.toNat) :
    eachBelow s.numberOfLines.toNat finishMove s.browserLines i =
        finishMove (s.browserLines i) ∧
      NonePending direction (finishMove (s.browserLines i)) :=
  ⟨eachBelow_inside (by omega) (by omega),
    (hasPending_false h hi).same (finishMove_same _)⟩

/-- A move down the list, when it is not refused. -/
theorem gridDispatchNavigateDown_inv
    {top : Int} (h : ∀ i < s.numberOfLines.toNat, LineInv top i (s.browserLines i))
    (htop : 0 ≤ top) (hs : gridDispatchNavigateDown s = some s') :
    (∀ i < s.numberOfLines.toNat, LineInv (top + 1) i (s'.browserLines i)) ∧
      s' = { s with browserLines := s'.browserLines } := by
  simp only [gridDispatchNavigateDown] at hs
  split at hs
  · cases hs
  · rename_i hpending
    have hpending : s.hasPending .down = false := by simpa using hpending
    obtain rfl := Option.some.inj hs
    refine ⟨?_, rfl⟩
    refine (scan_spec (P := fun i found => found.moveIn = decide (top + 4 < i))
      (R := fun i _ l' => LineInv (top + 1) i l') ?_ ?_).2
    · exact (decide_eq_false (by omega)).symm
    · intro i found hi hfound
      obtain ⟨hbelow, hnone⟩ := finishMove_none hpending hi
      have hline := (h i hi).same (finishMove_same (s.browserLines i))
      obtain ⟨hmove, hinv⟩ := downMove_inv hline hnone hfound
      obtain ⟨hkept, hleave⟩ := downLeave_same
        (downMove found (finishMove (s.browserLines i))).1
        (downMove found (finishMove (s.browserLines i))).2
      rw [hbelow]
      refine ⟨?_, hinv.same hleave⟩
      push_cast
      exact hkept.trans hmove

/-- A move up the list, when it is not refused. -/
theorem gridDispatchNavigateUp_inv
    {top : Int} (h : ∀ i < s.numberOfLines.toNat, LineInv top i (s.browserLines i))
    (hpos : 0 < top) (hs : gridDispatchNavigateUp s = some s') :
    (∀ i < s.numberOfLines.toNat, LineInv (top - 1) i (s'.browserLines i)) ∧
      s' = { s with browserLines := s'.browserLines } := by
  simp only [gridDispatchNavigateUp] at hs
  split at hs
  · cases hs
  · rename_i hpending
    have hpending : s.hasPending .up = false := by simpa using hpending
    obtain rfl := Option.some.inj hs
    refine ⟨?_, rfl⟩
    refine (scan_spec (P := fun i found => found.moveIn = decide (top - 1 < i))
      (R := fun i _ l' => LineInv (top - 1) i l') ?_ ?_).2
    · exact (decide_eq_false (by omega)).symm
    · intro i found hi hfound
      have hline := h i hi
      have hnone := hasPending_false hpending hi
      obtain ⟨hmove, hinv⟩ := upMove_inv hline hnone hfound
      obtain ⟨hkept, hleave⟩ := upLeave_same
        (upMove found (s.browserLines i)).1 (upMove found (s.browserLines i)).2
      refine ⟨?_, hinv.same hleave⟩
      push_cast
      exact hkept.trans hmove

/-- The selection on the last row is the one that scrolls down. -/
theorem scrolls_down_iff
    {row : Int} (h : LineInv s.topLineNum (s.topLineNum + row) s.selectedLine)
    (hrow : row ≤ 3) :
    getPositionAfter s.selectedLine ≥ drawBoundBottom - offsetY - 10 ↔ row = 3 := by
  have hposition := h.le_position_iff 262
  have hbound : drawBoundBottom - offsetY - 10 = ((262 : Int) : ℚ) := by norm_num
  rw [hbound, ge_iff_le, hposition]
  omega

/-- The selection on the first row is the one that scrolls up. -/
theorem scrolls_up_iff
    {row : Int} (h : LineInv s.topLineNum (s.topLineNum + row) s.selectedLine)
    (hrow : 0 ≤ row) :
    getPositionAfter s.selectedLine ≤ drawBoundTop + offsetY - 10 ↔ row = 0 := by
  have hposition := h.position_le_iff 150
  have hbound : drawBoundTop + offsetY - 10 = ((150 : Int) : ℚ) := by norm_num
  rw [hbound, hposition]
  omega

/-- Nothing but the selection changes. -/
theorem GridInv.select
    (h : GridInv s) {slot : Int} (hge : s.topLineNum * 8 ≤ slot)
    (hlt : slot < (s.topLineNum + 4) * 8) :
    GridInv { s with selectedSlot := slot } :=
  ⟨h.done, h.few, h.top_nonneg, h.top_le, hge, hlt, h.line⟩

theorem handleDown_inv
    (h : GridInv s) :
    GridInv (handleDown s) ∧ (handleDown s).numberOfLines = s.numberOfLines := by
  obtain ⟨row, hrow, hrow', hslot, hline⟩ := h.selected
  have hge := h.slot_ge
  have hlt := h.slot_lt
  have htop := h.top_nonneg
  have hle := h.top_le
  have hscroll := scrolls_down_iff hline hrow'
  simp only [handleDown]
  by_cases hend : s.numberOfLines - s.topLineNum = 4 ∧
      s.selectedSlot + 8 > s.numberOfLines * 8 - 1
  · rw [if_pos hend]
    exact ⟨h, rfl⟩
  · rw [if_neg hend]
    by_cases hlast : row = 3
    · rw [if_pos (hscroll.2 hlast), if_pos (show gmCanMove = true from rfl)]
      cases hmove : gridDispatchNavigateDown s with
      | none => exact ⟨h, rfl⟩
      | some s' =>
          obtain ⟨hlines, hsame⟩ := gridDispatchNavigateDown_inv h.line htop hmove
          rw [hsame]
          refine ⟨⟨h.done, h.few, ?_, ?_, ?_, ?_, hlines⟩, rfl⟩ <;> simp only <;>
            omega
    · rw [if_neg fun hc => hlast (hscroll.1 hc)]
      exact ⟨h.select (by omega) (by omega), rfl⟩

theorem handleUp_inv
    (h : GridInv s) :
    GridInv (handleUp s) ∧ (handleUp s).numberOfLines = s.numberOfLines := by
  obtain ⟨row, hrow, hrow', hslot, hline⟩ := h.selected
  have hge := h.slot_ge
  have hlt := h.slot_lt
  have htop := h.top_nonneg
  have hle := h.top_le
  have hscroll := scrolls_up_iff hline hrow
  simp only [handleUp]
  by_cases hend : s.topLineNum = 0 ∧ s.selectedSlot - 8 < 0
  · rw [if_pos hend]
    exact ⟨h, rfl⟩
  · rw [if_neg hend]
    by_cases hfirst : s.topLineNum ≠ 0 ∧ row = 0
    · rw [if_pos ⟨hfirst.1, hscroll.2 hfirst.2⟩,
        if_pos (show gmCanMove = true from rfl)]
      cases hmove : gridDispatchNavigateUp s with
      | none => exact ⟨h, rfl⟩
      | some s' =>
          obtain ⟨hlines, hsame⟩ :=
            gridDispatchNavigateUp_inv h.line (by omega) hmove
          rw [hsame]
          refine ⟨⟨h.done, h.few, ?_, ?_, ?_, ?_, hlines⟩, rfl⟩ <;> simp only <;>
            omega
    · rw [if_neg fun hc => hfirst ⟨hc.1, hscroll.1 hc.2⟩]
      exact ⟨h.select (by omega) (by omega), rfl⟩

theorem handleRight_inv
    (h : GridInv s) :
    GridInv (handleRight s) ∧ (handleRight s).numberOfLines = s.numberOfLines := by
  have hge := h.slot_ge
  have hlt := h.slot_lt
  have htop := h.top_nonneg
  have hmod : s.selectedSlot.tmod 8 = s.selectedSlot % 8 :=
    Int.tmod_eq_emod_of_nonneg (by omega)
  simp only [handleRight, hmod]
  split
  · exact ⟨h, rfl⟩
  · exact ⟨h.select (by omega) (by omega), rfl⟩

theorem handleLeft_inv
    (h : GridInv s) :
    GridInv (handleLeft s) ∧ (handleLeft s).numberOfLines = s.numberOfLines := by
  have hge := h.slot_ge
  have hlt := h.slot_lt
  have htop := h.top_nonneg
  have hmod : s.selectedSlot.tmod 8 = s.selectedSlot % 8 :=
    Int.tmod_eq_emod_of_nonneg (by omega)
  simp only [handleLeft, hmod]
  split
  · exact ⟨h, rfl⟩
  · exact ⟨h.select (by omega) (by omega), rfl⟩

theorem gridUpdateIconPositions_inv
    (h : GridInv s) :
    GridInv (gridUpdateIconPositions s) ∧
      (gridUpdateIconPositions s).numberOfLines = s.numberOfLines := by
  simp only [gridUpdateIconPositions, h.done, if_true]
  refine ⟨⟨rfl, h.few, h.top_nonneg, h.top_le, h.slot_ge, h.slot_lt, ?_⟩, trivial⟩
  intro i hi
  simp only at hi ⊢
  rw [eachBelow_inside (by omega) (by omega)]
  exact frameLine_inv (h.line i hi)

theorem gmSetupGrid_lines
    (s : GridState) (lineCount : Nat) (initial : Bool) :
    (gmSetupGrid s lineCount initial).numberOfLines = gridLines lineCount := by
  cases initial <;> rfl

/-- A line of a list that has just been set up. -/
theorem gridSetupLine_inv (i : Nat) : LineInv 0 i (gridSetupLine i) := by
  constructor
  · simp only [getPositionAfter, gridSetupLine, LineBacking.zero]
    push_cast
    ring
  · exact Int.le_refl 0
  · exact fun _ => rfl
  · exact ⟨0, by simp [gridSetupLine, LineBacking.zero]⟩
  · intro hpos
    exact absurd hpos (Int.lt_irrefl 0)
  · intro hpos
    exact absurd hpos (Int.lt_irrefl 0)

/-- The first of the two calls starts the selection at the top. -/
theorem gmSetupGrid_initial_inv
    (s : GridState) {numPaths : Nat} (hmax : numPaths ≤ maxPaths) :
    GridInv (gmSetupGrid s numPaths true) := by
  have hlines := gmSetupGrid_lines s numPaths true
  have hge := gridLines_ge numPaths
  have hle := gridLines_le hmax
  have htop : (gmSetupGrid s numPaths true).topLineNum = 0 := rfl
  have hslot : (gmSetupGrid s numPaths true).selectedSlot = 0 := rfl
  constructor
  · rfl
  · omega
  · omega
  · omega
  · omega
  · omega
  · intro i hi
    have hinside : (gmSetupGrid s numPaths true).browserLines i = gridSetupLine i := by
      have hbound : 0 ≤ (i : Int) ∧
          (i : Int) < (gmSetupGrid s numPaths true).numberOfLines := by omega
      exact if_pos hbound
    rw [hinside, htop]
    exact gridSetupLine_inv i

/-- The second leaves everything but the number of lines as it is. -/
theorem gmSetupGrid_checked_inv
    {entries : Nat} (h : GridInv s) (hle : gridLines entries ≤ s.numberOfLines)
    (hshown : s.topLineNum + 4 ≤ gridLines entries) :
    GridInv (gmSetupGrid s entries false) := by
  have hlines := gmSetupGrid_lines s entries false
  have hfew := h.few
  have htop : (gmSetupGrid s entries false).topLineNum = s.topLineNum := rfl
  constructor
  · exact h.done
  · omega
  · exact h.top_nonneg
  · omega
  · exact h.slot_ge
  · exact h.slot_lt
  · intro i hi
    exact h.line i (by omega)

variable {b b' : Browsing} {a : GridEvent}

/-- Before the list is there it stays empty. -/
theorem handle_starting
    (h : s.numberOfLines = 0) :
    (handleDown s).numberOfLines = 0 ∧ (handleUp s).numberOfLines = 0 := by
  constructor
  · simp only [handleDown]
    split
    · exact h
    · split
      · split
        · split
          · exact h
          · rename_i s' hmove
            simp only [gridDispatchNavigateDown] at hmove
            split at hmove
            · cases hmove
            · rw [← Option.some.inj hmove]
              exact h
        · exact h
      · exact h
  · simp only [handleUp]
    split
    · exact h
    · split
      · split
        · split
          · exact h
          · rename_i s' hmove
            simp only [gridDispatchNavigateUp] at hmove
            split at hmove
            · cases hmove
            · rw [← Option.some.inj hmove]
              exact h
        · exact h
      · exact h

/-- An input or a frame keeps what a phase keeps. -/
theorem BrowsingInv.handled
    (h : BrowsingInv b) {f : GridState → GridState}
    (hstarting : b.grid.numberOfLines = 0 → (f b.grid).numberOfLines = 0)
    (hinv : GridInv b.grid →
      GridInv (f b.grid) ∧ (f b.grid).numberOfLines = b.grid.numberOfLines) :
    BrowsingInv { b with grid := f b.grid } := by
  obtain ⟨grid, phase⟩ := b
  cases phase with
  | starting => exact hstarting h
  | listed numPaths =>
      obtain ⟨hgrid, hlines⟩ := h
      obtain ⟨hnew, hsame⟩ := hinv hgrid
      exact ⟨hnew, hsame.trans hlines⟩
  | checked => exact (hinv h).1

theorem GridStep.inv
    (hs : GridStep b a b') (h : BrowsingInv b) (hguard : GridGuard b a) :
    BrowsingInv b' := by
  cases hs with
  | left =>
      refine h.handled (fun hzero => ?_) handleLeft_inv
      simp only [handleLeft]
      split <;> exact hzero
  | right =>
      refine h.handled (fun hzero => ?_) handleRight_inv
      simp only [handleRight]
      split <;> exact hzero
  | up => exact h.handled (fun hzero => (handle_starting hzero).2) handleUp_inv
  | down => exact h.handled (fun hzero => (handle_starting hzero).1) handleDown_inv
  | frame =>
      refine h.handled (fun hzero => ?_) gridUpdateIconPositions_inv
      simp only [gridUpdateIconPositions]
      split <;> exact hzero
  | listed numPaths hphase hmax =>
      exact ⟨gmSetupGrid_initial_inv b.grid hmax, gmSetupGrid_lines b.grid numPaths true⟩
  | checked entries hphase hle =>
      simp only [BrowsingInv, hphase] at h
      refine gmSetupGrid_checked_inv h.1 ?_ hguard
      rw [h.2]
      exact gridLines_mono hle

theorem BrowsingInv.onGrid
    (h : BrowsingInv b) (hlines : 4 ≤ b.grid.numberOfLines) : OnGrid b.grid := by
  obtain ⟨grid, phase⟩ := b
  cases phase with
  | starting =>
      have hzero : grid.numberOfLines = 0 := h
      simp only at hlines
      omega
  | listed numPaths => exact h.1.onGrid
  | checked => exact GridInv.onGrid h

/--
While every list that has been checked still has the rows that are shown, the
selection stays on them; and a step keeps it there exactly when it respects
this.
-/
theorem selection_on_grid
    (hreach : Reachable Enumerating (Guarded GridStep GridGuard) b) :
    (4 ≤ b.grid.numberOfLines → OnGrid b.grid) ∧
      ∀ a b', GridStep b a b' →
        ((4 ≤ b'.grid.numberOfLines → OnGrid b'.grid) ↔ GridGuard b a) := by
  have hinv : BrowsingInv b := by
    refine hreach.invariant (fun b h => ?_) ?_
    · simp only [BrowsingInv, h.phase]
      exact h.lines
    · rintro _ _ h ⟨_, hguard, hstep⟩
      exact hstep.inv h hguard
  refine ⟨hinv.onGrid, fun a b' hs => ⟨fun hgrid => ?_, fun hguard => ?_⟩⟩
  · cases hs with
    | checked entries hphase hle =>
        have hlines := gmSetupGrid_lines b.grid entries false
        have hge := gridLines_ge entries
        have hon := hgrid (by simp only; omega)
        have htop := hon.top_le
        simp only [GridGuard]
        have hsame : (gmSetupGrid b.grid entries false).topLineNum =
            b.grid.topLineNum := rfl
        simp only at htop
        omega
    | _ => trivial
  · exact (hs.inv hinv hguard).onGrid

/-- A grid whose list has just been cleared. -/
def clearedGrid : Browsing where
  grid := ⟨false, fun _ => .zero, 0, 0, 0⟩
  phase := .starting

/-- A list of 40 paths, the selection moved down to its last line. -/
def scrolledGrid : Browsing where
  grid :=
    handleDown (handleDown (handleDown (handleDown
      (gmSetupGrid clearedGrid.grid 40 true))))
  phase := .listed 40

theorem scrolledGrid_reachable
    {guard : Browsing → GridEvent → Prop} (hlisted : guard clearedGrid (.listed 40))
    (hdown : ∀ b, guard b .down) :
    Reachable Enumerating (Guarded GridStep guard) scrolledGrid := by
  have hstart : Reachable Enumerating (Guarded GridStep guard) clearedGrid :=
    Reachable.start ⟨rfl, rfl⟩
  have hlist := hstart.step ⟨_, hlisted, .listed 40 rfl (by decide)⟩
  have hdowns : ∀ {b}, Reachable Enumerating (Guarded GridStep guard) b →
      Reachable Enumerating (Guarded GridStep guard)
        { b with grid := handleDown b.grid } :=
    fun h => h.step ⟨_, hdown _, .down⟩
  exact hdowns (hdowns (hdowns (hdowns hlist)))

/--
Of 40 paths only 8 turn out to be entries while the user is at the bottom: the
top line is past the end of the list, which has shrunk to four lines.
-/
theorem list_shrinks_under_selection :
    ∃ b, Reachable Enumerating (anyStep GridStep) b ∧
      4 ≤ b.grid.numberOfLines ∧ ¬ OnGrid b.grid := by
  have hreach : Reachable Enumerating (Guarded GridStep fun _ _ => True)
      ⟨gmSetupGrid scrolledGrid.grid 8 false, .checked⟩ :=
    (scrolledGrid_reachable trivial fun _ => trivial).step
      ⟨_, trivial, .checked 8 rfl (by decide)⟩
  refine ⟨_, hreach.mono ?_, by decide, fun h => ?_⟩
  · rintro _ _ ⟨a, _, hs⟩
    exact ⟨a, hs⟩
  · have htop : (gmSetupGrid scrolledGrid.grid 8 false).topLineNum = 1 := by
      decide +kernel
    have hle := h.top_le
    simp only [htop] at hle
    exact absurd hle (by decide)

/-- All 40 of them turn out to be entries. -/
theorem selection_on_grid_all_accepted :
    OnGrid (gmSetupGrid scrolledGrid.grid 40 false) := by
  have hguard : GridGuard scrolledGrid (.checked 40) := by
    have htop : scrolledGrid.grid.topLineNum = 1 := by decide +kernel
    simp only [GridGuard, htop]
    decide
  have hreach : Reachable Enumerating (Guarded GridStep GridGuard) scrolledGrid :=
    scrolledGrid_reachable trivial fun _ => trivial
  have hstep : GridStep scrolledGrid (.checked 40)
      ⟨gmSetupGrid scrolledGrid.grid 40 false, .checked⟩ :=
    .checked 40 rfl (by decide)
  exact (((selection_on_grid hreach).2 _ _ hstep).2 hguard) (by decide)

end Grid
end Cubiboot
