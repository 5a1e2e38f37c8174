import Cubiboot.Grid.Selection

/-!
# Scrolling a list of a fixed length

The moves and frames of a list whose number of lines does not change, in any
order.  `top` counts the moves down that were not refused less the moves up.

A move is refused while a line still moves the other way, so what is pending
goes one way at any time and `grid_add_anim` never has to clear anything.

Results: `gridDispatchNavigateDown_none` and `gridDispatchNavigateUp_none`, that a move
which is not refused leaves nothing pending the other way; `ScrollStep.inv`, the step
lemma; and `lines_settle`, where the lines of every run settle.
-/

namespace Cubiboot
namespace Grid

open ArrayScan Runs

/-- `grid_add_anim` would clear the animations of the line. -/
def ClearsAnims (l : LineBacking) (direction : AnimDirection) : Prop :=
  l.pendingCount > 0 ∧ l.direction ≠ direction

/-- The line that `upMove` passes to `grid_add_anim`, if it calls it. -/
def upAnimated (found : Found) (l : LineBacking) : Option LineBacking :=
  let partialPositionY := getPositionAfter l
  if found.moveIn = false ∧ partialPositionY + offsetY + 10 ≥ drawBoundTop ∧
      partialPositionY - 10 < drawBoundTop then
    some
      { l with
        rawPositionY := drawBoundTop - offsetY * (1 / 2)
        transparency := 1 / 4
        movingIn := true
        movingOut := false }
  else if partialPositionY < drawBoundBottom + offsetY - 10 ∧
      partialPositionY ≥ drawBoundTop - offsetY + 10 then
    some l
  else
    none

/-- The line that `downMove` passes to `grid_add_anim`, if it calls it. -/
def downAnimated (found : Found) (l : LineBacking) : Option LineBacking :=
  let partialPositionY := getPositionAfter l
  if found.moveIn = false ∧ partialPositionY + 10 ≥ drawBoundBottom ∧
      partialPositionY - offsetY - 10 < drawBoundBottom then
    some
      { l with
        rawPositionY := drawBoundBottom - offsetY * (1 / 2)
        transparency := 1 / 4
        movingIn := true
        movingOut := false }
  else if partialPositionY < drawBoundBottom + offsetY - 10 ∧
      partialPositionY ≥ drawBoundTop - offsetY + 10 then
    some l
  else
    none

/-- A pass, with the calls of `grid_add_anim` noted down. -/
def noting
    (line : Found → LineBacking → Found × LineBacking)
    (animated : Found → LineBacking → Option LineBacking)
    (noted : Found × List LineBacking) (l : LineBacking) :
    (Found × List LineBacking) × LineBacking :=
  let r := line noted.1 l
  ((r.1, noted.2 ++ (animated noted.1 l).toList), r.2)

/-- The lines a move passes to `grid_add_anim`, as these calls find them. -/
def GridState.animated (s : GridState) : AnimDirection → List LineBacking
  | .up =>
      if s.hasPending .down then
        []
      else
        let n := s.numberOfLines.toNat
        (scan (noting downLine downAnimated) n (⟨false, false⟩, [])
          (eachBelow n finishMove s.browserLines)).1.2
  | .down =>
      if s.hasPending .up then
        []
      else
        (scan (noting upLine upAnimated) s.numberOfLines.toNat (⟨false, false⟩, [])
          s.browserLines).1.2

/-- A grid that is scrolled. -/
structure Scrolling where
  grid : GridState
  top : Int

/-- The two moves and a frame. -/
inductive ScrollOp where
  | down
  | up
  | frame
deriving DecidableEq

/-- The direction in which the lines go. -/
def ScrollOp.direction : ScrollOp → Option AnimDirection
  | .down => some .up
  | .up => some .down
  | .frame => none

/-- The calls of `grid_add_anim` in a step. -/
def ScrollOp.animated (op : ScrollOp) (s : GridState) :
    List (LineBacking × AnimDirection) :=
  match op.direction with
  | none => []
  | some direction => (s.animated direction).map fun l => (l, direction)

/-- One call. -/
inductive ScrollStep (s : Scrolling) : ScrollOp → Scrolling → Prop where
  | down {grid : GridState} (hbelow : s.top + 4 < s.grid.numberOfLines)
      (h : gridDispatchNavigateDown s.grid = some grid) :
      ScrollStep s .down ⟨grid, s.top + 1⟩
  | downRefused (hbelow : s.top + 4 < s.grid.numberOfLines)
      (h : gridDispatchNavigateDown s.grid = none) : ScrollStep s .down s
  | up {grid : GridState} (habove : 0 < s.top)
      (h : gridDispatchNavigateUp s.grid = some grid) :
      ScrollStep s .up ⟨grid, s.top - 1⟩
  | upRefused (habove : 0 < s.top)
      (h : gridDispatchNavigateUp s.grid = none) : ScrollStep s .up s
  | frame : ScrollStep s .frame ⟨gridUpdateIconPositions s.grid, s.top⟩

/-- `grid_setup_func` has just laid out a list of this many lines. -/
def LaidOut (n : Int) (s : Scrolling) : Prop :=
  s.top = 0 ∧ ∃ grid : GridState, grid.numberOfLines = n ∧ s.grid = gridSetupFunc grid

/-- The lines of the list are where they belong, or on their way there. -/
structure Settling (n : Int) (s : Scrolling) : Prop where
  lines : s.grid.numberOfLines = n
  position : ∀ i : Int, 0 ≤ i → i < n →
    getPositionAfter (s.grid.browserLines i) = 104 + 56 * ((i : ℚ) - s.top)
  rest : ∀ i : Int, 0 ≤ i → i < n →
    (s.grid.browserLines i).pendingCount = 0 → (s.grid.browserLines i).remaining = 0
  oneWay : ∀ i j : Int, 0 ≤ i → i < n → 0 ≤ j → j < n →
    (s.grid.browserLines i).pendingCount ≠ 0 →
    (s.grid.browserLines j).pendingCount ≠ 0 →
      (s.grid.browserLines i).direction = (s.grid.browserLines j).direction

variable {found : Found} {l : LineBacking} {s s' : GridState}

/-- `upMove` calls `grid_add_anim` for the line that is noted, and for no other. -/
theorem upMove_animated (found : Found) (l : LineBacking) :
    (upMove found l).2 =
      match upAnimated found l with
      | none => { l with rawPositionY := l.rawPositionY + offsetY }
      | some l' =>
          gridAddAnim l' .down
            (if (upMove found l).1 = found then offsetY else offsetY * (1 / 2)) := by
  simp only [upMove, upAnimated]
  split
  · rename_i henter
    have hne : ({ found with moveIn := true } : Found) ≠ found := by
      intro heq
      have hin := congrArg Found.moveIn heq
      rw [henter.1] at hin
      cases hin
    simp only [if_neg hne]
  · split
    · simp only [if_true]
    · rfl

/-- `downMove` calls `grid_add_anim` for the line that is noted, and for no other. -/
theorem downMove_animated (found : Found) (l : LineBacking) :
    (downMove found l).2 =
      match downAnimated found l with
      | none => { l with rawPositionY := l.rawPositionY - offsetY }
      | some l' =>
          gridAddAnim l' .up
            (if (downMove found l).1 = found then offsetY else offsetY * (1 / 2)) := by
  simp only [downMove, downAnimated]
  split
  · rename_i henter
    have hne : ({ found with moveIn := true } : Found) ≠ found := by
      intro heq
      have hin := congrArg Found.moveIn heq
      rw [henter.1] at hin
      cases hin
    simp only [if_neg hne]
  · split
    · simp only [if_true]
    · rfl

theorem upAnimated_anims
    {l' : LineBacking} (h : upAnimated found l = some l') :
    l'.pendingCount = l.pendingCount ∧ l'.direction = l.direction := by
  simp only [upAnimated] at h
  split at h
  · obtain rfl := Option.some.inj h
    exact ⟨rfl, rfl⟩
  · split at h
    · obtain rfl := Option.some.inj h
      exact ⟨rfl, rfl⟩
    · cases h

theorem downAnimated_anims
    {l' : LineBacking} (h : downAnimated found l = some l') :
    l'.pendingCount = l.pendingCount ∧ l'.direction = l.direction := by
  simp only [downAnimated] at h
  split at h
  · obtain rfl := Option.some.inj h
    exact ⟨rfl, rfl⟩
  · split at h
    · obtain rfl := Option.some.inj h
      exact ⟨rfl, rfl⟩
    · cases h

theorem scan_noting
    (line : Found → LineBacking → Found × LineBacking)
    (animated : Found → LineBacking → Option LineBacking) (n : Nat)
    (lines : Int → LineBacking) :
    (scan (noting line animated) n (⟨false, false⟩, []) lines).1.1 =
        (scan line n ⟨false, false⟩ lines).1 ∧
      (scan (noting line animated) n (⟨false, false⟩, []) lines).2 =
        (scan line n ⟨false, false⟩ lines).2 := by
  have hproj :
      ∀ (noted : Found × List LineBacking) (l : LineBacking),
        Prod.fst (noting line animated noted l).1 = (line (Prod.fst noted) l).1 ∧
          (noting line animated noted l).2 = (line (Prod.fst noted) l).2 :=
    fun _ _ => ⟨rfl, rfl⟩
  exact scan_proj hproj

/-- The moves are those of the source, with or without the notes. -/
theorem gridDispatchNavigateDown_noted
    (h : gridDispatchNavigateDown s = some s') :
    s'.browserLines =
      (scan (noting downLine downAnimated) s.numberOfLines.toNat (⟨false, false⟩, [])
        (eachBelow s.numberOfLines.toNat finishMove s.browserLines)).2 := by
  simp only [gridDispatchNavigateDown] at h
  split at h
  · cases h
  · obtain rfl := Option.some.inj h
    exact (scan_noting _ _ _ _).2.symm

theorem gridDispatchNavigateUp_noted
    (h : gridDispatchNavigateUp s = some s') :
    s'.browserLines =
      (scan (noting upLine upAnimated) s.numberOfLines.toNat (⟨false, false⟩, [])
        s.browserLines).2 := by
  simp only [gridDispatchNavigateUp] at h
  split at h
  · cases h
  · obtain rfl := Option.some.inj h
    exact (scan_noting _ _ _ _).2.symm

/-- The notes of a pass stay free of lines that would be cleared. -/
theorem noting_keeps
    {line : Found → LineBacking → Found × LineBacking}
    {animated : Found → LineBacking → Option LineBacking}
    {noted : Found × List LineBacking} {direction : AnimDirection}
    (hanims : ∀ found l', animated found l = some l' →
      l'.pendingCount = l.pendingCount ∧ l'.direction = l.direction)
    (hnone : NonePending direction.other l)
    (hnoted : ∀ l' ∈ noted.2, ¬ ClearsAnims l' direction) :
    ∀ l' ∈ (noting line animated noted l).1.2, ¬ ClearsAnims l' direction := by
  intro l' hmem
  simp only [noting, List.mem_append, Option.mem_toList] at hmem
  rcases hmem with hold | hnew
  · exact hnoted l' hold
  · obtain ⟨hcount, hdir⟩ := hanims noted.1 l' hnew
    exact (hnone.congr hcount hdir).keeps

/-- No call of `grid_add_anim` clears anything. -/
theorem animated_not_clearsAnims
    (s : GridState) (direction : AnimDirection) :
    ∀ l ∈ s.animated direction, ¬ ClearsAnims l direction := by
  cases direction with
  | up =>
      simp only [GridState.animated]
      by_cases hpending : s.hasPending .down = true
      · rw [if_pos hpending]
        exact fun l hmem => absurd hmem List.not_mem_nil
      · rw [if_neg hpending]
        have hpending : s.hasPending .down = false := by simpa using hpending
        refine (scan_spec
          (P := fun _ (noted : Found × List LineBacking) => ∀ l ∈ noted.2, ¬ ClearsAnims l .up)
          (R := fun _ _ _ => True) ?_ ?_).1
        · exact fun l hmem => absurd hmem List.not_mem_nil
        · intro i noted hi hnoted
          obtain ⟨hbelow, hnone⟩ := finishMove_none hpending hi
          rw [hbelow]
          exact ⟨noting_keeps (fun _ _ => downAnimated_anims) hnone hnoted, trivial⟩
  | down =>
      simp only [GridState.animated]
      by_cases hpending : s.hasPending .up = true
      · rw [if_pos hpending]
        exact fun l hmem => absurd hmem List.not_mem_nil
      · rw [if_neg hpending]
        have hpending : s.hasPending .up = false := by simpa using hpending
        refine (scan_spec
          (P := fun _ (noted : Found × List LineBacking) => ∀ l ∈ noted.2, ¬ ClearsAnims l .down)
          (R := fun _ _ _ => True) ?_ ?_).1
        · exact fun l hmem => absurd hmem List.not_mem_nil
        · intro i noted hi hnoted
          have hnone := hasPending_false hpending hi
          exact ⟨noting_keeps (fun _ _ => upAnimated_anims) hnone hnoted, trivial⟩

/-- An animation in one direction leaves none in the other. -/
theorem gridAddAnim_none
    (direction : AnimDirection) (h : NonePending direction.other l) (distance : ℚ) :
    NonePending direction.other (gridAddAnim l direction distance) := by
  simp only [gridAddAnim, if_neg h.keeps]
  split
  · rintro ⟨_, hdir⟩
    simp only at hdir
    cases direction <;> cases hdir
  · exact h

/-- A pass of a move leaves nothing that goes the other way. -/
theorem downMove_none
    (h : NonePending .down l) : NonePending .down (downMove found l).2 := by
  simp only [downMove]
  split
  · refine gridAddAnim_none .up ?_ _
    exact h
  · split
    · exact gridAddAnim_none .up h _
    · exact h

theorem upMove_none
    (h : NonePending .up l) : NonePending .up (upMove found l).2 := by
  simp only [upMove]
  split
  · refine gridAddAnim_none .down ?_ _
    exact h
  · split
    · exact gridAddAnim_none .down h _
    · exact h

/-- A frame starts no movement. -/
theorem frameMove_anims (multiplier : ℚ) (l : LineBacking) :
    (frameMove multiplier l).direction = l.direction ∧
      (frameMove multiplier l).pendingCount ≤ l.pendingCount := by
  simp only [frameMove]
  split
  · cases hdir : l.direction <;> simp only <;> split <;>
      exact ⟨rfl, by simp only; omega⟩
  · exact ⟨rfl, Int.le_refl _⟩

theorem frameLine_none
    {direction : AnimDirection} (h : NonePending direction l) :
    NonePending direction (frameLine l) := by
  have hsame := frameFade_same l
  obtain ⟨hdir, hcount⟩ := frameMove_anims (frameMultiplier l) (frameFade l)
  rintro ⟨hpos, hthis⟩
  simp only [frameLine] at hpos hthis
  rw [hdir, hsame.direction] at hthis
  rw [hsame.count] at hcount
  exact h ⟨by omega, hthis⟩

/-- What the moves and the frames keep. -/
structure ScrollInv (n : Int) (s : Scrolling) : Prop where
  done : s.grid.gridSetupDone = true
  lines : s.grid.numberOfLines = n
  top : 0 ≤ s.top
  line : ∀ i < s.grid.numberOfLines.toNat, LineInv s.top i (s.grid.browserLines i)
  oneWay : ∃ direction, ∀ i < s.grid.numberOfLines.toNat,
    NonePending direction (s.grid.browserLines i)

variable {n : Int} {scroll scroll' : Scrolling} {op : ScrollOp}

theorem LaidOut.inv (h : LaidOut n scroll) : ScrollInv n scroll := by
  obtain ⟨grid, top⟩ := scroll
  obtain ⟨htop, setup, hlines, hgrid⟩ := h
  simp only at htop hgrid
  subst htop
  subst hgrid
  have hline : ∀ i : Nat, i < (gridSetupFunc setup).numberOfLines.toNat →
      (gridSetupFunc setup).browserLines i = gridSetupLine i := by
    intro i hi
    have hbound : 0 ≤ (i : Int) ∧ (i : Int) < setup.numberOfLines := by
      have hcount : (gridSetupFunc setup).numberOfLines = setup.numberOfLines := rfl
      omega
    exact if_pos hbound
  constructor
  · rfl
  · exact hlines
  · exact Int.le_refl 0
  · intro i hi
    simp only at hi ⊢
    rw [hline i hi]
    exact gridSetupLine_inv i
  · refine ⟨.down, fun i hi => ?_⟩
    simp only at hi ⊢
    rw [hline i hi]
    exact fun hc => absurd hc.1 (Int.lt_irrefl 0)

/-- After a move down the list nothing goes down. -/
theorem gridDispatchNavigateDown_none
    (h : gridDispatchNavigateDown s = some s') :
    ∀ i < s.numberOfLines.toNat, NonePending .down (s'.browserLines i) := by
  simp only [gridDispatchNavigateDown] at h
  split at h
  · cases h
  · rename_i hpending
    have hpending : s.hasPending .down = false := by simpa using hpending
    obtain rfl := Option.some.inj h
    refine (scan_spec (P := fun _ _ => True)
      (R := fun _ _ l' => NonePending .down l') trivial ?_).2
    intro i found hi _
    obtain ⟨hbelow, hnone⟩ := finishMove_none hpending hi
    rw [hbelow]
    exact ⟨trivial, (downMove_none hnone).same (downLeave_same _ _).2⟩

/-- After a move up the list nothing goes up. -/
theorem gridDispatchNavigateUp_none
    (h : gridDispatchNavigateUp s = some s') :
    ∀ i < s.numberOfLines.toNat, NonePending .up (s'.browserLines i) := by
  simp only [gridDispatchNavigateUp] at h
  split at h
  · cases h
  · rename_i hpending
    have hpending : s.hasPending .up = false := by simpa using hpending
    obtain rfl := Option.some.inj h
    refine (scan_spec (P := fun _ _ => True)
      (R := fun _ _ l' => NonePending .up l') trivial ?_).2
    intro i found hi _
    have hnone := hasPending_false hpending hi
    exact ⟨trivial, (upMove_none hnone).same (upLeave_same _ _).2⟩

theorem ScrollStep.inv
    (hs : ScrollStep scroll op scroll') (h : ScrollInv n scroll) :
    ScrollInv n scroll' := by
  cases hs with
  | down hbelow hmove =>
      obtain ⟨hlines, hsame⟩ := gridDispatchNavigateDown_inv h.line h.top hmove
      have hnone := gridDispatchNavigateDown_none hmove
      have htop := h.top
      rw [hsame]
      refine ⟨h.done, h.lines, ?_, hlines, .down, hnone⟩
      simp only
      omega
  | downRefused => exact h
  | up habove hmove =>
      obtain ⟨hlines, hsame⟩ := gridDispatchNavigateUp_inv h.line habove hmove
      have hnone := gridDispatchNavigateUp_none hmove
      rw [hsame]
      refine ⟨h.done, h.lines, ?_, hlines, .up, hnone⟩
      simp only
      omega
  | upRefused => exact h
  | frame =>
      obtain ⟨direction, hnone⟩ := h.oneWay
      have hinside : ∀ i : Nat, i < scroll.grid.numberOfLines.toNat →
          (gridUpdateIconPositions scroll.grid).browserLines i =
            frameLine (scroll.grid.browserLines i) := by
        intro i hi
        simp only [gridUpdateIconPositions, h.done, if_true]
        exact eachBelow_inside (by omega) (by omega)
      have hkept : gridUpdateIconPositions scroll.grid =
          { scroll.grid with
            browserLines := (gridUpdateIconPositions scroll.grid).browserLines } := by
        simp only [gridUpdateIconPositions, h.done, if_true]
      rw [hkept]
      refine ⟨h.done, h.lines, h.top, fun i hi => ?_, direction, fun i hi => ?_⟩
      · simp only at hi ⊢
        rw [hinside i hi]
        exact frameLine_inv (h.line i hi)
      · simp only at hi ⊢
        rw [hinside i hi]
        exact frameLine_none (hnone i hi)

theorem ScrollInv.settling (h : ScrollInv n scroll) : Settling n scroll := by
  have hlines := h.lines
  have hline : ∀ i : Int, 0 ≤ i → i < n →
      LineInv scroll.top i (scroll.grid.browserLines i) := by
    intro i hi hn
    have hnat := h.line i.toNat (by omega)
    rw [Int.toNat_of_nonneg hi] at hnat
    exact hnat
  obtain ⟨direction, hnone⟩ := h.oneWay
  -- the direction that is not ruled out
  have hway : ∀ i : Int, 0 ≤ i → i < n →
      (scroll.grid.browserLines i).pendingCount ≠ 0 →
        (scroll.grid.browserLines i).direction ≠ direction := by
    intro i hi hn hpending hdir
    have hcount := (hline i hi hn).count
    have hnat := hnone i.toNat (by omega)
    rw [Int.toNat_of_nonneg hi] at hnat
    exact hnat ⟨by omega, hdir⟩
  constructor
  · exact hlines
  · intro i hi hn
    rw [(hline i hi hn).position]
    push_cast
    ring
  · intro i hi hn
    exact (hline i hi hn).rest
  · intro i j hi hni hj hnj hpi hpj
    have hleft := hway i hi hni hpi
    have hright := hway j hj hnj hpj
    cases hdi : (scroll.grid.browserLines i).direction <;>
      cases hdj : (scroll.grid.browserLines j).direction <;>
      cases direction <;> simp_all

/--
Whatever the moves and frames, the lines settle where they belong, what is
pending goes one way, and the next step clears no animation.
-/
theorem lines_settle
    (hreach : Reachable (LaidOut n) (anyStep ScrollStep) scroll) :
    Settling n scroll ∧
      ∀ op : ScrollOp, ∀ call ∈ op.animated scroll.grid,
        ¬ ClearsAnims call.1 call.2 := by
  have hinv : ScrollInv n scroll := by
    refine hreach.invariant (fun _ h => h.inv) ?_
    rintro _ _ h ⟨_, hs⟩
    exact hs.inv h
  refine ⟨hinv.settling, fun op call hmem => ?_⟩
  simp only [ScrollOp.animated] at hmem
  split at hmem
  · exact absurd hmem List.not_mem_nil
  · obtain ⟨l, hl, rfl⟩ := List.mem_map.1 hmem
    exact animated_not_clearsAnims scroll.grid _ l hl

/-- Five lines, one move down. -/
theorem lines_settle_five :
    ∃ scroll : Scrolling, scroll.top = 1 ∧
      getPositionAfter (scroll.grid.browserLines 4) = 272 := by
  obtain ⟨grid, hgrid⟩ : ∃ grid,
      gridDispatchNavigateDown (gridSetupFunc ⟨false, fun _ => .zero, 5, 0, 0⟩) =
        some grid := by
    refine Option.isSome_iff_exists.1 ?_
    decide +kernel
  have hstart : Reachable (LaidOut 5) (anyStep ScrollStep)
      ⟨gridSetupFunc ⟨false, fun _ => .zero, 5, 0, 0⟩, 0⟩ :=
    .start ⟨rfl, _, rfl, rfl⟩
  have hrun := hstart.step ⟨.down, .down (by decide) hgrid⟩
  have hsettle := (lines_settle hrun).1.position 4 (by decide) (by decide)
  refine ⟨_, rfl, hsettle.trans ?_⟩
  norm_num

end Grid
end Cubiboot
