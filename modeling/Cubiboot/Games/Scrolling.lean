import Cubiboot.Games.Ownership
import Cubiboot.Grid.Selection

/-!
# Scrolling the list

`gm_line_changed`.  A move of the list by one line loads the games of one line and
frees those of another; which lines these are, is worked out for each direction on
its own.

The lines the scroller keeps loaded are those from one above the screen to two
below it.

Results: `gmLineChanged_eq`, a move as a list of loads and a list of frees;
`inWindow_move`, the window before and after it; `forceUnload_eq_false`, what the
enumeration keeps; and `gridLines_enough`, that all entries have a line.
-/

namespace Cubiboot
namespace Games

open Grid

/-- `PRELOAD_LINE_COUNT`. -/
abbrev preloadLineCount : Int := 2

/--
`gm_line_load` of an `int`.  The entry numbers of a negative line count as large
unsigned words, and its loop ends at once.
-/
def gmLineLoadAt (s : GmState) (lineNum : Int) : GmState :=
  if lineNum < 0 then s else gmLineLoad s lineNum.toNat

/-- `gm_line_free` of an `int`. -/
def gmLineFreeAt (s : GmState) (lineNum : Int) : GmState :=
  if lineNum < 0 then s else gmLineFree s lineNum.toNat

/-- `gm_line_changed`. -/
def gmLineChanged (s : GmState) (numberOfLines topLineNum delta : Int) : GmState :=
  let newLineNum := topLineNum + delta
  if delta < 0 then
    let loadLine := newLineNum - preloadLineCount + 1
    let s := if loadLine ≥ 0 then gmLineLoadAt s loadLine else s
    let unloadLine := newLineNum + drawTotalRows + preloadLineCount
    if unloadLine < numberOfLines then gmLineFreeAt s unloadLine else s
  else if delta > 0 then
    let loadLine := newLineNum + drawTotalRows + preloadLineCount - 1
    let s := if loadLine < numberOfLines then gmLineLoadAt s loadLine else s
    let unloadLine := newLineNum - preloadLineCount
    if unloadLine ≥ 0 then gmLineFreeAt s unloadLine else s
  else
    s

/-- The line of an entry. -/
def lineOf (s : GmState) (e : Nat) : Int :=
  ((e - s.gmReleased) / assetsPerLine : Nat)

/-- The lines that are kept loaded while `top` is the first on the screen. -/
def InWindow (top line : Int) : Prop :=
  top - 1 ≤ line ∧ line ≤ top + 5

instance (top line : Int) : Decidable (InWindow top line) :=
  inferInstanceAs (Decidable (_ ∧ _))

/-- The games of a line. -/
def gamesAt (s : GmState) (lineNum : Int) : List Nat :=
  if lineNum < 0 then [] else lineGames s lineNum.toNat

/-- The line that a move by one line loads. -/
def loadedLine (top delta : Int) : Int :=
  if delta < 0 then top + delta - 1 else top + delta + 5

/-- The line that a move by one line frees. -/
def freedLine (top delta : Int) : Int :=
  if delta < 0 then top + delta + 6 else top + delta - 2

section Lemmas

variable {s : GmState} {e : Nat} {lineNum lines top delta : Int}

theorem mem_lineGames_iff {n : Nat} :
    e ∈ lineGames s n ↔ (s.entry e).type = .game ∧ s.gmReleased ≤ e ∧ e < s.nextEntry ∧
      (e - s.gmReleased) / assetsPerLine = n := by
  simp only [lineGames, entriesFrom, List.mem_filter, List.mem_map, decide_eq_true_eq,
    List.mem_range'_1, GmState.nextEntry, assetsPerLine]
  constructor
  · rintro ⟨⟨index, ⟨⟨i, hi, rfl⟩, hindex⟩, rfl⟩, hgame⟩
    exact ⟨hgame, by omega, by omega, by omega⟩
  · rintro ⟨hgame, hreleased, hnext, hline⟩
    exact ⟨⟨e - s.gmReleased, ⟨⟨(e - s.gmReleased) % 8, by omega, by omega⟩, by omega⟩,
      by omega⟩, hgame⟩

/-- The games of a line are the listed games with this line. -/
theorem mem_gamesAt :
    e ∈ gamesAt s lineNum ↔ (s.entry e).type = .game ∧ s.gmReleased ≤ e ∧ e < s.nextEntry ∧
      lineOf s e = lineNum := by
  rw [gamesAt, lineOf]
  by_cases hneg : lineNum < 0
  · rw [if_pos hneg]
    refine ⟨fun h => absurd h List.not_mem_nil, fun h => ?_⟩
    have hline := h.2.2.2
    simp only [assetsPerLine] at hline
    omega
  · rw [if_neg hneg, mem_lineGames_iff]
    refine and_congr_right fun _ => and_congr_right fun _ => and_congr_right fun _ => ?_
    omega

theorem gamesAt_nodup : (gamesAt s lineNum).Nodup := by
  rw [gamesAt]
  by_cases hneg : lineNum < 0
  · rw [if_pos hneg]
    exact List.nodup_nil
  · rw [if_neg hneg]
    exact lineGames_nodup s _

theorem gmLineLoadAt_eq :
    gmLineLoadAt s lineNum = (gamesAt s lineNum).foldl gmBannerLoad s := by
  rw [gmLineLoadAt, gamesAt]
  by_cases hneg : lineNum < 0
  · rw [if_pos hneg, if_pos hneg]
    rfl
  · rw [if_neg hneg, if_neg hneg, gmLineLoad_eq]

theorem gmLineFreeAt_eq :
    gmLineFreeAt s lineNum = (gamesAt s lineNum).foldl gmBannerFree s := by
  rw [gmLineFreeAt, gamesAt]
  by_cases hneg : lineNum < 0
  · rw [if_pos hneg, if_pos hneg]
    rfl
  · rw [if_neg hneg, if_neg hneg, gmLineFree_eq]

/-- Before the first and after the last line there are no games. -/
theorem gamesAt_outside
    (hfew : (s.gmEntryCount : Int) ≤ 8 * lines) (h : lineNum < 0 ∨ lines ≤ lineNum) :
    gamesAt s lineNum = [] := by
  refine List.eq_nil_iff_forall_not_mem.2 fun e he => ?_
  obtain ⟨-, hreleased, hnext, hline⟩ := mem_gamesAt.1 he
  simp only [lineOf, GmState.nextEntry, assetsPerLine] at hline hnext
  omega

theorem SameShape.lineOf {s' : GmState} (h : SameShape s s') (e : Nat) :
    lineOf s' e = lineOf s e := by
  rw [Games.lineOf, Games.lineOf, h.released]

theorem SameShape.gamesAt {s' : GmState} (h : SameShape s s') (lineNum : Int) :
    gamesAt s' lineNum = gamesAt s lineNum := by
  simp only [Games.gamesAt, lineGames, h.entriesFrom, h.type]

/-- A move loads the games of a line, and then frees those of another. -/
theorem gmLineChanged_eq
    (hdelta : delta = 1 ∨ delta = -1) (hfew : (s.gmEntryCount : Int) ≤ 8 * lines) :
    gmLineChanged s lines top delta =
      (gamesAt s (freedLine top delta)).foldl gmBannerFree
        ((gamesAt s (loadedLine top delta)).foldl gmBannerLoad s) := by
  have hload : ∀ line, (if line ≥ 0 then gmLineLoadAt s line else s) =
      (gamesAt s line).foldl gmBannerLoad s := by
    intro line
    by_cases hneg : line < 0
    · rw [if_neg (by omega), gamesAt, if_pos hneg]
      rfl
    · rw [if_pos (by omega), gmLineLoadAt_eq]
  have hload' : ∀ line, (if line < lines then gmLineLoadAt s line else s) =
      (gamesAt s line).foldl gmBannerLoad s := by
    intro line
    by_cases hline : line < lines
    · rw [if_pos hline, gmLineLoadAt_eq]
    · rw [if_neg hline, gamesAt_outside hfew (Or.inr (by omega))]
      rfl
  obtain ⟨loaded, hloaded⟩ : ∃ loaded, loaded =
      (gamesAt s (loadedLine top delta)).foldl gmBannerLoad s := ⟨_, rfl⟩
  have hshape : SameShape s loaded := by
    rw [hloaded]
    exact foldl_shape gmBannerLoad_shape _ s
  have hfew' : (loaded.gmEntryCount : Int) ≤ 8 * lines := by
    rw [hshape.count]
    exact hfew
  have hfree : ∀ line, (if line ≥ 0 then gmLineFreeAt loaded line else loaded) =
      (gamesAt s line).foldl gmBannerFree loaded := by
    intro line
    rw [← hshape.gamesAt]
    by_cases hneg : line < 0
    · rw [if_neg (by omega), gamesAt, if_pos hneg]
      rfl
    · rw [if_pos (by omega), gmLineFreeAt_eq]
  have hfree' : ∀ line, (if line < lines then gmLineFreeAt loaded line else loaded) =
      (gamesAt s line).foldl gmBannerFree loaded := by
    intro line
    rw [← hshape.gamesAt]
    by_cases hline : line < lines
    · rw [if_pos hline, gmLineFreeAt_eq]
    · rw [if_neg hline, gamesAt_outside hfew' (Or.inr (by omega))]
      rfl
  rw [← hloaded]
  rcases hdelta with rfl | rfl
  · have hline : top + 1 + drawTotalRows + preloadLineCount - 1 = loadedLine top 1 := by
      simp only [loadedLine, drawTotalRows, preloadLineCount]
      omega
    have hline' : top + 1 - preloadLineCount = freedLine top 1 := rfl
    rw [gmLineChanged, if_neg (by omega), if_pos (by omega)]
    simp only [hline, hload', ← hloaded, hline', hfree]
  · have hline : top + -1 - preloadLineCount + 1 = loadedLine top (-1) := by
      simp only [loadedLine, preloadLineCount]
      omega
    have hline' : top + -1 + drawTotalRows + preloadLineCount = freedLine top (-1) := by
      simp only [freedLine, drawTotalRows, preloadLineCount]
      omega
    rw [gmLineChanged, if_pos (by omega)]
    simp only [hline, hload, ← hloaded, hline', hfree']

/-- A move by one line changes the window by the line it loads and the line it frees. -/
theorem inWindow_move (hdelta : delta = 1 ∨ delta = -1) (line : Int) :
    InWindow (top + delta) line ↔
      (InWindow top line ∨ line = loadedLine top delta) ∧ line ≠ freedLine top delta := by
  rcases hdelta with rfl | rfl
  · simp only [InWindow, loadedLine, freedLine]
    omega
  · simp only [InWindow, loadedLine, freedLine]
    omega

end Lemmas

/-- `number_of_lines`, from the entries that have been accepted. -/
def listLines (s : GmState) : Int :=
  gridLines s.gmEntryCount

theorem gmSetupGrid_lines (g : GridState) (lineCount : Nat) (initial : Bool) :
    (gmSetupGrid g lineCount initial).numberOfLines = gridLines lineCount := by
  cases initial <;> rfl

theorem gridLines_enough (lineCount : Nat) : (lineCount : Int) ≤ 8 * gridLines lineCount := by
  simp only [gridLines]
  split <;> omega

/-- What the enumeration keeps in the pool, as long as no product is over a word. -/
theorem forceUnload_eq_false {s : GmState} (topLineNum : Nat)
    (hcount : s.gmEntryCount < 0x80000000)
    (htop : topLineNum * assetsPerLine < 0x80000000) :
    forceUnload s topLineNum = false ↔
      topLineNum * assetsPerLine ≤ s.gmEntryCount ∧
        s.gmEntryCount ≤ topLineNum * assetsPerLine + assetsInitialCount := by
  simp only [forceUnload, decide_eq_false_iff_not, assetsInitialCount, assetsPerLine] at *
  omega

end Games
end Cubiboot
