import Cubiboot.Foundations.Requests
import Cubiboot.Games.Discard
import Cubiboot.Games.Paths
import Mathlib.Data.List.Induction

/-!
# The selected game

`mcp_selected_entry` of `gameid.c` is set when a game is chosen in the menu, and
read by a hook on every message to the card thread.  The entry is released by
`gm_start_thread` when its directory is entered or left.

An entry is known by the number in which it was created: those below
`gmReleased` have been released.

Results: `apply_cases`, what an event can do to the selection; `apply_live`, the step
lemma; and `selection_live_iff`, for which runs of events the hook finds no entry that
has been released: those in which whatever leaves the selection behind, by entering or
leaving its directory, is followed by another choice.
-/

namespace Cubiboot
namespace Session

open Games Requests

/-- `current_gameselect_state`. -/
inductive GameselectState where
  | loader
  | start
deriving DecidableEq, Repr

/-- The variables of the menu, with the list of games. -/
structure SelectState where
  check : CheckState
  /-- `disable_mcp_select`. -/
  disableMcpSelect : Bool
  mcpSelectedEntry : Option Nat
  gameEnumRunning : Bool
  gameEnumPath : Path
  gameBackingCount : Nat
  selectedSlot : Nat
  gameselectState : GameselectState
  inSubmenuTransition : Bool

/-- `gm_get_game_entry`. -/
def gmGetGameEntry (s : GmState) (index : Nat) : Option Nat :=
  if index ≥ s.gmEntryCount then none else some (s.gmReleased + index)

/-- `mcp_set_gameid`, without the message it sends. -/
def mcpSetGameid (s : SelectState) (entry : Nat) : SelectState :=
  if s.disableMcpSelect then s else { s with mcpSelectedEntry := some entry }

/-- `gm_deinit_thread`: the worker is gone when it returns. -/
def deinitThread (s : SelectState) : SelectState :=
  { s with gameEnumRunning := false }

/-- `gm_start_thread`. -/
def startThread (s : SelectState) (target : Path) : SelectState :=
  if s.gameEnumRunning then
    s
  else
    { s with
      check := ⟨gmStartThread s.check.gm, aramStart, []⟩
      gameEnumRunning := true
      gameEnumPath := startPath s.gameEnumPath target
      gameBackingCount := 0 }

/-- B in `handle_gameselect_inputs`, and whether it returns. -/
def handleB (s : SelectState) : Bool × SelectState :=
  if s.gameselectState = .start ∧ s.inSubmenuTransition = false then
    (false, { s with inSubmenuTransition := true, gameselectState := .loader })
  else if s.inSubmenuTransition = false then
    if s.gameEnumPath ≠ rootPath then
      (false, startThread (deinitThread s) parentTarget)
    else
      (true, s)
  else
    (false, s)

/-- A in `handle_gameselect_inputs`, on an entry. -/
def chooseEntry (s : SelectState) (entry : Nat) : SelectState :=
  if (s.check.gm.entry entry).type = .directory then
    startThread (deinitThread s) ((s.check.gm.entry entry).path ++ [0x2F])
  else if (s.check.gm.entry entry).type = .game then
    mcpSetGameid { s with inSubmenuTransition := true, gameselectState := .start } entry
  else
    { s with inSubmenuTransition := true, gameselectState := .start }

/-- A in `handle_gameselect_inputs`. -/
def handleA (s : SelectState) : SelectState :=
  if s.gameselectState = .loader ∧
      s.selectedSlot < s.gameBackingCount ∧ s.inSubmenuTransition = false then
    match gmGetGameEntry s.check.gm s.selectedSlot with
    | none => s
    | some entry => chooseEntry s entry
  else
    s

/-- `handle_gameselect_inputs`, B and A. -/
def handleGameselectInputs (s : SelectState) (b a : Bool) : SelectState :=
  match if b then handleB s else (false, s) with
  | (true, s) => s
  | (false, s) => if a then handleA s else s

/-- What happens in the menu, in the worker and to the card thread. -/
inductive SelectEvent where
  /-- A frame of the menu, with the buttons that go down. -/
  | inputs (b a : Bool)
  /-- The stick, or `grid_setup_func`. -/
  | slot (selectedSlot : Nat)
  /-- The pictures of the submenu have changed over. -/
  | transitionEnds
  /-- `pre_menu_alpha_setup`, as the list of games is entered. -/
  | menuEntered
  /-- One pass of the loop of `gm_check_files`. -/
  | checkFile (f : ListedFile)
  /-- The worker clears `game_enum_running`. -/
  | finish
  /-- `pre_custom_card_OSSendMessage`. -/
  | message

/-- The state after an event. -/
def SelectEvent.apply (s : SelectState) : SelectEvent → SelectState
  | .inputs b a => handleGameselectInputs s b a
  | .slot selectedSlot => { s with selectedSlot := selectedSlot }
  | .transitionEnds => { s with inSubmenuTransition := false }
  | .menuEntered => { s with gameselectState := .loader }
  | .checkFile f =>
      if s.gameEnumRunning then
        { s with
          check := gmCheckFile s.check f
          gameBackingCount := (gmCheckFile s.check f).gm.gmEntryCount }
      else
        s
  | .finish => { s with gameEnumRunning := false }
  | .message => s

/-- The state after a run of events. -/
def runSelect (s : SelectState) (events : List SelectEvent) : SelectState :=
  events.foldl SelectEvent.apply s

/-- No game has been selected, or the entry of the one that has is still there. -/
def SelectionLive (s : SelectState) : Prop :=
  ∀ entry, s.mcpSelectedEntry = some entry → s.check.gm.gmReleased ≤ entry

/-- The menu has come up. -/
structure MenuUp (s : SelectState) : Prop where
  selected : s.mcpSelectedEntry = none

/-- The entry that A is pressed on. -/
def chosenEntry (s : SelectState) : SelectEvent → Option Nat
  | .inputs false true =>
      if s.gameselectState = .loader ∧
          s.selectedSlot < s.gameBackingCount ∧ s.inSubmenuTransition = false then
        gmGetGameEntry s.check.gm s.selectedSlot
      else
        none
  | _ => none

/-- A game is selected. -/
def Selects (s : SelectState) (a : SelectEvent) : Prop :=
  s.disableMcpSelect = false ∧
    ∃ entry, chosenEntry s a = some entry ∧ (s.check.gm.entry entry).type = .game

/-- The directory above is gone to. -/
def LeavesDirectory (s : SelectState) : SelectEvent → Prop
  | .inputs true _ =>
      s.gameselectState = .loader ∧ s.inSubmenuTransition = false ∧
        s.gameEnumPath ≠ rootPath
  | _ => False

/-- A directory is gone into. -/
def EntersDirectory (s : SelectState) (a : SelectEvent) : Prop :=
  ∃ entry, chosenEntry s a = some entry ∧ (s.check.gm.entry entry).type = .directory

/-- The list of games is replaced. -/
def ChangesDirectory (s : SelectState) (a : SelectEvent) : Prop :=
  LeavesDirectory s a ∨ EntersDirectory s a

/-- The list of games is replaced, a game having been selected before. -/
def LeavesSelection (s : SelectState) (a : SelectEvent) : Prop :=
  ChangesDirectory s a ∧ s.mcpSelectedEntry ≠ none

variable {s s' : SelectState} {a : SelectEvent}

theorem gmGetGameEntry_bounds {gm : GmState} {index entry : Nat}
    (h : gmGetGameEntry gm index = some entry) :
    gm.gmReleased ≤ entry ∧ entry < gm.nextEntry := by
  simp only [gmGetGameEntry] at h
  split at h
  · cases h
  · cases h
    simp only [GmState.nextEntry]
    omega

theorem chosenEntry_bounds {entry : Nat} (h : chosenEntry s a = some entry) :
    s.check.gm.gmReleased ≤ entry ∧ entry < s.check.gm.nextEntry := by
  cases a with
  | inputs b c =>
      cases b <;> cases c <;> simp only [chosenEntry] at h
      · cases h
      · split at h
        · exact gmGetGameEntry_bounds h
        · cases h
      · cases h
      · cases h
  | _ => cases h

/-- The list has been replaced, its entries released. -/
structure Replaced (s s' : SelectState) : Prop where
  released : s'.check.gm.gmReleased = s.check.gm.nextEntry
  selected : s'.mcpSelectedEntry = s.mcpSelectedEntry

/-- The list is the same, or longer. -/
structure Kept (s s' : SelectState) : Prop where
  released : s'.check.gm.gmReleased = s.check.gm.gmReleased
  longer : s.check.gm.nextEntry ≤ s'.check.gm.nextEntry

theorem Kept.refl (s : SelectState) : Kept s s :=
  ⟨rfl, le_rfl⟩

theorem restart_replaced (s : SelectState) (target : Path) :
    Replaced s (startThread (deinitThread s) target) :=
  ⟨rfl, rfl⟩

/-- Nothing can be chosen right after the list has been replaced. -/
theorem handleA_restarted (s : SelectState) (target : Path) :
    handleA (startThread (deinitThread s) target) = startThread (deinitThread s) target := by
  have hempty : (startThread (deinitThread s) target).gameBackingCount = 0 := rfl
  simp only [handleA, hempty]
  rw [if_neg fun h => absurd h.2.1 (Nat.not_lt_zero _)]

/-- A is not looked at while the pictures change over. -/
theorem handleA_transition (h : s.inSubmenuTransition = true) : handleA s = s := by
  simp only [handleA, h]
  rw [if_neg fun h => Bool.noConfusion h.2.2]

/-- B, whatever becomes of A. -/
theorem handleInputs_b (s : SelectState) (c : Bool) :
    (LeavesDirectory s (.inputs true c) ∧
        Replaced s (handleGameselectInputs s true c)) ∨
      (¬ LeavesDirectory s (.inputs true c) ∧
        (handleGameselectInputs s true c).check = s.check ∧
        (handleGameselectInputs s true c).mcpSelectedEntry = s.mcpSelectedEntry) := by
  cases htrans : s.inSubmenuTransition with
  | true =>
      refine Or.inr ⟨fun h => ?_, ?_⟩
      · rw [LeavesDirectory, htrans] at h
        exact Bool.noConfusion h.2.1
      · have hb : handleB s = (false, s) := by
          simp [handleB, htrans]
        cases c <;> simp [handleGameselectInputs, hb, handleA_transition htrans]
  | false =>
      cases hstate : s.gameselectState with
      | start =>
          refine Or.inr ⟨fun h => ?_, ?_⟩
          · rw [LeavesDirectory, hstate] at h
            exact GameselectState.noConfusion h.1
          · have hb : handleB s =
                (false, { s with inSubmenuTransition := true, gameselectState := .loader }) := by
              simp [handleB, htrans, hstate]
            cases c <;> simp [handleGameselectInputs, hb, handleA_transition]
      | loader =>
          by_cases hroot : s.gameEnumPath = rootPath
          · refine Or.inr ⟨fun h => h.2.2 hroot, ?_⟩
            have hb : handleB s = (true, s) := by
              simp [handleB, htrans, hstate, hroot]
            simp [handleGameselectInputs, hb]
          · refine Or.inl ⟨⟨hstate, htrans, hroot⟩, ?_⟩
            have hb : handleB s = (false, startThread (deinitThread s) parentTarget) := by
              simp [handleB, htrans, hstate, hroot]
            cases c with
            | false =>
                simp only [handleGameselectInputs, hb]
                exact restart_replaced s _
            | true =>
                simp only [handleGameselectInputs, hb, if_true, handleA_restarted]
                exact restart_replaced s _

theorem chooseEntry_replaced {entry : Nat}
    (h : (s.check.gm.entry entry).type = .directory) :
    Replaced s (chooseEntry s entry) := by
  rw [chooseEntry, if_pos h]
  exact restart_replaced s _

theorem chooseEntry_kept {entry : Nat}
    (h : (s.check.gm.entry entry).type ≠ .directory) :
    (chooseEntry s entry).check = s.check ∧
      (chooseEntry s entry).mcpSelectedEntry =
        if (s.check.gm.entry entry).type = .game ∧ s.disableMcpSelect = false then
          some entry
        else
          s.mcpSelectedEntry := by
  rw [chooseEntry, if_neg h]
  split
  · rename_i hgame
    cases s.disableMcpSelect <;> simp [mcpSetGameid, hgame]
  · rename_i hgame
    simp [hgame]

/-- A alone: it does what is done with the entry it is pressed on. -/
theorem handleInputs_a (s : SelectState) :
    handleGameselectInputs s false true =
      match chosenEntry s (.inputs false true) with
      | none => s
      | some entry => chooseEntry s entry := by
  simp only [handleGameselectInputs, handleA, chosenEntry, Bool.false_eq_true, if_false,
    if_true]
  split
  · rfl
  · rfl

/-- An event that is no press on an entry selects nothing, and enters no directory. -/
theorem not_selects_of_unchosen (h : chosenEntry s a = none) :
    ¬ EntersDirectory s a ∧ ¬ Selects s a := by
  constructor
  · rintro ⟨entry, hsome, _⟩
    rw [h] at hsome
    cases hsome
  · rintro ⟨_, entry, hsome, _⟩
    rw [h] at hsome
    cases hsome

/-- An event that is no press on an entry and leaves no directory. -/
theorem stays_of_unchosen (hnone : chosenEntry s a = none) (hleaves : ¬ LeavesDirectory s a)
    (hkept : Kept s (a.apply s))
    (hselected : (a.apply s).mcpSelectedEntry = s.mcpSelectedEntry) :
    ¬ ChangesDirectory s a ∧ ¬ Selects s a ∧ Kept s (a.apply s) ∧
      (a.apply s).mcpSelectedEntry = s.mcpSelectedEntry :=
  ⟨fun h => h.elim hleaves (not_selects_of_unchosen hnone).1,
    (not_selects_of_unchosen hnone).2, hkept, hselected⟩

/-- A press on an entry enters a directory, or selects a game, or does neither. -/
theorem press_cases {entry : Nat} (hchosen : chosenEntry s (.inputs false true) = some entry) :
    (ChangesDirectory s (.inputs false true) ∧ ¬ Selects s (.inputs false true) ∧
        Replaced s (chooseEntry s entry)) ∨
      (Selects s (.inputs false true) ∧ ¬ ChangesDirectory s (.inputs false true) ∧
        Kept s (chooseEntry s entry) ∧ (chooseEntry s entry).mcpSelectedEntry = some entry) ∨
      (¬ ChangesDirectory s (.inputs false true) ∧ ¬ Selects s (.inputs false true) ∧
        Kept s (chooseEntry s entry) ∧
        (chooseEntry s entry).mcpSelectedEntry = s.mcpSelectedEntry) := by
  by_cases hdir : (s.check.gm.entry entry).type = .directory
  · refine Or.inl ⟨Or.inr ⟨entry, hchosen, hdir⟩, ?_, chooseEntry_replaced hdir⟩
    rintro ⟨_, entry', hchosen', hgame⟩
    rw [hchosen] at hchosen'
    cases hchosen'
    rw [hdir] at hgame
    cases hgame
  · obtain ⟨hcheck, hselected⟩ := chooseEntry_kept hdir
    have hkept : Kept s (chooseEntry s entry) := by
      constructor
      · rw [hcheck]
      · rw [hcheck]
    have hchanges : ¬ ChangesDirectory s (.inputs false true) := by
      rintro (hleaves | ⟨entry', hchosen', hdir'⟩)
      · exact hleaves
      · rw [hchosen] at hchosen'
        cases hchosen'
        exact hdir hdir'
    by_cases hgame : (s.check.gm.entry entry).type = .game ∧ s.disableMcpSelect = false
    · rw [if_pos hgame] at hselected
      exact Or.inr (Or.inl ⟨⟨hgame.2, entry, hchosen, hgame.1⟩, hchanges, hkept, hselected⟩)
    · rw [if_neg hgame] at hselected
      refine Or.inr (Or.inr ⟨hchanges, ?_, hkept, hselected⟩)
      rintro ⟨hdisable, entry', hchosen', hgame'⟩
      rw [hchosen] at hchosen'
      cases hchosen'
      exact hgame ⟨hgame', hdisable⟩

/-- An event replaces the list, or selects a game of it, or does neither. -/
theorem apply_cases (s : SelectState) (a : SelectEvent) :
    (ChangesDirectory s a ∧ ¬ Selects s a ∧ Replaced s (a.apply s)) ∨
      (Selects s a ∧ ¬ ChangesDirectory s a ∧ Kept s (a.apply s) ∧
        ∃ entry, chosenEntry s a = some entry ∧
          (a.apply s).mcpSelectedEntry = some entry) ∨
      (¬ ChangesDirectory s a ∧ ¬ Selects s a ∧ Kept s (a.apply s) ∧
        (a.apply s).mcpSelectedEntry = s.mcpSelectedEntry) := by
  cases a with
  | inputs b c =>
      cases b with
      | true =>
          rcases handleInputs_b s c with ⟨hleaves, hreplaced⟩ | ⟨hleaves, hcheck, hselected⟩
          · exact Or.inl ⟨Or.inl hleaves, (not_selects_of_unchosen rfl).2, hreplaced⟩
          · refine Or.inr (Or.inr (stays_of_unchosen rfl hleaves ?_ hselected))
            constructor
            · rw [SelectEvent.apply, hcheck]
            · rw [SelectEvent.apply, hcheck]
      | false =>
          cases c with
          | false => exact Or.inr (Or.inr (stays_of_unchosen rfl id (.refl s) rfl))
          | true =>
              have hpress := handleInputs_a s
              cases hchosen : chosenEntry s (.inputs false true) with
              | none =>
                  rw [hchosen] at hpress
                  refine Or.inr (Or.inr (stays_of_unchosen hchosen id ?_ ?_))
                  · rw [SelectEvent.apply, hpress]
                    exact .refl s
                  · rw [SelectEvent.apply, hpress]
              | some entry =>
                  rw [hchosen] at hpress
                  rw [SelectEvent.apply, hpress]
                  rcases press_cases hchosen with hchanges |
                    ⟨hselects, hchanges, hkept, hselected⟩ | hstays
                  · exact Or.inl hchanges
                  · exact Or.inr (Or.inl ⟨hselects, hchanges, hkept, entry, rfl, hselected⟩)
                  · exact Or.inr (Or.inr hstays)
  | checkFile f =>
      refine Or.inr (Or.inr (stays_of_unchosen rfl id ?_ ?_))
      · rw [SelectEvent.apply]
        split
        · exact ⟨gmCheckFile_released s.check f, (gmCheckFile_others s.check f).1⟩
        · exact .refl s
      · rw [SelectEvent.apply]
        split
        · rfl
        · rfl
  | slot n => exact Or.inr (Or.inr (stays_of_unchosen rfl id ⟨rfl, le_rfl⟩ rfl))
  | transitionEnds => exact Or.inr (Or.inr (stays_of_unchosen rfl id ⟨rfl, le_rfl⟩ rfl))
  | menuEntered => exact Or.inr (Or.inr (stays_of_unchosen rfl id ⟨rfl, le_rfl⟩ rfl))
  | finish => exact Or.inr (Or.inr (stays_of_unchosen rfl id ⟨rfl, le_rfl⟩ rfl))
  | message => exact Or.inr (Or.inr (stays_of_unchosen rfl id (.refl s) rfl))

/-- The selected entry has been created. -/
def SelectionCreated (s : SelectState) : Prop :=
  ∀ entry, s.mcpSelectedEntry = some entry → entry < s.check.gm.nextEntry

theorem apply_created (h : SelectionCreated s) : SelectionCreated (a.apply s) := by
  intro entry hentry
  rcases apply_cases s a with ⟨_, _, hreplaced⟩ | ⟨_, _, hkept, chosen, hchosen, hselected⟩ |
    ⟨_, _, hkept, hselected⟩
  · rw [hreplaced.selected] at hentry
    have hold := h entry hentry
    simp only [GmState.nextEntry, hreplaced.released] at hold ⊢
    omega
  · rw [hselected] at hentry
    cases hentry
    exact Nat.lt_of_lt_of_le (chosenEntry_bounds hchosen).2 hkept.longer
  · rw [hselected] at hentry
    exact Nat.lt_of_lt_of_le (h entry hentry) hkept.longer

theorem runSelect_created {s₀ : SelectState} (h : MenuUp s₀) (events : List SelectEvent) :
    SelectionCreated (runSelect s₀ events) := by
  induction events using List.reverseRecOn with
  | nil =>
      intro entry hentry
      rw [runSelect, List.foldl_nil, h.selected] at hentry
      cases hentry
  | append_singleton events a ih =>
      rw [runSelect, List.foldl_append]
      exact apply_created ih

/-- What one more event does to the selection. -/
theorem apply_live (h : SelectionCreated s) :
    SelectionLive (a.apply s) ↔
      ¬ LeavesSelection s a ∧ (Selects s a ∨ SelectionLive s) := by
  rcases apply_cases s a with ⟨hchanges, hselects, hreplaced⟩ |
    ⟨hselects, hchanges, hkept, chosen, hchosen, hselected⟩ |
    ⟨hchanges, hselects, hkept, hselected⟩
  · constructor
    · intro hlive
      have hnone : s.mcpSelectedEntry = none := by
        cases hentry : s.mcpSelectedEntry with
        | none => rfl
        | some entry =>
            have hold := hlive entry (hreplaced.selected.trans hentry)
            rw [hreplaced.released] at hold
            exact absurd (h entry hentry) (Nat.not_lt_of_le hold)
      refine ⟨fun hleaves => hleaves.2 hnone, Or.inr fun entry hentry => ?_⟩
      rw [hnone] at hentry
      cases hentry
    · rintro ⟨hleaves, _⟩ entry hentry
      rw [hreplaced.selected] at hentry
      refine absurd ⟨hchanges, ?_⟩ hleaves
      rw [hentry]
      exact Option.some_ne_none entry
  · refine iff_of_true (fun entry hentry => ?_) ⟨fun hleaves => hchanges hleaves.1, Or.inl hselects⟩
    rw [hselected] at hentry
    cases hentry
    rw [hkept.released]
    exact (chosenEntry_bounds hchosen).1
  · have hsame : SelectionLive (a.apply s) ↔ SelectionLive s := by
      simp only [SelectionLive, hselected, hkept.released]
    rw [hsame]
    constructor
    · exact fun hlive => ⟨fun hleaves => hchanges hleaves.1, Or.inr hlive⟩
    · exact fun hlive => hlive.2.resolve_left hselects

/--
After any run of events the card thread finds no selected game, or one whose entry
is still there, just when every change of directory with a game selected has been
followed by the selection of another.
-/
theorem selection_live_iff {s₀ : SelectState} (h : MenuUp s₀) (events : List SelectEvent) :
    SelectionLive (runSelect s₀ events) ↔
      Answered SelectEvent.apply LeavesSelection Selects s₀ events := by
  induction events using List.reverseRecOn with
  | nil =>
      refine iff_of_true (fun entry hentry => ?_) answered_nil
      rw [runSelect, List.foldl_nil, h.selected] at hentry
      cases hentry
  | append_singleton events a ih =>
      have hstep : runSelect s₀ (events ++ [a]) = a.apply (runSelect s₀ events) := by
        rw [runSelect, List.foldl_append]
        rfl
      rw [hstep, apply_live (runSelect_created h events), ih, answered_snoc]
      rfl

/-- The list of games of the root, its enumeration just started. -/
def rootMenu : SelectState where
  check := ⟨.blank, aramStart, []⟩
  disableMcpSelect := false
  mcpSelectedEntry := none
  gameEnumRunning := true
  gameEnumPath := rootPath
  gameBackingCount := 0
  selectedSlot := 0
  gameselectState := .loader
  inSubmenuTransition := false

/-- A directory `/d` in the root. -/
def subdirectory : ListedFile :=
  { sampleGame with path := ⟨[0x2F, 0x64], .directory⟩ }

/-- The game is selected and left again, and the directory beside it is entered. -/
def gameThenDirectory : List SelectEvent :=
  [.checkFile subdirectory, .checkFile sampleGame, .slot 1, .inputs false true, .transitionEnds,
    .inputs true false, .transitionEnds, .slot 0, .inputs false true]

/-- The next message reads an entry that has been released. -/
theorem directory_after_game :
    (runSelect rootMenu gameThenDirectory).mcpSelectedEntry = some 1 ∧
      (runSelect rootMenu gameThenDirectory).check.gm.gmReleased = 2 ∧
      ¬ SelectionLive (runSelect rootMenu gameThenDirectory) := by
  have hselected : (runSelect rootMenu gameThenDirectory).mcpSelectedEntry = some 1 := by
    decide +kernel
  have hreleased : (runSelect rootMenu gameThenDirectory).check.gm.gmReleased = 2 := by
    decide +kernel
  refine ⟨hselected, hreleased, fun hlive => ?_⟩
  have hbound := hlive 1 hselected
  rw [hreleased] at hbound
  exact absurd hbound (by decide)

/-- The game is selected, and no directory has been entered since. -/
theorem selection_live_after_game :
    SelectionLive
      (runSelect rootMenu [.checkFile sampleGame, .inputs false true, .message]) := by
  refine (selection_live_iff ⟨rfl⟩ _).2 ?_
  have hchecked : Answered SelectEvent.apply LeavesSelection Selects rootMenu
      ([] ++ [.checkFile sampleGame]) :=
    answered_snoc.2 ⟨fun h => h.2 rfl, Or.inr answered_nil⟩
  have hselected : Answered SelectEvent.apply LeavesSelection Selects rootMenu
      ([.checkFile sampleGame] ++ [.inputs false true]) := by
    refine answered_snoc.2 ⟨fun h => h.2 ?_, Or.inr hchecked⟩
    decide +kernel
  refine (answered_snoc (b := .message)).2 ⟨fun h => ?_, Or.inr hselected⟩
  rcases h.1 with hleaves | ⟨_, hnone, _⟩
  · exact hleaves
  · cases hnone

end Session
end Cubiboot
