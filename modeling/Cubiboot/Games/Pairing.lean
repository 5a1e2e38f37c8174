import Cubiboot.Foundations.Folds
import Cubiboot.Games.GameList
import Mathlib.Data.List.FinRange

/-!
# Games on more than one disc

The loops at the end of `gm_check_files`, which link the discs of a game to each other.
An entry is known by its place in `gm_entry_backing`.

A game on two discs has two files with the same first six characters of the game's id
and different numbers of the disc. The outer loop takes the entries that are not the
first disc, the inner one all entries, and each match links both.

Results: `pairWith_sound` and `pairEntry_sound`, that the passes link discs of one game
only; `pairWith_links` and `pairEntry_links`, that they link those there are;
`pairDiscs_linked` and `pairDiscs_sound`, the two loops; and `pairing_complete`, which
entries are linked after them, and to what.
-/

namespace Cubiboot
namespace Games

open Folds

variable {n : Nat}

/-- `second` of the entries. -/
abbrev Links (n : Nat) := Fin n → Option (Fin n)

/-- `memcmp(a, b, 6) == 0`. -/
def sameGameId (a b : GmExtra) : Bool :=
  a.gameId.take 6 == b.gameId.take 6

/-- The inner loop for one entry: `entry2` is `gm_entry_backing[j]`. -/
def pairWith (entries : Fin n → GmFileEntry) (i : Fin n) (second : Links n) (j : Fin n) :
    Links n :=
  if (entries j).type ≠ .game then
    second
  else if j = i then
    second
  else
    let isSameGame := sameGameId (entries i).extra (entries j).extra
    let isDifferentDisc := (entries i).extra.discNum != (entries j).extra.discNum
    if isSameGame && isDifferentDisc then
      Function.update (Function.update second i (some j)) j (some i)
    else
      second

/-- The outer loop for one entry: it is not for the first disc. -/
def pairEntry (entries : Fin n → GmFileEntry) (second : Links n) (i : Fin n) : Links n :=
  if (entries i).type ≠ .game then
    second
  else if (entries i).extra.discNum = 0 then
    second
  else
    (List.finRange n).foldl (pairWith entries i) second

/-- The entries are cleared when they are made. -/
def noLinks : Links n :=
  fun _ => none

/-- `second` of the entries at the end of `gm_check_files`. -/
def pairDiscs (entries : Fin n → GmFileEntry) : Links n :=
  (List.finRange n).foldl (pairEntry entries) noLinks

/-- Both entries are discs of one game, and not the same disc. -/
structure OtherDisc (entries : Fin n → GmFileEntry) (i j : Fin n) : Prop where
  game : (entries i).type = .game
  other : (entries j).type = .game
  gameId : (entries i).extra.gameId.take 6 = (entries j).extra.gameId.take 6
  discNum : (entries i).extra.discNum ≠ (entries j).extra.discNum

/-- Every link leads to another disc of the game. -/
def LinksSound (entries : Fin n → GmFileEntry) (second : Links n) : Prop :=
  ∀ i j, second i = some j → OtherDisc entries i j

variable {entries : Fin n → GmFileEntry} {i j : Fin n} {second : Links n}

theorem OtherDisc.symm (h : OtherDisc entries i j) : OtherDisc entries j i :=
  ⟨h.other, h.game, h.gameId.symm, h.discNum.symm⟩

/-- An entry is not another disc of its own. -/
theorem OtherDisc.ne (h : OtherDisc entries i j) : j ≠ i := by
  rintro rfl
  exact h.discNum rfl

/-- Of two discs one is not the first. -/
theorem OtherDisc.later (h : OtherDisc entries i j) :
    (entries i).extra.discNum ≠ 0 ∨ (entries j).extra.discNum ≠ 0 := by
  by_contra hno
  rw [not_or, not_not, not_not] at hno
  exact h.discNum (hno.1.trans hno.2.symm)

/-- What one pass of the inner loop does. -/
theorem pairWith_cases (hgame : (entries i).type = .game) (j : Fin n) (second : Links n) :
    (OtherDisc entries i j ∧ pairWith entries i second j =
      Function.update (Function.update second i (some j)) j (some i)) ∨
    (¬ OtherDisc entries i j ∧ pairWith entries i second j = second) := by
  by_cases hother : OtherDisc entries i j
  · refine Or.inl ⟨hother, ?_⟩
    have hsame : (sameGameId (entries i).extra (entries j).extra &&
        (entries i).extra.discNum != (entries j).extra.discNum) = true := by
      rw [Bool.and_eq_true, sameGameId, beq_iff_eq, bne_iff_ne]
      exact ⟨hother.gameId, hother.discNum⟩
    rw [pairWith, if_neg (not_not.2 hother.other), if_neg hother.ne]
    exact if_pos hsame
  · refine Or.inr ⟨hother, ?_⟩
    rw [pairWith]
    by_cases htype : (entries j).type = .game
    · by_cases hself : j = i
      · rw [if_neg (not_not.2 htype), if_pos hself]
      · have hdiffer : ¬ (sameGameId (entries i).extra (entries j).extra &&
            (entries i).extra.discNum != (entries j).extra.discNum) = true := by
          rw [Bool.and_eq_true, sameGameId, beq_iff_eq, bne_iff_ne]
          exact fun h => hother ⟨hgame, htype, h.1, h.2⟩
        rw [if_neg (not_not.2 htype), if_neg hself]
        exact if_neg hdiffer
    · rw [if_pos htype]

theorem pairWith_sound (hgame : (entries i).type = .game) (j : Fin n)
    (hsound : LinksSound entries second) : LinksSound entries (pairWith entries i second j) := by
  rcases pairWith_cases hgame j second with ⟨hother, hpass⟩ | ⟨_, hpass⟩
  · rw [hpass]
    intro k l hk
    by_cases hkj : k = j
    · subst hkj
      rw [Function.update_self, Option.some_inj] at hk
      rw [← hk]
      exact hother.symm
    · by_cases hki : k = i
      · subst hki
        rw [Function.update_of_ne hkj, Function.update_self, Option.some_inj] at hk
        rw [← hk]
        exact hother
      · rw [Function.update_of_ne hkj, Function.update_of_ne hki] at hk
        exact hsound k l hk
  · rw [hpass]
    exact hsound

/-- An entry that is linked stays so, perhaps to another disc. -/
theorem pairWith_linked (hgame : (entries i).type = .game) (j : Fin n) {k : Fin n}
    (hk : (second k).isSome = true) : (pairWith entries i second j k).isSome = true := by
  rcases pairWith_cases hgame j second with ⟨hother, hpass⟩ | ⟨_, hpass⟩
  · rw [hpass]
    by_cases hkj : k = j
    · rw [hkj, Function.update_self]
      rfl
    · by_cases hki : k = i
      · rw [hki, Function.update_of_ne hother.ne.symm, Function.update_self]
        rfl
      · rw [Function.update_of_ne hkj, Function.update_of_ne hki]
        exact hk
  · rw [hpass]
    exact hk

/-- The pass for another disc links both entries. -/
theorem pairWith_links (hother : OtherDisc entries i j) (second : Links n) :
    (pairWith entries i second j i).isSome = true ∧
      (pairWith entries i second j j).isSome = true := by
  rcases pairWith_cases hother.game j second with ⟨_, hpass⟩ | ⟨hno, _⟩
  · rw [hpass, Function.update_self, Function.update_of_ne hother.ne.symm, Function.update_self]
    exact ⟨rfl, rfl⟩
  · exact absurd hother hno

/-- The loop for one entry is not run, or is run for a game. -/
theorem pairEntry_cases (entries : Fin n → GmFileEntry) (second : Links n) (i : Fin n) :
    pairEntry entries second i = second ∨
      (entries i).type = .game ∧
        pairEntry entries second i = (List.finRange n).foldl (pairWith entries i) second := by
  rw [pairEntry]
  split
  · exact Or.inl rfl
  · rename_i htype
    split
    · exact Or.inl rfl
    · exact Or.inr ⟨not_not.1 htype, rfl⟩

theorem pairEntry_sound (i : Fin n) (hsound : LinksSound entries second) :
    LinksSound entries (pairEntry entries second i) := by
  rcases pairEntry_cases entries second i with hpass | ⟨hgame, hpass⟩
  · rw [hpass]
    exact hsound
  · rw [hpass]
    exact List.foldlRecOn _ _ hsound fun links hlinks j _ => pairWith_sound hgame j hlinks

theorem pairEntry_linked (i : Fin n) {k : Fin n} (hk : (second k).isSome = true) :
    (pairEntry entries second i k).isSome = true := by
  rcases pairEntry_cases entries second i with hpass | ⟨hgame, hpass⟩
  · rw [hpass]
    exact hk
  · rw [hpass]
    refine List.foldlRecOn (motive := fun links : Links n => (links k).isSome = true) _ _ hk ?_
    exact fun links hlinks j _ => pairWith_linked hgame j hlinks

/-- The loop for a later disc links it and the other discs of its game. -/
theorem pairEntry_links (hother : OtherDisc entries i j)
    (hlater : (entries i).extra.discNum ≠ 0) (second : Links n) :
    (pairEntry entries second i i).isSome = true ∧
      (pairEntry entries second i j).isSome = true := by
  rw [pairEntry, if_neg (not_not.2 hother.game), if_neg hlater]
  refine foldl_reaches (P := fun links : Links n =>
    (links i).isSome = true ∧ (links j).isSome = true) second (List.mem_finRange j) ?_
    (pairWith_links hother)
  rintro links k - ⟨hi, hj⟩
  exact ⟨pairWith_linked hother.game k hi, pairWith_linked hother.game k hj⟩

/-- An entry is linked when another disc of its game is there, and to such a disc. -/
theorem pairDiscs_linked (hother : OtherDisc entries i j) :
    (pairDiscs entries i).isSome = true := by
  have hkeep : ∀ links : Links n, ∀ k ∈ List.finRange n, (links i).isSome = true →
      (pairEntry entries links k i).isSome = true :=
    fun links k _ hi => pairEntry_linked k hi
  rcases hother.later with hlater | hlater
  · exact foldl_reaches (P := fun links : Links n => (links i).isSome = true) noLinks
      (List.mem_finRange i) hkeep fun links => (pairEntry_links hother hlater links).1
  · exact foldl_reaches (P := fun links : Links n => (links i).isSome = true) noLinks
      (List.mem_finRange j) hkeep fun links => (pairEntry_links hother.symm hlater links).2

theorem pairDiscs_sound (entries : Fin n → GmFileEntry) :
    LinksSound entries (pairDiscs entries) := by
  have hnone : LinksSound entries noLinks := by
    rintro i j hij
    cases hij
  exact List.foldlRecOn _ _ hnone fun links hlinks i _ => pairEntry_sound i hlinks

/--
An entry is linked just when there is another disc of its game, and then to such a
disc; entries that are not games are not linked.
-/
theorem pairing_complete (entries : Fin n → GmFileEntry) (i : Fin n) :
    ((pairDiscs entries i).isSome = true ↔
      (entries i).type = .game ∧ ∃ j, j ≠ i ∧ (entries j).type = .game ∧
        (entries i).extra.gameId.take 6 = (entries j).extra.gameId.take 6 ∧
        (entries i).extra.discNum ≠ (entries j).extra.discNum) ∧
    (∀ j, pairDiscs entries i = some j → j ≠ i ∧ (entries j).type = .game ∧
      (entries i).extra.gameId.take 6 = (entries j).extra.gameId.take 6 ∧
      (entries i).extra.discNum ≠ (entries j).extra.discNum) ∧
    ((entries i).type ≠ .game → pairDiscs entries i = none) := by
  have hsound := pairDiscs_sound entries i
  refine ⟨⟨fun hlinked => ?_, ?_⟩, fun j hj => ?_, fun htype => ?_⟩
  · obtain ⟨j, hj⟩ := Option.isSome_iff_exists.1 hlinked
    have hother := hsound j hj
    exact ⟨hother.game, j, hother.ne, hother.other, hother.gameId, hother.discNum⟩
  · rintro ⟨hgame, j, _, hother, hid, hdisc⟩
    exact pairDiscs_linked ⟨hgame, hother, hid, hdisc⟩
  · have hother := hsound j hj
    exact ⟨hother.ne, hother.other, hother.gameId, hother.discNum⟩
  · cases hlink : pairDiscs entries i with
    | none => rfl
    | some j => exact absurd (hsound j hlink).game htype

end Games
end Cubiboot
