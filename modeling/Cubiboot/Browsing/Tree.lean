import Cubiboot.Games.Paths
import Mathlib.Data.List.TakeWhile

/-!
# The tree that is browsed

A card is what its directories answer, by their paths, and what the banners of its
games may be.  `InTree card path` says that a directory can be browsed to: from the
root, through directories that `gm_list_files` shows.

A path of a directory ends in a slash, and the names between the slashes are neither
empty nor have slashes, so `".."` leads to the directory it was entered from.

Results: `gmListFiles_shown`, which entries of a directory are listed; `shown_spec`,
that each of them has a name and a type; `startPath_slash` and `startPath_leave`, the
path of a directory that is entered and of the one above it; `InTree.parent`, that the
tree is closed under going back.
-/

namespace Cubiboot
namespace Browsing

open Games

/-- The name of an entry as a directory has it. -/
structure IsName (name : List UInt8) : Prop where
  length_le : name.length ≤ 255
  slash : 0x2F ∉ name
  terminator : 0 ∉ name

/-- A card, with the contents that its directories and banners have. -/
structure Card where
  /-- The answers of `dvd_custom_readdir`, when the directory can be opened. -/
  dir : Path → Option (List FileEntry)
  /-- What may be in the `desc` of `banner_buffer`, from `gameName` on, when a game is loaded. -/
  banner : Path → (Nat → UInt8) → Prop
  /-- `disable_mcp_select` of its settings. -/
  disableMcpSelect : Bool
  names : ∀ path entries, dir path = some entries → ∀ ent ∈ entries, IsName ent.name

/-- `gm_list_files` leaves an entry out. -/
def Hidden (ent : FileEntry) : Prop :=
  ent.attrib &&& fileAttribFlagHidden ≠ 0 ∨
    checkFileHidden ent.name = true ∨ entryFileType ent = .unknown

instance (ent : FileEntry) : Decidable (Hidden ent) :=
  inferInstanceAs (Decidable (_ ∨ _))

/-- The entries up to the end of a directory that are not hidden. -/
def visible (entries : List FileEntry) : List FileEntry :=
  (entries.takeWhile fun ent => ent.name ≠ []).filter fun ent => ¬ Hidden ent

/-- The entries of a directory that are listed. -/
def shown (entries : List FileEntry) : List FileEntry :=
  (visible entries).take maxPathEntries

/-- The directories that can be browsed to. -/
inductive InTree (card : Card) : Path → Prop
  | root : InTree card rootPath
  | entered {d : Path} {entries : List FileEntry} {ent : FileEntry}
      (above : InTree card d)
      (hdir : card.dir d = some entries)
      (hent : ent ∈ shown entries)
      (htype : entryFileType ent = .directory) :
      InTree card (d ++ ent.name ++ [0x2F])

variable {card : Card} {d : Path} {entries : List FileEntry} {ent : FileEntry}

theorem gmListFilesLoop_shown
    (targetDir : Path) {count : Nat} (entries : List FileEntry)
    (hcount : count < maxPathEntries) :
    gmListFilesLoop targetDir count entries =
      ((visible entries).take (maxPathEntries - count)).map fun ent =>
        ⟨targetDir ++ ent.name, entryFileType ent⟩ := by
  induction entries generalizing count with
  | nil =>
      simp [gmListFilesLoop, visible]
  | cons ent rest ih =>
      by_cases hend : ent.name = []
      · rw [gmListFilesLoop, if_pos hend, visible, List.takeWhile_cons_of_neg (by simpa using hend)]
        simp
      · have hrest : visible (ent :: rest) =
            if Hidden ent then visible rest else ent :: visible rest := by
          rw [visible, List.takeWhile_cons_of_pos (by simpa using hend), List.filter_cons]
          by_cases hhidden : Hidden ent
          · simp only [hhidden, not_true_eq_false, decide_false, Bool.false_eq_true, if_false,
              if_true]
            rfl
          · simp only [hhidden, not_false_eq_true, decide_true, if_true, if_false]
            rfl
        have hloop : gmListFilesLoop targetDir count (ent :: rest) =
            if Hidden ent then
              gmListFilesLoop targetDir count rest
            else
              ⟨targetDir ++ ent.name, entryFileType ent⟩ ::
                if count + 1 ≥ maxPathEntries then
                  []
                else
                  gmListFilesLoop targetDir (count + 1) rest := by
          rw [gmListFilesLoop, if_neg hend]
          rfl
        rw [hloop, hrest]
        by_cases hhidden : Hidden ent
        · rw [if_pos hhidden, if_pos hhidden]
          exact ih hcount
        · rw [if_neg hhidden, if_neg hhidden]
          obtain ⟨room, hroom⟩ : ∃ room, maxPathEntries - count = room + 1 :=
            ⟨maxPathEntries - count - 1, by omega⟩
          rw [hroom, List.take_succ_cons, List.map_cons]
          congr 1
          split
          · have hfull : room = 0 := by omega
            rw [hfull, List.take_zero, List.map_nil]
          · have hnext : maxPathEntries - (count + 1) = room := by omega
            rw [ih (by omega), hnext]

/-- What `gm_list_files` lists. -/
theorem gmListFiles_shown (targetDir : Path) (entries : List FileEntry) :
    gmListFiles targetDir entries =
      (shown entries).map fun ent => ⟨targetDir ++ ent.name, entryFileType ent⟩ := by
  rw [gmListFiles, gmListFilesLoop_shown targetDir entries (by decide), Nat.sub_zero]
  rfl

/-- An entry that is listed has a name, which is one, and a type. -/
theorem shown_spec (hdir : card.dir d = some entries) (hent : ent ∈ shown entries) :
    IsName ent.name ∧ ent.name ≠ [] ∧ entryFileType ent ≠ .unknown := by
  obtain ⟨hmem, hshown⟩ := List.mem_filter.1 (List.mem_of_mem_take hent)
  have hnamed := List.mem_takeWhile_imp hmem
  refine ⟨card.names d entries hdir ent ((List.takeWhile_sublist _).subset hmem), ?_, ?_⟩
  · simpa using hnamed
  · intro hunknown
    have hkept : ¬ Hidden ent := by simpa using hshown
    exact hkept (Or.inr (Or.inr hunknown))

theorem InTree.getLast? (h : InTree card d) : d.getLast? = some 0x2F := by
  cases h with
  | root => rfl
  | entered => rw [List.getLast?_concat]

theorem strrchr_eq_none {c : UInt8} {s : List UInt8} (h : c ∉ s) : strrchr c s = none := by
  induction s with
  | nil =>
      rfl
  | cons b rest ih =>
      rw [List.mem_cons, not_or] at h
      rw [strrchr, ih h.2]
      exact if_neg fun hb => h.1 hb.symm

theorem strrchr_append {c : UInt8} (l : List UInt8) {s : List UInt8} (h : c ∉ s) :
    strrchr c (l ++ c :: s) = some (c :: s) := by
  induction l with
  | nil =>
      rw [List.nil_append, strrchr, strrchr_eq_none h]
      exact if_pos rfl
  | cons b rest ih =>
      rw [List.cons_append, strrchr, ih]

/-- The base name of a path in a directory is the name. -/
theorem basename_append {name : Path} (hd : d.getLast? = some 0x2F) (hname : 0x2F ∉ name) :
    basename (d ++ name) = name := by
  have hd' : d = d.dropLast ++ [0x2F] := (List.dropLast_append_getLast? 0x2F hd).symm
  rw [basename, hd', List.reverse_append, List.reverse_append, List.takeWhile_append_of_pos]
  · simp
  · intro b hb
    have hne : b ≠ 0x2F := fun h => hname (h ▸ List.mem_reverse.1 hb)
    simpa using hne

theorem beforeLastSlash_append {name : Path} (hname : 0x2F ∉ name) :
    beforeLastSlash (d ++ 0x2F :: name) = d := by
  rw [beforeLastSlash, strrchr_append d hname]
  simp

theorem withSlash_of_getLast? (h : d.getLast? = some 0x2F) : withSlash d = d :=
  if_pos h

/-- A directory that is named with its slash is the one that is browsed. -/
theorem startPath_slash (gameEnumPath path : Path) :
    startPath gameEnumPath (path ++ [0x2F]) = path ++ [0x2F] := by
  have htarget : path ++ [0x2F] ≠ parentTarget := by
    intro h
    have hlast := congrArg List.getLast? h
    rw [List.getLast?_concat] at hlast
    revert hlast
    decide
  rw [startPath, if_neg htarget, withSlash_of_getLast? List.getLast?_concat]

/-- `".."` leaves a directory that is in the root, or in one with a single slash at its end. -/
theorem startPath_leave {name : Path} (hname : 0x2F ∉ name)
    (hd : d = rootPath ∨
      ∃ above, above ≠ [] ∧ above.getLast? ≠ some 0x2F ∧ d = above ++ [0x2F]) :
    startPath (d ++ name ++ [0x2F]) parentTarget = d := by
  rw [startPath, if_pos rfl, popPath, List.dropLast_concat]
  rcases hd with rfl | ⟨above, hne, hlast, rfl⟩
  · have hpop : beforeLastSlash (rootPath ++ name) = [] :=
      beforeLastSlash_append (d := []) hname
    rw [hpop]
    rfl
  · rw [List.append_assoc, List.singleton_append, beforeLastSlash_append hname, if_neg hne,
      withSlash, if_neg hlast]

/-- A path that ends in a name does not end in a slash. -/
theorem getLast?_append_name {name : Path} (hnonempty : name ≠ []) (hname : 0x2F ∉ name) :
    (d ++ name).getLast? ≠ some 0x2F := by
  rw [List.getLast?_append_of_ne_nil _ hnonempty]
  intro hslash
  exact hname (List.mem_of_getLast? hslash)

/-- `".."` leads back to the directory that was entered from. -/
theorem InTree.parent (h : InTree card d) (hroot : d ≠ rootPath) :
    InTree card (startPath d parentTarget) := by
  cases h with
  | root =>
      exact absurd rfl hroot
  | @entered d entries ent above hdir hent htype =>
      obtain ⟨hname, _, _⟩ := shown_spec hdir hent
      have hback : startPath (d ++ ent.name ++ [0x2F]) parentTarget = d := by
        refine startPath_leave hname.slash ?_
        cases above with
        | root =>
            exact Or.inl rfl
        | @entered d₁ entries₁ ent₁ above₁ hdir₁ hent₁ htype₁ =>
            obtain ⟨hname₁, hnonempty₁, _⟩ := shown_spec hdir₁ hent₁
            exact Or.inr ⟨d₁ ++ ent₁.name, by simp [hnonempty₁],
              getLast?_append_name hnonempty₁ hname₁.slash, rfl⟩
      rw [hback]
      exact above

end Browsing
end Cubiboot
