import Cubiboot.Browsing.Strings
import Mathlib.Data.List.Infix

/-!
# Browsing is a stack

Directories are entered from a listing and left again, by calls of `gm_start_thread`
on the one path that it keeps.  `entered` says which directories have been entered and
not left; the path is a slash and their names, each with a slash after it.

Results: `enter_eq_some` and `back_eq_some`, what one call does to the path;
`browse_slashPath`, by induction on the moves, the path after all of them; and
`browsing_isStack`, that leaving undoes entering, that the root is never left, and that
the path is always that of the directories on the stack.
-/

namespace Cubiboot
namespace Browsing

open CString Games

/-- What the menu does with `game_enum_path`. -/
inductive Move where
  /-- A on a directory of the listing, by its name. -/
  | enter (name : List UInt8)
  /-- B. -/
  | back

/-- `game_enum_path` after the `gm_start_thread` of `handle_gameselect_inputs`. -/
def Move.apply (gameEnumPath : PathArray) : Move → Option PathArray
  | .enter name => do
      let entryPath ← listedPath gameEnumPath.1 name
      let path ← strcpy 128 (entryPath.1 ++ [0x2F])
      gmStartThread gameEnumPath path.1
  | .back => gmStartThread gameEnumPath parentTarget

/-- `game_enum_path` after these, one after the other. -/
def browse (gameEnumPath : PathArray) : List Move → Option PathArray
  | [] => some gameEnumPath
  | move :: rest => do
      let gameEnumPath ← move.apply gameEnumPath
      browse gameEnumPath rest

/-- The directories that are entered after these, the last one at the end. -/
def entered (names : List (List UInt8)) : List Move → List (List UInt8)
  | [] => names
  | .enter name :: rest => entered (names ++ [name]) rest
  | .back :: rest => entered names.dropLast rest

/-- A slash, and the names with a slash after each. -/
def slashPath (names : List (List UInt8)) : Path :=
  0x2F :: names.flatMap fun name => name ++ [0x2F]

/-- A name that a directory can be entered by. -/
def Enterable (name : List UInt8) : Prop :=
  name ≠ [] ∧ 0x2F ∉ name

variable {path path' : PathArray} {name : List UInt8} {names : List (List UInt8)}

theorem slashPath_concat : slashPath (names ++ [name]) = slashPath names ++ name ++ [0x2F] := by
  simp [slashPath]

/-- A path has the names of the directories in it, and no other. -/
theorem slashPath_eq_root : slashPath names = rootPath ↔ names = [] := by
  constructor
  · intro h
    cases names with
    | nil => rfl
    | cons name rest => simp [slashPath, rootPath] at h
  · rintro rfl
    rfl

theorem enter_eq_some :
    Move.apply path (.enter name) = some path' ↔ path'.1 = path.1 ++ name ++ [0x2F] := by
  simp only [Move.apply, Option.bind_eq_bind, Option.bind_eq_some_iff, strcpy_eq_some,
    listedPath_eq_some, gmStartThread_eq_some]
  constructor
  · rintro ⟨entryPath, hentry, target, htarget, hpath⟩
    rw [hpath, htarget, startPath_slash, hentry]
  · intro hpath
    have hroom : (path.1 ++ name).length < 128 := by
      have hlen := path'.2
      rw [hpath, List.length_append] at hlen
      omega
    refine ⟨⟨path.1 ++ name, hroom⟩, rfl, path', hpath, ?_⟩
    rw [hpath, startPath_slash]

/-- The path of the directories is that of the root, or ends in a single slash. -/
theorem slashPath_spec (hnames : ∀ name ∈ names, Enterable name) :
    slashPath names = rootPath ∨
      ∃ above, above ≠ [] ∧ above.getLast? ≠ some 0x2F ∧ slashPath names = above ++ [0x2F] := by
  rcases List.eq_nil_or_concat names with rfl | ⟨above, name, rfl⟩
  · exact Or.inl rfl
  · rw [List.concat_eq_append] at hnames ⊢
    obtain ⟨hnonempty, hslash⟩ := hnames name (by simp)
    exact Or.inr ⟨slashPath above ++ name, by simp [hnonempty],
      getLast?_append_name hnonempty hslash, slashPath_concat⟩

/-- `".."` drops the last name. -/
theorem startPath_parent (hnames : ∀ name ∈ names, Enterable name) :
    startPath (slashPath names) parentTarget = slashPath names.dropLast := by
  rcases List.eq_nil_or_concat names with rfl | ⟨above, name, rfl⟩
  · decide
  · rw [List.concat_eq_append] at hnames ⊢
    rw [List.dropLast_concat, slashPath_concat]
    exact startPath_leave (hnames name (by simp)).2
      (slashPath_spec fun name hname => hnames name (List.mem_append_left _ hname))

theorem back_eq_some (hpath : path.1 = slashPath names)
    (hnames : ∀ name ∈ names, Enterable name) :
    Move.apply path .back = some path' ↔ path'.1 = slashPath names.dropLast := by
  rw [Move.apply, gmStartThread_eq_some, hpath, startPath_parent hnames]

/-- The directories that are entered have names that were entered. -/
theorem entered_enterable {moves : List Move} (hnames : ∀ name ∈ names, Enterable name)
    (hmoves : ∀ name, .enter name ∈ moves → Enterable name) :
    ∀ name ∈ entered names moves, Enterable name := by
  induction moves generalizing names with
  | nil =>
      exact hnames
  | cons move rest ih =>
      have hrest : ∀ name, .enter name ∈ rest → Enterable name :=
        fun name h => hmoves name (List.mem_cons_of_mem _ h)
      cases move with
      | enter new =>
          refine ih (fun name hname => ?_) hrest
          rcases List.mem_append.1 hname with hold | hnew
          · exact hnames name hold
          · rw [List.mem_singleton.1 hnew]
            exact hmoves new List.mem_cons_self
      | back =>
          exact ih (fun name hname => hnames name (List.dropLast_subset names hname)) hrest

/-- A move changes the path as it changes the directories that are entered. -/
theorem Move.apply_slashPath {move : Move} (hpath : path.1 = slashPath names)
    (hnames : ∀ name ∈ names, Enterable name) :
    Move.apply path move = some path' ↔ path'.1 = slashPath (entered names [move]) := by
  cases move with
  | enter name =>
      rw [enter_eq_some, hpath, entered, entered, slashPath_concat]
  | back =>
      exact back_eq_some hpath hnames

theorem browse_slashPath {moves : List Move} (hpath : path.1 = slashPath names)
    (hnames : ∀ name ∈ names, Enterable name)
    (hmoves : ∀ name, .enter name ∈ moves → Enterable name)
    (hfits : ∀ made, made <+: moves → (slashPath (entered names made)).length < 128) :
    ∃ path', browse path moves = some path' ∧ path'.1 = slashPath (entered names moves) := by
  induction moves generalizing path names with
  | nil =>
      exact ⟨path, rfl, hpath⟩
  | cons move rest ih =>
      have hfirst : ∀ name, .enter name ∈ [move] → Enterable name := fun name h =>
        hmoves name (List.mem_cons.2 (Or.inl (List.mem_singleton.1 h)))
      obtain ⟨next, hnext⟩ := exists_stored.2 (hfits [move] ⟨rest, rfl⟩)
      have hsplit : ∀ made, entered names (move :: made) = entered (entered names [move]) made := by
        intro made
        cases move <;> rfl
      obtain ⟨path', hbrowse, hpath'⟩ := ih hnext (entered_enterable hnames hfirst)
        (fun name h => hmoves name (List.mem_cons_of_mem _ h)) (fun made hmade => by
          rw [← hsplit]
          exact hfits (move :: made) (List.cons_prefix_cons.2 ⟨rfl, hmade⟩))
      refine ⟨path', ?_, hpath'.trans (congrArg slashPath (hsplit rest).symm)⟩
      rw [browse, (Move.apply_slashPath hpath hnames).2 hnext]
      exact hbrowse

/-- `"games"`. -/
def gamesName : List UInt8 := [0x67, 0x61, 0x6D, 0x65, 0x73]

/-- `"gc"`. -/
def gcName : List UInt8 := [0x67, 0x63]

/--
Whatever is entered and left, `game_enum_path` has the names of the directories that
are entered and not left; going back undoes the last enter, and stays at the root.
-/
theorem browsing_isStack (before : PathArray) (moves : List Move)
    (hmoves : ∀ name, .enter name ∈ moves → Enterable name)
    (hfits : ∀ made, made <+: moves → (slashPath (entered [] made)).length < 127) :
    ∃ start path,
      gmStartThread before rootPath = some start ∧
      browse start moves = some path ∧
      path.1 = slashPath (entered [] moves) ∧
      (∀ name path', Enterable name → Move.apply path (.enter name) = some path' →
        Move.apply path' .back = some path) ∧
      (path.1 = rootPath → Move.apply path .back = some path) := by
  have hroot : startPath before.1 rootPath = rootPath := by
    rfl
  have hnone : ∀ name ∈ ([] : List (List UInt8)), Enterable name := by
    simp
  obtain ⟨path, hbrowse, hpath⟩ :=
    browse_slashPath (show (⟨rootPath, by decide⟩ : PathArray).1 = slashPath [] from rfl) hnone
      hmoves fun made hmade => Nat.lt_succ_of_lt (hfits made hmade)
  have hnames := entered_enterable hnone hmoves
  refine ⟨⟨rootPath, by decide⟩, path, ?_, hbrowse, hpath, ?_, ?_⟩
  · rw [gmStartThread_eq_some, hroot]
  · intro name path' hname hpath'
    have hpushed : path'.1 = slashPath (entered [] moves ++ [name]) := by
      rw [enter_eq_some.1 hpath', hpath, slashPath_concat]
    have hpushedNames : ∀ n ∈ entered [] moves ++ [name], Enterable n := by
      intro n hn
      rcases List.mem_append.1 hn with hold | hnew
      · exact hnames n hold
      · rw [List.mem_singleton.1 hnew]
        exact hname
    rw [back_eq_some hpushed hpushedNames, List.dropLast_concat, hpath]
  · intro hatRoot
    have hempty : entered [] moves = [] := by
      rw [← slashPath_eq_root, ← hpath, hatRoot]
    rw [back_eq_some hpath hnames, hpath, hempty]
    rfl

/-- `/games/gc/`, after another directory has been entered and left. -/
theorem games_isStack :
    ∃ start path,
      gmStartThread ⟨[], by decide⟩ rootPath = some start ∧
      browse start [.enter [0x61], .back, .enter gamesName, .enter gcName] = some path ∧
      path.1 = slashPath [gamesName, gcName] := by
  obtain ⟨start, path, hstart, hbrowse, hpath, _⟩ :=
    browsing_isStack ⟨[], by decide⟩ [.enter [0x61], .back, .enter gamesName, .enter gcName]
      (by simp [Enterable, gamesName, gcName])
      (fun made hmade =>
        (by decide : ∀ made ∈ [Move.enter [0x61], .back, .enter gamesName, .enter gcName].inits,
          (slashPath (entered [] made)).length < 127) made ((List.mem_inits _ _).2 hmade))
  exact ⟨start, path, hstart, hbrowse, hpath⟩

end Browsing
end Cubiboot
