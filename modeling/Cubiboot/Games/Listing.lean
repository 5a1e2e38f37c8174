import Cubiboot.Games.Enumeration

/-!
# Listing a directory

`gm_list_files` with the two checks it makes on a name.  The directory is the
sequence of the answers of `dvd_custom_readdir`; strings are lists of bytes
without their terminator.

The list is then sorted by `qsort`, whose order nothing here depends on.

Results: `gmListFilesLoop_length`, that the list never has more paths than there is room
for; `Listed.type` and `Listed.length_le`, what is known of a list that has been made
so; and `gmListFilesLoop_visible`, the list of a directory in which nothing is passed
over.
-/

namespace Cubiboot
namespace Games

/-- `tolower`. -/
def toLower (b : UInt8) : UInt8 :=
  if 0x41 ≤ b ∧ b ≤ 0x5A then b + 0x20 else b

/-- `strcasecmp(a, b) == 0`. -/
def strcaseEq (a b : List UInt8) : Bool :=
  a.map toLower == b.map toLower

/-- `strrchr`: the string from the last occurrence of a character on. -/
def strrchr (c : UInt8) : List UInt8 → Option (List UInt8)
  | [] => none
  | b :: rest =>
      match strrchr c rest with
      | some found => some found
      | none => if b = c then some (b :: rest) else none

/-- `file_entry_t`. -/
structure FileEntry where
  name : List UInt8
  type : UInt8
  attrib : UInt8

/-- `FILE_ENTRY_TYPE_DIR`. -/
def fileEntryTypeDir : UInt8 := 1

/-- `FILE_ATTRIB_FLAG_HIDDEN`. -/
def fileAttribFlagHidden : UInt8 := 0x02

/-- `valid_game_exts`: `.gcm`, `.iso` and `.fdi`. -/
def validGameExts : List (List UInt8) :=
  [[0x2E, 0x67, 0x63, 0x6D], [0x2E, 0x69, 0x73, 0x6F], [0x2E, 0x66, 0x64, 0x69]]

/-- `valid_prog_exts`: `.dol` and `.dol+cli`. -/
def validProgExts : List (List UInt8) :=
  [[0x2E, 0x64, 0x6F, 0x6C],
    [0x2E, 0x64, 0x6F, 0x6C, 0x2B, 0x63, 0x6C, 0x69]]

/-- `gm_get_file_type`. -/
def gmGetFileType (path : List UInt8) : GmFileType :=
  match strrchr 0x2E path with
  | none => .unknown
  | some ext =>
      if validGameExts.any (strcaseEq ext) then
        .game
      else if validProgExts.any (strcaseEq ext) then
        .program
      else
        .unknown

/--
`hidden_file_names`: `$RECYCLE.BIN`, `System Volume Information`, `Recovery`,
`swiss` and `MCBACKUP`.
-/
def hiddenFileNames : List (List UInt8) :=
  [[0x24, 0x52, 0x45, 0x43, 0x59, 0x43, 0x4C, 0x45, 0x2E, 0x42, 0x49, 0x4E],
    [0x53, 0x79, 0x73, 0x74, 0x65, 0x6D, 0x20, 0x56, 0x6F, 0x6C, 0x75, 0x6D,
      0x65, 0x20, 0x49, 0x6E, 0x66, 0x6F, 0x72, 0x6D, 0x61, 0x74, 0x69, 0x6F,
      0x6E],
    [0x52, 0x65, 0x63, 0x6F, 0x76, 0x65, 0x72, 0x79],
    [0x73, 0x77, 0x69, 0x73, 0x73],
    [0x4D, 0x43, 0x42, 0x41, 0x43, 0x4B, 0x55, 0x50]]

/-- `check_file_hidden`. -/
def checkFileHidden (name : List UInt8) : Bool :=
  name.head? == some 0x2E || name.head? == some 0x7E ||
    name.getLast? == some 0x7E || hiddenFileNames.any (strcaseEq name)

/-- The type of a directory entry. -/
def entryFileType (ent : FileEntry) : GmFileType :=
  if ent.type = fileEntryTypeDir then .directory else gmGetFileType ent.name

/-- The most paths a listing has. -/
abbrev maxPathEntries : Nat := 1920

/-- The loop of `gm_list_files`, when it has stored this many paths. -/
def gmListFilesLoop (targetDir : Path) : Nat → List FileEntry → List GmPathEntry
  | _, [] => []
  | pathEntryCount, ent :: rest =>
      if ent.name = [] then
        []
      else if ent.attrib &&& fileAttribFlagHidden ≠ 0 ∨
          checkFileHidden ent.name = true ∨ entryFileType ent = .unknown then
        gmListFilesLoop targetDir pathEntryCount rest
      else
        ⟨targetDir ++ ent.name, entryFileType ent⟩ ::
          if pathEntryCount + 1 ≥ maxPathEntries then
            []
          else
            gmListFilesLoop targetDir (pathEntryCount + 1) rest

/-- `gm_list_files`. -/
def gmListFiles (targetDir : Path) (dir : List FileEntry) : List GmPathEntry :=
  gmListFilesLoop targetDir 0 dir

/-- A listing of some directory, in the order of the sort. -/
def Listed (listing : List ListedFile) : Prop :=
  ∃ targetDir dir, (listing.map ListedFile.path).Perm (gmListFiles targetDir dir)

/-- The loop never stores more paths than the list has room for. -/
theorem gmListFilesLoop_length
    (targetDir : Path) {count : Nat} (dir : List FileEntry)
    (hcount : count < maxPathEntries) :
    count + (gmListFilesLoop targetDir count dir).length ≤ maxPathEntries := by
  induction dir generalizing count with
  | nil =>
      exact Nat.le_of_lt hcount
  | cons ent rest ih =>
      simp only [gmListFilesLoop]
      split
      · exact Nat.le_of_lt hcount
      · split
        · exact ih hcount
        · split
          · exact hcount
          · have hrest := @ih (count + 1) (by omega)
            simp only [List.length_cons]
            omega

/-- A path of a listing is of a known type. -/
theorem gmListFilesLoop_type
    (targetDir : Path) {count : Nat} (dir : List FileEntry) {p : GmPathEntry}
    (hp : p ∈ gmListFilesLoop targetDir count dir) :
    p.type ≠ .unknown := by
  induction dir generalizing count with
  | nil =>
      cases hp
  | cons ent rest ih =>
      simp only [gmListFilesLoop] at hp
      split at hp
      · cases hp
      · split at hp
        · exact ih hp
        · rename_i hkept
          rcases List.mem_cons.1 hp with rfl | hp
          · intro hunknown
            exact hkept (Or.inr (Or.inr hunknown))
          · split at hp
            · cases hp
            · exact ih hp

theorem Listed.length_le
    {listing : List ListedFile} (h : Listed listing) :
    listing.length ≤ maxPathEntries := by
  obtain ⟨targetDir, dir, hperm⟩ := h
  have hlen := hperm.length_eq
  have hmax := gmListFilesLoop_length targetDir dir
    (by decide : 0 < maxPathEntries)
  rw [List.length_map] at hlen
  simp only [gmListFiles] at hlen
  omega

theorem Listed.type
    {listing : List ListedFile} (h : Listed listing)
    {f : ListedFile} (hf : f ∈ listing) :
    f.path.type ≠ .unknown := by
  obtain ⟨targetDir, dir, hperm⟩ := h
  exact gmListFilesLoop_type targetDir dir
    (hperm.subset (List.mem_map_of_mem hf))

/-- A directory whose entries are all listed, and not too many of them. -/
theorem gmListFilesLoop_visible
    (targetDir : Path) {count : Nat} (dir : List FileEntry)
    (hname : ∀ ent ∈ dir, ent.name ≠ [])
    (hvisible : ∀ ent ∈ dir, ¬ (ent.attrib &&& fileAttribFlagHidden ≠ 0 ∨
      checkFileHidden ent.name = true ∨ entryFileType ent = .unknown))
    (hcount : count + dir.length ≤ maxPathEntries) :
    gmListFilesLoop targetDir count dir =
      dir.map fun ent => ⟨targetDir ++ ent.name, entryFileType ent⟩ := by
  induction dir generalizing count with
  | nil =>
      rfl
  | cons ent rest ih =>
      have hent := hname ent List.mem_cons_self
      have hkept := hvisible ent List.mem_cons_self
      simp only [List.length_cons] at hcount
      simp only [gmListFilesLoop, if_neg hent, if_neg hkept, List.map_cons]
      congr 1
      split
      · have hrest : rest = [] := List.length_eq_zero_iff.1 (by omega)
        rw [hrest]
        rfl
      · exact ih (fun q hq => hname q (List.mem_cons_of_mem _ hq))
          (fun q hq => hvisible q (List.mem_cons_of_mem _ hq)) (by omega)

theorem strcaseEq_length
    {a b : List UInt8} (h : strcaseEq a b = true) : a.length = b.length := by
  have hmap := congrArg List.length (beq_iff_eq.1 h)
  simpa using hmap

end Games
end Cubiboot
