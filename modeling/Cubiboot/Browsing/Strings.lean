import Cubiboot.Browsing.Tree
import Cubiboot.Foundations.CString

/-!
# The copies of strings

`gm_list_files`, `gm_check_files`, `gm_warm_card`, `gm_start_thread` and
`pre_custom_card_OSSendMessage` with the arrays that they copy strings to.  They have
no result when a copy does not fit: what is overwritten then is not modelled.

Where they have one it is that of the functions on paths of any length.

Results: `gmListFiles_eq_some`, `gmStartThread_eq_some` and `copyDiskInfo_eq_some`, that
a function which returns has computed what its counterpart without arrays does;
`exists_gmCheckFile` and `exists_newOther`, when it returns; `pushSubdirs_spec`, the
paths on the stack of the walk.
-/

namespace Cubiboot
namespace Browsing

open CString Games

/-- `char[128]`. -/
abbrev PathArray := Stored UInt8 128

/-- `gm_path_entry_t`. -/
structure PathEntry where
  path : PathArray
  type : GmFileType

/-- The path and the type, wherever the path is. -/
def PathEntry.value (p : PathEntry) : GmPathEntry :=
  ⟨p.path.1, p.type⟩

/-- `entry->path` of an entry that `gm_list_files` finds in a directory. -/
def listedPath (targetDir : Path) (name : List UInt8) : Option PathArray := do
  let fileFullPathBuf ← strcpy 128 targetDir
  let fileFullPathBuf ← strcat fileFullPathBuf name
  strcpy 128 fileFullPathBuf.1

/-- The loop of `gm_list_files`, when it has stored this many paths. -/
def gmListFilesLoop (targetDir : Path) : Nat → List FileEntry → Option (List PathEntry)
  | _, [] => some []
  | pathEntryCount, ent :: rest =>
      if ent.name = [] then
        some []
      else if Hidden ent then
        gmListFilesLoop targetDir pathEntryCount rest
      else do
        let fileFullPathBuf ← strcpy 128 targetDir
        let fileFullPathBuf ← strcat fileFullPathBuf ent.name
        let path ← strcpy 128 fileFullPathBuf.1
        let listed ←
          (if pathEntryCount + 1 ≥ maxPathEntries then
            some []
          else
            gmListFilesLoop targetDir (pathEntryCount + 1) rest)
        some (⟨path, entryFileType ent⟩ :: listed)

/-- `gm_list_files`. -/
def gmListFiles (targetDir : Path) (entries : List FileEntry) : Option (List PathEntry) :=
  gmListFilesLoop targetDir 0 entries

/-- `"Homebrew Program"`. -/
def homebrewProgram : List UInt8 :=
  [0x48, 0x6F, 0x6D, 0x65, 0x62, 0x72, 0x65, 0x77, 0x20, 0x50, 0x72, 0x6F, 0x67, 0x72, 0x61, 0x6D]

/-- `"Directory"`. -/
def directoryText : List UInt8 :=
  [0x44, 0x69, 0x72, 0x65, 0x63, 0x74, 0x6F, 0x72, 0x79]

/-- The `desc` of a new entry: cleared, from a banner, or made of the name of a file. -/
inductive EntryDesc where
  | blank
  | banner (desc : Nat → UInt8)
  | other (fullGameName : Stored UInt8 64) (description : Stored UInt8 128)

/-- What is in memory from `desc.gameName` on; it is empty without a banner. -/
def EntryDesc.gameName : EntryDesc → Nat → UInt8
  | .banner desc => desc
  | _ => fun _ => 0

/-- `gm_file_entry_t`, its strings. -/
structure BackingEntry where
  path : PathArray
  type : GmFileType
  desc : EntryDesc

/-- What `get_game_info` and `gm_load_banner` make of a game. -/
inductive GameAnswer where
  | invalid
  | notLoaded
  | loaded (desc : Nat → UInt8)

/-- The `desc` of a game, when it has valid info. -/
def GameAnswer.desc : GameAnswer → Option EntryDesc
  | .invalid => none
  | .notLoaded => some .blank
  | .loaded desc => some (.banner desc)

/-- The new entry of a program or a directory, with the text that describes it. -/
def newOther (p : PathEntry) (text : List UInt8) : Option BackingEntry := do
  let fullGameName ← strcpy 64 (basename p.path.1)
  let description ← strcpy 128 text
  some ⟨p.path, p.type, .other fullGameName description⟩

/-- One pass of the loop of `gm_check_files`: the new entry, when there is one. -/
def gmCheckFile (p : PathEntry) (answer : GameAnswer) : Option (Option BackingEntry) :=
  match p.type with
  | .game => some (answer.desc.map fun desc => ⟨p.path, .game, desc⟩)
  | .program => (newOther p homebrewProgram).map some
  | .directory => (newOther p directoryText).map some
  | .unknown => some none

/-- The loop of `gm_warm_card` over a listing.  `path_stack` has 100 places. -/
def pushSubdirs (pathStack : List PathArray) : List PathEntry → Option (List PathArray)
  | [] => some pathStack
  | entry :: rest =>
      if entry.type = .directory then do
        let subdirPath ← strcpy 128 entry.path.1
        let subdirPath ← strcat subdirPath [0x2F]
        if pathStack.length < 100 then do
          let pushed ← strcpy 128 subdirPath.1
          pushSubdirs (pushed :: pathStack) rest
        else
          pushSubdirs pathStack rest
      else
        pushSubdirs pathStack rest

/--
One pass of the loop of `gm_warm_card`, on the top of `path_stack`.  What
`gm_warm_files` reads it puts into the cache of banners, without a copy of a string.
-/
def gmWarmDir
    (dir : Path → Option (List FileEntry)) (top : PathArray) (pathStack : List PathArray) :
    Option (List PathArray) := do
  let cur ← strcpy 128 top.1
  match dir cur.1 with
  | none => some pathStack
  | some entries => do
      let listing ← gmListFiles cur.1 entries
      pushSubdirs pathStack listing

/-- `game_enum_path` after `gm_start_thread`. -/
def gmStartThread (gameEnumPath : PathArray) (target : Path) : Option PathArray := do
  let target := if target = parentTarget then popPath gameEnumPath.1 else target
  let path ← strcpy 128 target
  let path ← (if path.1.getLast? = some 0x2F then some path else strcat path [0x2F])
  strcpy 128 path.1

/-- `sprintf(path, "%s/", entry->path)`. -/
def sprintfPath (entry : BackingEntry) : Option PathArray :=
  strcpy 128 (entry.path.1 ++ [0x2F])

/-- `diskInfo` in `pre_custom_card_OSSendMessage`. -/
def copyDiskInfo (entry : BackingEntry) : Option (Stored UInt8 64) :=
  strcpyFrom 0 64 entry.desc.gameName

variable {d targetDir : Path} {entries : List FileEntry} {listing : List PathEntry}

theorem listedPath_eq_some {path : PathArray} {name : List UInt8} :
    listedPath targetDir name = some path ↔ path.1 = targetDir ++ name := by
  simp only [listedPath, Option.bind_eq_bind, Option.bind_eq_some_iff, strcpy_eq_some,
    strcat_eq_some]
  constructor
  · rintro ⟨dir, hdir, buf, hbuf, hpath⟩
    rw [hpath, hbuf, hdir]
  · intro hpath
    have hroom : targetDir.length < 128 := by
      have hlen := path.2
      rw [hpath, List.length_append] at hlen
      omega
    exact ⟨⟨targetDir, hroom⟩, rfl, path, hpath, rfl⟩

/-- A listing that fits is that of the directory. -/
theorem gmListFilesLoop_eq_some {count : Nat} :
    gmListFilesLoop targetDir count entries = some listing ↔
      listing.map PathEntry.value = Games.gmListFilesLoop targetDir count entries := by
  induction entries generalizing count listing with
  | nil =>
      rw [gmListFilesLoop, Games.gmListFilesLoop, List.map_eq_nil_iff, Option.some_inj]
      exact eq_comm
  | cons ent rest ih =>
      by_cases hend : ent.name = []
      · rw [gmListFilesLoop, Games.gmListFilesLoop, if_pos hend, if_pos hend,
          List.map_eq_nil_iff, Option.some_inj]
        exact eq_comm
      by_cases hhidden : Hidden ent
      · have hskip : Games.gmListFilesLoop targetDir count (ent :: rest) =
            Games.gmListFilesLoop targetDir count rest := by
          rw [Games.gmListFilesLoop, if_neg hend]
          exact if_pos hhidden
        rw [gmListFilesLoop, if_neg hend, if_pos hhidden, hskip]
        exact ih
      have hlist : Games.gmListFilesLoop targetDir count (ent :: rest) =
          ⟨targetDir ++ ent.name, entryFileType ent⟩ ::
            if count + 1 ≥ maxPathEntries then
              []
            else
              Games.gmListFilesLoop targetDir (count + 1) rest := by
        rw [Games.gmListFilesLoop, if_neg hend]
        exact if_neg hhidden
      have hothers : ∀ listed : List PathEntry,
          (if count + 1 ≥ maxPathEntries then some []
            else gmListFilesLoop targetDir (count + 1) rest) = some listed ↔
          listed.map PathEntry.value = if count + 1 ≥ maxPathEntries then []
            else Games.gmListFilesLoop targetDir (count + 1) rest := by
        intro listed
        split
        · rw [List.map_eq_nil_iff, Option.some_inj]
          exact eq_comm
        · exact ih
      rw [gmListFilesLoop, if_neg hend, if_neg hhidden, hlist]
      simp only [Option.bind_eq_bind, Option.bind_eq_some_iff, strcpy_eq_some, strcat_eq_some,
        hothers, Option.some_inj]
      constructor
      · rintro ⟨dir, hdir, buf, hbuf, path, hpath, listed, hlisted, rfl⟩
        rw [List.map_cons, hlisted, PathEntry.value, hpath, hbuf, hdir]
      · intro h
        cases listing with
        | nil =>
            cases h
        | cons p listed =>
            obtain ⟨hp, hlisted⟩ := List.cons_eq_cons.1 h
            obtain ⟨hpath, htype⟩ := GmPathEntry.mk.inj hp
            have hroom : targetDir.length < 128 := by
              have hlen := p.path.2
              rw [hpath, List.length_append] at hlen
              omega
            refine ⟨⟨targetDir, hroom⟩, rfl, p.path, hpath, p.path, rfl, listed, hlisted, ?_⟩
            rw [← htype]

/-- The listing of a directory fits, or does not: it is what is shown, in arrays. -/
theorem gmListFiles_eq_some :
    gmListFiles targetDir entries = some listing ↔
      listing.map PathEntry.value =
        (shown entries).map fun ent => ⟨targetDir ++ ent.name, entryFileType ent⟩ := by
  rw [gmListFiles, gmListFilesLoop_eq_some, ← gmListFiles_shown]
  rfl

/-- `gm_start_thread` computes the path that it would with longer arrays. -/
theorem gmStartThread_eq_some {gameEnumPath path : PathArray} {target : Path} :
    gmStartThread gameEnumPath target = some path ↔
      path.1 = startPath gameEnumPath.1 target := by
  simp only [gmStartThread, startPath, withSlash, Option.bind_eq_bind, Option.bind_eq_some_iff,
    strcpy_eq_some]
  generalize (if target = parentTarget then popPath gameEnumPath.1 else target) = popped
  constructor
  · rintro ⟨copied, rfl, slashed, hslashed, hpath⟩
    rw [hpath]
    split at hslashed
    · rename_i hlast
      cases hslashed
      rw [if_pos hlast]
    · rename_i hlast
      rw [if_neg hlast]
      exact strcat_eq_some.1 hslashed
  · intro h
    have hroom : popped.length < 128 := by
      have hlen := path.2
      rw [h] at hlen
      split at hlen
      · exact hlen
      · rw [List.length_append] at hlen
        omega
    refine ⟨⟨popped, hroom⟩, rfl, path, ?_, rfl⟩
    split
    · rename_i hlast
      rw [if_pos hlast] at h
      rw [Option.some_inj]
      exact Subtype.ext h.symm
    · rename_i hlast
      rw [if_neg hlast] at h
      exact strcat_eq_some.2 h

/-- The text in the `desc` of an entry ends within `diskInfo`. -/
def EntryDesc.Terminated (desc : EntryDesc) : Prop :=
  ∃ i < 64, desc.gameName i = 0

theorem copyDiskInfo_eq_some {e : BackingEntry} :
    (∃ diskInfo, copyDiskInfo e = some diskInfo) ↔ e.desc.Terminated :=
  exists_strcpyFrom

theorem newOther_eq_some {p : PathEntry} {text : List UInt8} {e : BackingEntry} :
    newOther p text = some e ↔
      ∃ fullGameName description, fullGameName.1 = basename p.path.1 ∧ description.1 = text ∧
        e = ⟨p.path, p.type, .other fullGameName description⟩ := by
  simp only [newOther, Option.bind_eq_bind, Option.bind_eq_some_iff, strcpy_eq_some,
    Option.some_inj]
  constructor
  · rintro ⟨fullGameName, hname, description, htext, rfl⟩
    exact ⟨fullGameName, description, hname, htext, rfl⟩
  · rintro ⟨fullGameName, description, hname, htext, rfl⟩
    exact ⟨fullGameName, hname, description, htext, rfl⟩

/-- A program or a directory is made an entry when there is room for its name. -/
theorem exists_newOther {p : PathEntry} {text : List UInt8} (htext : text.length < 128) :
    (∃ e, newOther p text = some e) ↔ (basename p.path.1).length < 64 := by
  rw [← exists_stored]
  constructor
  · rintro ⟨e, he⟩
    obtain ⟨fullGameName, _, hname, _⟩ := newOther_eq_some.1 he
    exact ⟨fullGameName, hname⟩
  · rintro ⟨fullGameName, hname⟩
    exact ⟨_, newOther_eq_some.2 ⟨fullGameName, ⟨text, htext⟩, hname, rfl, rfl⟩⟩

theorem exists_gmCheckFile {p : PathEntry} (answer : GameAnswer) :
    (∃ made, gmCheckFile p answer = some made) ↔
      (p.type = .program ∨ p.type = .directory → (basename p.path.1).length < 64) := by
  cases htype : p.type with
  | game => simp [gmCheckFile, htype]
  | unknown => simp [gmCheckFile, htype]
  | program =>
      rw [← exists_newOther (by decide : homebrewProgram.length < 128)]
      simp [gmCheckFile, htype]
  | directory =>
      rw [← exists_newOther (by decide : directoryText.length < 128)]
      simp [gmCheckFile, htype]

/-- What the new entry has of the file. -/
theorem gmCheckFile_made {p : PathEntry} {answer : GameAnswer} {e : BackingEntry}
    (h : gmCheckFile p answer = some (some e)) :
    e.path = p.path ∧ e.type = p.type ∧
      (e.desc.Terminated ∨ p.type = .game ∧ answer.desc = some e.desc) := by
  have hother : ∀ {text : List UInt8}, (newOther p text).map some = some (some e) →
      e.path = p.path ∧ e.type = p.type ∧ e.desc.Terminated := by
    intro text h
    obtain ⟨made, hmade, hsome⟩ := Option.map_eq_some_iff.1 h
    cases hsome
    obtain ⟨_, _, _, _, rfl⟩ := newOther_eq_some.1 hmade
    exact ⟨rfl, rfl, 0, by decide, rfl⟩
  cases htype : p.type with
  | game =>
      simp only [gmCheckFile, htype, Option.some_inj] at h
      obtain ⟨desc, hdesc, rfl⟩ := Option.map_eq_some_iff.1 h
      exact ⟨rfl, rfl, Or.inr ⟨rfl, hdesc⟩⟩
  | unknown =>
      simp [gmCheckFile, htype] at h
  | program =>
      simp only [gmCheckFile, htype] at h
      obtain ⟨hpath, hsame, hdesc⟩ := hother h
      exact ⟨hpath, hsame.trans htype, Or.inl hdesc⟩
  | directory =>
      simp only [gmCheckFile, htype] at h
      obtain ⟨hpath, hsame, hdesc⟩ := hother h
      exact ⟨hpath, hsame.trans htype, Or.inl hdesc⟩

/-- The directories of a listing are pushed, while there is room for their paths. -/
theorem pushSubdirs_spec
    {pathStack : List PathArray}
    (hfits : ∀ p ∈ listing, p.type = .directory → p.path.1.length + 1 < 128) :
    ∃ pushed, pushSubdirs pathStack listing = some pushed ∧
      ∀ q ∈ pushed, q ∈ pathStack ∨
        ∃ p ∈ listing, p.type = .directory ∧ q.1 = p.path.1 ++ [0x2F] := by
  induction listing generalizing pathStack with
  | nil =>
      exact ⟨pathStack, rfl, fun q hq => Or.inl hq⟩
  | cons p rest ih =>
      have hrest : ∀ p ∈ rest, p.type = .directory → p.path.1.length + 1 < 128 :=
        fun q hq => hfits q (List.mem_cons_of_mem _ hq)
      -- Whatever the stack is on which the rest is pushed.
      have hothers : ∀ stack : List PathArray,
          (∀ q ∈ stack, q ∈ pathStack ∨ p.type = .directory ∧ q.1 = p.path.1 ++ [0x2F]) →
          ∃ pushed, pushSubdirs stack rest = some pushed ∧
            ∀ q ∈ pushed, q ∈ pathStack ∨
              ∃ p' ∈ p :: rest, p'.type = .directory ∧ q.1 = p'.path.1 ++ [0x2F] := by
        intro stack hstack
        obtain ⟨pushed, hpushed, hfrom⟩ := @ih stack hrest
        refine ⟨pushed, hpushed, fun q hq => ?_⟩
        rcases hfrom q hq with hold | ⟨p', hp', hdir, hq'⟩
        · rcases hstack q hold with hbefore | hnew
          · exact Or.inl hbefore
          · exact Or.inr ⟨p, List.mem_cons_self, hnew⟩
        · exact Or.inr ⟨p', List.mem_cons_of_mem _ hp', hdir, hq'⟩
      rw [pushSubdirs]
      by_cases hdir : p.type = .directory
      · have hroom := hfits p List.mem_cons_self hdir
        obtain ⟨subdir, hsubdir⟩ :=
          exists_stored.2 (show (p.path.1 ++ [0x2F]).length < 128 by simpa using hroom)
        simp only [Option.bind_eq_bind, if_pos hdir, strcpy_eq_some.2 rfl, Option.bind_some,
          strcat_eq_some.2 hsubdir]
        split
        · refine hothers (subdir :: pathStack) fun q hq => ?_
          rcases List.mem_cons.1 hq with rfl | hq
          · exact Or.inr ⟨hdir, hsubdir⟩
          · exact Or.inl hq
        · exact hothers pathStack fun q hq => Or.inl hq
      · rw [if_neg hdir]
        exact hothers pathStack fun q hq => Or.inl hq

end Browsing
end Cubiboot
