import Cubiboot.Browsing.Strings
import Cubiboot.Browsing.Warming
import Cubiboot.Foundations.FuelLoop
import Cubiboot.Foundations.Runs

/-!
# The walk over the card

`gm_warm_card` with `gm_list_files` and `gm_warm_files`, and what the calls that it
makes come to: which of them fail, and when it is asked to stop.  The directories that
it lists are noted as it goes, and the opens and closes of its games.

`ipl_panic` loops for ever: the walk is left where it is.  There is no result when a
string does not fit.

Results: `listDir_eq_listing`, a directory that opens is listed if and only if its
entries can be read and their paths fit; `pushSubdirs_eq_some`, what is on the stack
after a directory; `warmFiles_through` and `warmFiles_games`, when the games of a list
are all taken, and what has happened to each of them then; and `warmCardBody_top` with
`warmCardBody_pushes`, one pass of the loop.
-/

namespace Cubiboot
namespace Browsing

open CString Disc FuelLoop Games Runs

/-- What the calls of one `gm_list_files` come to, for a directory that is there. -/
structure DirCalls where
  /-- `dvd_custom_open` does not return 0. -/
  openFails : Bool
  /-- `dvd_custom_status` returns `NULL`, or a result that is not 0. -/
  statusFails : Bool
  /-- `dvd_custom_readdir` does not return 0, by the number of the call. -/
  readdirFails : Nat → Bool

/-- What the calls of the walk come to. -/
structure WalkCalls where
  /-- Of `gm_list_files`, by the number of its call. -/
  dir : Nat → DirCalls
  /-- `OSTryLockMutex` fails before this call. -/
  stop : Nat → Bool
  /-- For the games of this call. -/
  game : Nat → Nat → GameCalls
  /-- `OSTryLockMutex` fails before this game. -/
  stopGame : Nat → Nat → Bool

/-- Why `gm_list_files` does not return. -/
inductive ListStop where
  /-- `ipl_panic`. -/
  | panic
  /-- A path does not fit. -/
  | overrun

/-- The loop of `gm_list_files`, before this call and with this many paths stored. -/
def readDir (c : DirCalls) (targetDir : Path) :
    Nat → Nat → List FileEntry → Except ListStop (List PathEntry)
  | call, _, [] => if c.readdirFails call then .error .panic else .ok []
  | call, pathEntryCount, ent :: rest =>
      if c.readdirFails call then
        .error .panic
      else if ent.name = [] then
        .ok []
      else if Hidden ent then
        readDir c targetDir (call + 1) pathEntryCount rest
      else
        match listedPath targetDir ent.name with
        | none => .error .overrun
        | some path =>
            if pathEntryCount + 1 ≥ maxPathEntries then
              .ok [⟨path, entryFileType ent⟩]
            else
              (readDir c targetDir (call + 1) (pathEntryCount + 1) rest).map
                fun listed => ⟨path, entryFileType ent⟩ :: listed

/-- `gm_list_files`; there is no list when `ok` is false. -/
def listDir (c : DirCalls) (dir : Path → Option (List FileEntry)) (targetDir : Path) :
    Except ListStop (Option (List PathEntry)) :=
  match dir targetDir with
  | none => .ok none
  | some entries =>
      if c.openFails then
        .ok none
      else if c.statusFails then
        .ok none
      else
        (readDir c targetDir 0 0 entries).map some

/-- What the walk does. -/
inductive WalkEvent where
  /-- `gm_list_files`. -/
  | listed (dir : Path)
  /-- A pass of the loop of `gm_warm_files` for a game, and its opens and closes. -/
  | game (path : Path) (calls : List FileCall)
deriving DecidableEq

/-- The variables of the walk, and what it has done. -/
structure WalkState where
  pathStack : List PathArray
  /-- The calls of `gm_list_files`. -/
  listings : Nat
  panicked : Bool
  buffers : InfoBuffers
  gm : GmState
  events : List WalkEvent

/-- One pass of the loop of `gm_warm_files`, for a game. -/
def warmGame (bnrOffsets : BnrOffsets) (path : Path) (c : GameCalls) (s : WalkState) :
    WalkState :=
  let run := Disc.getGameInfo bnrOffsets c.file s.buffers true
  let cached := bnrCacheGet s.gm.bnrCache (gmBnrCacheKey path) s.gm.bannerBuffer
  { s with
    buffers := run.buffers
    gm := gmWarmFile s.gm path ⟨run.info, run.outFd.getD 0xFFFFFFFF, none, c.read⟩
    -- The file is not opened again.
    events := s.events ++ [.game path
      (warmFileCalls bnrOffsets s.buffers ⟨.game, c.file, cached.isSome, .refused, false⟩).2] }

/-- `gm_warm_files`, from this game on: whether it is through, and the state it leaves. -/
def warmFiles (bnrOffsets : BnrOffsets) (calls : Nat → GameCalls) (stop : Nat → Bool) :
    Nat → List PathEntry → WalkState → Bool × WalkState
  | _, [], s => (true, s)
  | game, entry :: rest, s =>
      if entry.type ≠ .game then
        warmFiles bnrOffsets calls stop game rest s
      else if stop game then
        (false, s)
      else
        warmFiles bnrOffsets calls stop (game + 1) rest
          (warmGame bnrOffsets entry.path.1 (calls game) s)

/-- A directory has been taken from the stack. -/
def WalkState.listing (s : WalkState) (pathStack : List PathArray) (cur : Path) : WalkState :=
  { s with
    pathStack := pathStack
    listings := s.listings + 1
    events := s.events ++ [.listed cur] }

section Walk

variable (bnrOffsets : BnrOffsets) (dir : Path → Option (List FileEntry)) (c : WalkCalls)
variable (skipDir : Option Path)

/-- The call of `gm_warm_files` for the list of a directory, unless it is `skip_dir`. -/
def warmListing (number : Nat) (cur : Path) (listing : List PathEntry) (s : WalkState) :
    Bool × WalkState :=
  if skipDir ≠ some cur then
    warmFiles bnrOffsets (c.game number) (c.stopGame number) 0 listing s
  else
    (true, s)

/-- One pass of the loop of `gm_warm_card`: the next state, or the result. -/
def warmCardBody (s : WalkState) : Option (WalkState ⊕ Bool × WalkState) :=
  if s.panicked then
    some (.inl s)
  else
    match s.pathStack with
    | [] => some (.inr (true, s))
    | top :: pathStack =>
        if c.stop s.listings then
          some (.inr (false, s))
        else do
          let cur ← strcpy 128 top.1
          let next := s.listing pathStack cur.1
          match listDir (c.dir s.listings) dir cur.1 with
          | .error .overrun => none
          | .error .panic => some (.inl { next with panicked := true })
          | .ok none => some (.inl next)
          | .ok (some listing) =>
              match warmListing bnrOffsets c skipDir s.listings cur.1 listing next with
              | (false, next) => some (.inr (false, next))
              | (true, next) => do
                  let pathStack ← pushSubdirs next.pathStack listing
                  some (.inl { next with pathStack := pathStack })

/-- `gm_warm_card`: what it returns, and the state it leaves. -/
def gmWarmCard (buffers : InfoBuffers) (gm : GmState) (fuel : Nat) :
    Option (Bool × WalkState) := do
  let bottom ← strcpy 128 rootPath
  run (warmCardBody bnrOffsets dir c skipDir) fuel
    ⟨[bottom], 0, false, buffers, gm, []⟩

end Walk

/-- The calls of `dvd_custom_readdir` for a directory, with this many paths stored. -/
def readdirCalls : Nat → List FileEntry → Nat
  | _, [] => 1
  | pathEntryCount, ent :: rest =>
      if ent.name = [] then
        1
      else if Hidden ent then
        readdirCalls pathEntryCount rest + 1
      else if pathEntryCount + 1 ≥ maxPathEntries then
        1
      else
        readdirCalls (pathEntryCount + 1) rest + 1

variable {c : DirCalls} {targetDir : Path} {listing : List PathEntry}

theorem readdirCalls_pos (count : Nat) (entries : List FileEntry) :
    0 < readdirCalls count entries := by
  cases entries with
  | nil =>
      exact Nat.one_pos
  | cons ent rest =>
      rw [readdirCalls]
      split_ifs <;> omega

/-- An entry that is not hidden is listed when its path fits, and the others are. -/
theorem gmListFilesLoop_listed {count : Nat} {ent : FileEntry} {rest : List FileEntry}
    (hend : ¬ ent.name = []) (hhidden : ¬ Hidden ent) :
    gmListFilesLoop targetDir count (ent :: rest) =
      (listedPath targetDir ent.name).bind fun path =>
        (if count + 1 ≥ maxPathEntries then
          some []
        else
          gmListFilesLoop targetDir (count + 1) rest).map
            fun listed => ⟨path, entryFileType ent⟩ :: listed := by
  rw [gmListFilesLoop, if_neg hend, if_neg hhidden]
  simp only [listedPath, Option.bind_eq_bind, Option.bind_assoc, Option.map_eq_bind]
  rfl

theorem map_eq_ok {ε α β : Type} {f : α → β} {x : Except ε α} {b : β} :
    x.map f = .ok b ↔ ∃ a, x = .ok a ∧ f a = b := by
  cases x with
  | error e => simp [Except.map]
  | ok a => simp [Except.map]

/-- Of some calls the first succeeds, and the others do. -/
theorem succeed_succ {fails : Nat → Bool} {n call : Nat} :
    (∀ i < n + 1, fails (call + i) = false) ↔
      fails call = false ∧ ∀ i < n, fails (call + 1 + i) = false := by
  constructor
  · intro h
    refine ⟨h 0 (Nat.succ_pos n), fun i hi => ?_⟩
    have hnext := h (i + 1) (Nat.succ_lt_succ hi)
    rwa [Nat.add_comm i 1, ← Nat.add_assoc] at hnext
  · rintro ⟨hfirst, hrest⟩ i hi
    cases i with
    | zero => exact hfirst
    | succ i =>
        have hnext := hrest i (Nat.lt_of_succ_lt_succ hi)
        rwa [Nat.add_assoc, Nat.add_comm 1 i] at hnext

/-- A directory is listed when the calls succeed and the paths fit. -/
theorem readDir_eq_ok {call count : Nat} {entries : List FileEntry} :
    readDir c targetDir call count entries = .ok listing ↔
      (∀ i < readdirCalls count entries, c.readdirFails (call + i) = false) ∧
        gmListFilesLoop targetDir count entries = some listing := by
  induction entries generalizing call count listing with
  | nil =>
      rw [readDir, readdirCalls, gmListFilesLoop]
      cases hcall : c.readdirFails call <;> simp [hcall]
  | cons ent rest ih =>
      cases hcall : c.readdirFails call with
      | true =>
          have hpanic : readDir c targetDir call count (ent :: rest) = .error .panic := by
            rw [readDir, if_pos hcall]
          rw [hpanic]
          constructor
          · rintro ⟨⟩
          · rintro ⟨hsucceed, _⟩
            have hfirst := hsucceed 0 (readdirCalls_pos _ _)
            rw [Nat.add_zero, hcall] at hfirst
            cases hfirst
      | false =>
          have hgoes : ¬ c.readdirFails call = true := by
            rw [hcall]
            decide
          rw [readDir, readdirCalls, if_neg hgoes]
          by_cases hend : ent.name = []
          · simp [gmListFilesLoop, if_pos hend, hcall]
          by_cases hhidden : Hidden ent
          · rw [gmListFilesLoop, if_neg hend, if_neg hend, if_neg hend, if_pos hhidden,
              if_pos hhidden, if_pos hhidden, succeed_succ, ih, hcall]
            simp
          rw [gmListFilesLoop_listed hend hhidden, if_neg hend, if_neg hend, if_neg hhidden,
            if_neg hhidden]
          cases listedPath targetDir ent.name with
          | none =>
              simp
          | some path =>
              by_cases hlast : count + 1 ≥ maxPathEntries
              · simp [if_pos hlast, hcall]
              · rw [Option.bind_some, if_neg hlast, if_neg hlast, succeed_succ, hcall]
                simp only [if_neg hlast, map_eq_ok, Option.map_eq_some_iff, ih, true_and,
                  and_assoc, exists_and_left]

/-- `gm_list_files` gets as far as its loop, in a directory with these entries. -/
def Opens (c : DirCalls) (dir : Path → Option (List FileEntry)) (cur : Path)
    (entries : List FileEntry) : Prop :=
  dir cur = some entries ∧ c.openFails = false ∧ c.statusFails = false

variable {dir : Path → Option (List FileEntry)} {cur : Path} {entries : List FileEntry}

theorem listDir_opens (h : Opens c dir cur entries) :
    listDir c dir cur = (readDir c cur 0 0 entries).map some := by
  obtain ⟨hdir, hopen, hstatus⟩ := h
  simp [listDir, hdir, hopen, hstatus]

/-- A directory that cannot be read is passed over. -/
theorem listDir_closed (h : ∀ entries, ¬ Opens c dir cur entries) :
    listDir c dir cur = .ok none := by
  rw [listDir]
  cases hdir : dir cur with
  | none => rfl
  | some entries =>
      cases hopen : c.openFails with
      | true => rfl
      | false =>
          cases hstatus : c.statusFails with
          | true => rfl
          | false => exact absurd ⟨hdir, hopen, hstatus⟩ (h entries)

/-- The list of a directory that opens is what is shown, when the calls succeed. -/
theorem listDir_eq_listing (h : Opens c dir cur entries) :
    listDir c dir cur = .ok (some listing) ↔
      (∀ i < readdirCalls 0 entries, c.readdirFails i = false) ∧
        listing.map PathEntry.value =
          (shown entries).map fun ent => ⟨cur ++ ent.name, entryFileType ent⟩ := by
  rw [listDir_opens h, map_eq_ok, ← gmListFiles_eq_some, gmListFiles]
  simp only [Option.some_inj, exists_eq_right, readDir_eq_ok, Nat.zero_add]

/-- Paths are pushed, one after the other, while there is room for them. -/
def pushPaths (pathStack : List Path) : List Path → List Path
  | [] => pathStack
  | subdir :: rest =>
      if pathStack.length < 100 then
        pushPaths (subdir :: pathStack) rest
      else
        pushPaths pathStack rest

/-- The paths of the directories of a list. -/
def subdirPaths (listing : List GmPathEntry) : List Path :=
  (listing.filter fun entry => entry.type = .directory).map fun entry => entry.path ++ [0x2F]

/-- The paths of the games of a list. -/
def gamePaths (listing : List GmPathEntry) : List Path :=
  (listing.filter fun entry => entry.type = .game).map fun entry => entry.path

variable {e : GmPathEntry} {list : List GmPathEntry}

theorem subdirPaths_directory (h : e.type = .directory) :
    subdirPaths (e :: list) = (e.path ++ [0x2F]) :: subdirPaths list := by
  simp [subdirPaths, h]

theorem subdirPaths_other (h : e.type ≠ .directory) :
    subdirPaths (e :: list) = subdirPaths list := by
  simp [subdirPaths, h]

theorem gamePaths_game (h : e.type = .game) : gamePaths (e :: list) = e.path :: gamePaths list := by
  simp [gamePaths, h]

theorem gamePaths_other (h : e.type ≠ .game) : gamePaths (e :: list) = gamePaths list := by
  simp [gamePaths, h]

theorem pushPaths_sublist (pathStack subdirs : List Path) :
    (pushPaths pathStack subdirs).Sublist (subdirs.reverse ++ pathStack) := by
  induction subdirs generalizing pathStack with
  | nil =>
      exact List.Sublist.refl _
  | cons subdir rest ih =>
      rw [pushPaths, List.reverse_cons, List.append_assoc, List.singleton_append]
      split
      · exact ih _
      · exact (ih pathStack).trans ((List.sublist_cons_self _ _).append_left _)

/-- All are pushed when there are 100 places for them. -/
theorem pushPaths_eq {pathStack subdirs : List Path}
    (h : pathStack.length + subdirs.length ≤ 100) :
    pushPaths pathStack subdirs = subdirs.reverse ++ pathStack := by
  induction subdirs generalizing pathStack with
  | nil =>
      rfl
  | cons subdir rest ih =>
      rw [List.length_cons] at h
      have hroom : pathStack.length < 100 := by omega
      rw [pushPaths, if_pos hroom, ih (by rw [List.length_cons]; omega), List.reverse_cons,
        List.append_assoc, List.singleton_append]

/-- The directories of a list are pushed when all of their paths fit. -/
theorem pushSubdirs_eq_some {pathStack pushed : List PathArray} :
    pushSubdirs pathStack listing = some pushed ↔
      (∀ subdir ∈ subdirPaths (listing.map PathEntry.value), subdir.length < 128) ∧
        pushed.map (·.1) =
          pushPaths (pathStack.map (·.1)) (subdirPaths (listing.map PathEntry.value)) := by
  induction listing generalizing pathStack with
  | nil =>
      rw [pushSubdirs, Option.some_inj]
      constructor
      · rintro rfl
        exact ⟨by simp [subdirPaths], rfl⟩
      · rintro ⟨_, heq⟩
        exact (List.map_injective_iff.2 Subtype.val_injective heq).symm
  | cons entry rest ih =>
      rw [pushSubdirs, List.map_cons]
      by_cases htype : entry.type = .directory
      · rw [if_pos htype, subdirPaths_directory (e := entry.value) htype, List.forall_mem_cons,
          pushPaths, List.length_map]
        simp only [Option.bind_eq_bind, Option.bind_eq_some_iff, strcpy_eq_some, strcat_eq_some]
        constructor
        · rintro ⟨path, hpath, subdir, hsubdir, hpushed⟩
          have hvalue : subdir.1 = entry.value.path ++ [0x2F] := by
            rw [hsubdir, hpath]
            rfl
          rw [strcpy_eq_some.2 (rfl : subdir.1 = subdir.1)] at hpushed
          split at hpushed
          · rename_i hroom
            obtain ⟨hothers, heq⟩ := ih.1 hpushed
            rw [if_pos hroom, heq, List.map_cons, hvalue]
            exact ⟨⟨hvalue ▸ subdir.2, hothers⟩, rfl⟩
          · rename_i hroom
            obtain ⟨hothers, heq⟩ := ih.1 hpushed
            rw [if_neg hroom, heq]
            exact ⟨⟨hvalue ▸ subdir.2, hothers⟩, rfl⟩
        · rintro ⟨⟨hfits, hothers⟩, heq⟩
          obtain ⟨subdir, hsubdir⟩ := exists_stored.2 hfits
          refine ⟨entry.path, rfl, subdir, hsubdir, ?_⟩
          rw [strcpy_eq_some.2 (rfl : subdir.1 = subdir.1)]
          split
          · rename_i hroom
            rw [if_pos hroom] at heq
            exact ih.2 ⟨hothers, by rw [heq, List.map_cons, hsubdir]⟩
          · rename_i hroom
            rw [if_neg hroom] at heq
            exact ih.2 ⟨hothers, heq⟩
      · rw [if_neg htype, subdirPaths_other (e := entry.value) htype]
        exact ih

theorem exists_pushSubdirs (pathStack : List PathArray) :
    (∃ pushed, pushSubdirs pathStack listing = some pushed) ↔
      ∀ subdir ∈ subdirPaths (listing.map PathEntry.value), subdir.length < 128 := by
  constructor
  · rintro ⟨pushed, hpushed⟩
    exact (pushSubdirs_eq_some.1 hpushed).1
  · intro hfits
    have hall : ∀ path ∈ pushPaths (pathStack.map (·.1))
        (subdirPaths (listing.map PathEntry.value)), path.length < 128 := by
      intro path hpath
      rcases List.mem_append.1 ((pushPaths_sublist _ _).subset hpath) with hnew | hold
      · exact hfits path (List.mem_reverse.1 hnew)
      · obtain ⟨stored, _, rfl⟩ := List.mem_map.1 hold
        exact stored.2
    exact ⟨_, pushSubdirs_eq_some.2 ⟨hfits, List.attachWith_map_subtype_val hall⟩⟩

/-- A list is one of stored paths when all of them fit. -/
theorem exists_listing {list : List GmPathEntry} :
    (∃ listing : List PathEntry, listing.map PathEntry.value = list) ↔
      ∀ entry ∈ list, entry.path.length < 128 := by
  induction list with
  | nil =>
      simp
  | cons entry rest ih =>
      rw [List.forall_mem_cons, ← ih]
      constructor
      · rintro ⟨listing, hlisting⟩
        cases listing with
        | nil => cases hlisting
        | cons p listing =>
            obtain ⟨rfl, hrest⟩ := List.cons_eq_cons.1 hlisting
            exact ⟨p.path.2, listing, hrest⟩
      · rintro ⟨hfits, listing, rfl⟩
        exact ⟨⟨⟨entry.path, hfits⟩, entry.type⟩ :: listing, rfl⟩

variable {bnrOffsets : BnrOffsets} {calls : Nat → GameCalls} {stop : Nat → Bool} {game : Nat}

/-- `gm_warm_files` leaves the variables of `gm_warm_card` as they are. -/
theorem warmFiles_walk (s : WalkState) :
    (warmFiles bnrOffsets calls stop game listing s).2.pathStack = s.pathStack ∧
      (warmFiles bnrOffsets calls stop game listing s).2.listings = s.listings ∧
      (warmFiles bnrOffsets calls stop game listing s).2.panicked = s.panicked := by
  induction listing generalizing game s with
  | nil =>
      exact ⟨rfl, rfl, rfl⟩
  | cons entry rest ih =>
      rw [warmFiles]
      split_ifs
      · exact ih s
      · exact ⟨rfl, rfl, rfl⟩
      · exact ih (warmGame bnrOffsets entry.path.1 (calls game) s)

/-- `gm_warm_files` is through when it is not stopped before a game. -/
theorem warmFiles_through (s : WalkState) :
    (warmFiles bnrOffsets calls stop game listing s).1 = true ↔
      ∀ i < (gamePaths (listing.map PathEntry.value)).length, stop (game + i) = false := by
  induction listing generalizing game s with
  | nil =>
      simp [warmFiles, gamePaths]
  | cons entry rest ih =>
      rw [warmFiles, List.map_cons]
      by_cases htype : entry.type = .game
      · rw [gamePaths_game (e := entry.value) htype, List.length_cons, succeed_succ,
          if_neg (not_not_intro htype)]
        cases hstop : stop game with
        | true => simp
        | false => simpa using ih (warmGame bnrOffsets entry.path.1 (calls game) s)
      · rw [gamePaths_other (e := entry.value) htype, if_pos htype]
        exact ih s

/-- What the walk shares with `gm_check_files`. -/
def WalkState.warm (s : WalkState) : WarmState :=
  ⟨s.buffers, s.gm⟩

/-- The event of a game. -/
def WalkGame.event (g : WalkGame) : WalkEvent :=
  .game g.path g.calls.file.opening.passCalls

/-- Games with these paths, the first with this number. -/
def listedGames (calls : Nat → GameCalls) (game : Nat) (paths : List Path) : List WalkGame :=
  (paths.zipIdx game).map fun entry => ⟨entry.1, calls entry.2⟩

theorem listedGames_cons (path : Path) (paths : List Path) :
    listedGames calls game (path :: paths) =
      ⟨path, calls game⟩ :: listedGames calls (game + 1) paths :=
  rfl

theorem warmGame_events (path : Path) (g : GameCalls) (s : WalkState) :
    (warmGame bnrOffsets path g s).events = s.events ++ [(⟨path, g⟩ : WalkGame).event] := by
  simp only [warmGame, warmFileCalls_eq, WalkGame.event]

theorem warmGame_warmed (path : Path) (g : GameCalls) (s : WalkState) :
    GameWarmed bnrOffsets s.warm ⟨path, g⟩ (warmGame bnrOffsets path g s).warm := by
  have hbuffers : (warmGame bnrOffsets path g s).warm.buffers =
      (Disc.getGameInfo bnrOffsets g.file s.buffers true).buffers := by
    simp only [warmGame, WalkState.warm]
  have hgm : (warmGame bnrOffsets path g s).warm.gm = gmWarmFile s.warm.gm path
      ⟨(Disc.getGameInfo bnrOffsets g.file s.buffers true).info,
        (Disc.getGameInfo bnrOffsets g.file s.buffers true).outFd.getD 0xFFFFFFFF, none,
        g.read⟩ := by
    simp only [warmGame, WalkState.warm]
  exact gameWarmed hbuffers hgm rfl rfl

/-- It has taken all of the games then, in their order. -/
theorem warmFiles_games (s : WalkState)
    (h : (warmFiles bnrOffsets calls stop game listing s).1 = true) :
    let games := listedGames calls game (gamePaths (listing.map PathEntry.value))
    (warmFiles bnrOffsets calls stop game listing s).2.events =
        s.events ++ games.map WalkGame.event ∧
      Labelled (GameWarmed bnrOffsets) games s.warm
        (warmFiles bnrOffsets calls stop game listing s).2.warm := by
  induction listing generalizing game s with
  | nil =>
      exact ⟨(List.append_nil _).symm, .nil _⟩
  | cons entry rest ih =>
      rw [warmFiles] at h ⊢
      rw [List.map_cons]
      by_cases htype : entry.type = .game
      · rw [if_neg (not_not_intro htype)] at h ⊢
        rw [gamePaths_game (e := entry.value) htype, listedGames_cons]
        split_ifs at h ⊢
        obtain ⟨hevents, hgames⟩ := ih _ h
        refine ⟨?_, .cons (warmGame_warmed _ _ s) hgames⟩
        rw [hevents, warmGame_events, List.map_cons, List.append_assoc]
        rfl
      · rw [if_pos htype] at h ⊢
        rw [gamePaths_other (e := entry.value) htype]
        exact ih s h

variable {w : WalkCalls} {skipDir : Option Path} {number : Nat}

theorem warmListing_walk {through : Bool} {s next : WalkState}
    (h : warmListing bnrOffsets w skipDir number cur listing s = (through, next)) :
    next.pathStack = s.pathStack ∧ next.listings = s.listings ∧
      next.panicked = s.panicked := by
  obtain rfl : (warmListing bnrOffsets w skipDir number cur listing s).2 = next := by
    rw [h]
  rw [warmListing]
  split
  · exact warmFiles_walk s
  · exact ⟨rfl, rfl, rfl⟩

theorem warmListing_through {through : Bool} {s next : WalkState}
    (h : warmListing bnrOffsets w skipDir number cur listing s = (through, next)) :
    through = true ↔
      skipDir = some cur ∨
        ∀ i < (gamePaths (listing.map PathEntry.value)).length, w.stopGame number i = false := by
  obtain rfl : (warmListing bnrOffsets w skipDir number cur listing s).1 = through := by
    rw [h]
  rw [warmListing]
  split
  · rename_i hskip
    rw [warmFiles_through]
    simp [hskip]
  · rename_i hskip
    exact iff_of_true rfl (Or.inl (not_not.1 hskip))

/-- The games of a directory, the `number`th that is listed, unless it is skipped. -/
def warmedGames (w : WalkCalls) (skipDir : Option Path) (number : Nat) (cur : Path)
    (list : List GmPathEntry) : List WalkGame :=
  if skipDir = some cur then [] else listedGames (w.game number) 0 (gamePaths list)

theorem warmListing_games {s next : WalkState}
    (h : warmListing bnrOffsets w skipDir number cur listing s = (true, next)) :
    let games := warmedGames w skipDir number cur (listing.map PathEntry.value)
    next.events = s.events ++ games.map WalkGame.event ∧
      Labelled (GameWarmed bnrOffsets) games s.warm next.warm := by
  rw [warmListing] at h
  rw [warmedGames]
  split at h
  · rename_i hskip
    have hgames := warmFiles_games s (congrArg Prod.fst h)
    rw [h] at hgames
    rw [if_neg hskip]
    exact hgames
  · rename_i hskip
    cases h
    rw [if_pos (not_not.1 hskip)]
    exact ⟨(List.append_nil _).symm, .nil _⟩

section Pass

variable {s : WalkState} {top : PathArray} {rest : List PathArray}

theorem warmCardBody_top (hpanicked : s.panicked = false) (hstack : s.pathStack = top :: rest)
    (hstop : w.stop s.listings = false) :
    warmCardBody bnrOffsets dir w skipDir s =
      match listDir (w.dir s.listings) dir top.1 with
      | .error .overrun => none
      | .error .panic => some (.inl { s.listing rest top.1 with panicked := true })
      | .ok none => some (.inl (s.listing rest top.1))
      | .ok (some listing) =>
          match warmListing bnrOffsets w skipDir s.listings top.1 listing
            (s.listing rest top.1) with
          | (false, next) => some (.inr (false, next))
          | (true, next) => (pushSubdirs next.pathStack listing).bind fun pathStack =>
              some (.inl { next with pathStack := pathStack }) := by
  simp only [warmCardBody, hpanicked, hstack, hstop, Bool.false_eq_true, if_false,
    strcpy_eq_some.2 (rfl : top.1 = top.1)]
  rfl

/-- A directory that is listed, with the games through, has its directories pushed. -/
theorem warmCardBody_pushes {next : WalkState} (hpanicked : s.panicked = false)
    (hstack : s.pathStack = top :: rest) (hstop : w.stop s.listings = false)
    (hlist : listDir (w.dir s.listings) dir top.1 = .ok (some listing))
    (hwarmed : warmListing bnrOffsets w skipDir s.listings top.1 listing
      (s.listing rest top.1) = (true, next)) :
    warmCardBody bnrOffsets dir w skipDir s =
      (pushSubdirs rest listing).map fun pathStack =>
        .inl { next with pathStack := pathStack } := by
  have hkept : next.pathStack = rest := (warmListing_walk hwarmed).1
  rw [warmCardBody_top hpanicked hstack hstop, hlist]
  simp only [hwarmed, hkept, Option.map_eq_bind]
  rfl

end Pass

end Browsing
end Cubiboot
