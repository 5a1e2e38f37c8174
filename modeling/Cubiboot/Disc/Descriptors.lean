import Cubiboot.Disc.Examined
import Cubiboot.Games.Enumeration

/-!
# Who closes a file

The descriptors of a drive that has real ones, through `get_game_info`,
`gm_load_banner` and the loops of `gm_check_files` and `gm_warm_files`.  A game that
is valid is handed over open; `gm_load_banner` and `gm_warm_files` close it.

A file that the drive has opened, but whose status does not arrive, is not closed.

Results: `getGameInfo_calls`, the opens and closes of `get_game_info`, exit by exit;
`checkFileCalls_closedOnce` and `warmFileCalls_closedOnce`, when a pass of a loop closes
what it has opened, once; `descriptors_owned_iff`, the same of whole lists of files;
`gmLoadBanner_descriptor`, that the model of `gm_load_banner` with its effects keeps the
descriptor of a game as the calls here say.
-/

namespace Cubiboot
namespace Disc

open Games

/-- `if (fd >= 0) dvd_custom_close(fd)`. -/
def closeIfOpen (fd : Option Nat) : List FileCall :=
  match fd with
  | some fd => [.closed fd]
  | none => []

/-- What is done with the descriptors in `gm_load_banner`. -/
def gmLoadBannerCalls
    (bnrOffset : Nat) (cached : Bool) (openFd : Option Nat) (reopening : FileOpening) :
    List FileCall :=
  if bnrOffset = 0 then
    closeIfOpen openFd
  else if cached then
    closeIfOpen openFd
  else
    match openFd with
    | some fd => [.closed fd]
    | none =>
        -- The file is opened again; a status that is bad or not there ends it.
        match reopening with
        | .refused => []
        | .unanswered none => []
        | .unanswered (some fd) => [.opened fd]
        | .bad fd isOpen => if isOpen then [.opened fd] else []
        | .opened fd => [.opened fd, .closed fd]

/-- A file of the listing, and what the calls made for it come to. -/
structure ScannedFile where
  type : GmFileType
  file : DeviceFile
  /-- `bnr_cache_get` succeeds. -/
  cached : Bool
  /-- The open in `gm_load_banner`. -/
  reopening : FileOpening
  /-- The mutex could not be taken. -/
  stop : Bool

/-- One pass of the loop of `gm_check_files`. -/
def checkFileCalls
    (bnrOffsets : BnrOffsets) (b : InfoBuffers) (s : ScannedFile) :
    InfoBuffers × List FileCall :=
  if s.type = .game then
    let run := getGameInfo bnrOffsets s.file b true
    if run.info.valid then
      (run.buffers,
        run.calls ++ gmLoadBannerCalls run.info.bnrOffset s.cached run.outFd s.reopening)
    else
      (run.buffers, run.calls)
  else
    (b, [])

/-- The loop of `gm_check_files`: the calls of each pass. -/
def checkFilesCalls (bnrOffsets : BnrOffsets) : InfoBuffers → List ScannedFile →
    List (List FileCall)
  | _, [] => []
  | b, s :: rest =>
      if s.stop then
        []
      else
        (checkFileCalls bnrOffsets b s).2 ::
          checkFilesCalls bnrOffsets (checkFileCalls bnrOffsets b s).1 rest

/-- One pass of the loop of `gm_warm_files`, for a game; -1 is closed as it is. -/
def warmFileCalls
    (bnrOffsets : BnrOffsets) (b : InfoBuffers) (s : ScannedFile) :
    InfoBuffers × List FileCall :=
  let run := getGameInfo bnrOffsets s.file b true
  if run.info.valid then
    if run.info.bnrOffset = 0 ∨ s.cached = true then
      (run.buffers, run.calls ++ closeIfOpen run.outFd)
    else
      (run.buffers, run.calls ++ [.closed (run.outFd.getD 0xFFFFFFFF)])
  else
    (run.buffers, run.calls)

/-- The loop of `gm_warm_files`: the calls of each pass. -/
def warmFilesCalls (bnrOffsets : BnrOffsets) : InfoBuffers → List ScannedFile →
    List (List FileCall)
  | _, [] => []
  | b, s :: rest =>
      if s.type ≠ .game then
        [] :: warmFilesCalls bnrOffsets b rest
      else if s.stop then
        []
      else
        (warmFileCalls bnrOffsets b s).2 ::
          warmFilesCalls bnrOffsets (warmFileCalls bnrOffsets b s).1 rest

/-- A descriptor has been opened and not been closed. -/
def LeavesOpen (calls : List FileCall) : Prop :=
  ∃ fd, .opened fd ∈ calls ∧ .closed fd ∉ calls

/-- Every descriptor that has been opened has been closed once. -/
def ClosedOnce (calls : List FileCall) : Prop :=
  ∀ fd, .opened fd ∈ calls → calls.count (.closed fd) = 1

/-- The drive opens the file, and its status does not arrive. -/
def StatusLost (f : DeviceFile) : Prop :=
  ∃ fd, f.opening = .unanswered (some fd)

/-- The files that `gm_check_files` comes to. -/
def checkedFiles (files : List ScannedFile) : List ScannedFile :=
  files.takeWhile fun s => !s.stop

/-- The files that `gm_warm_files` comes to. -/
def warmedFiles (files : List ScannedFile) : List ScannedFile :=
  files.takeWhile fun s => decide (s.type ≠ .game) || !s.stop

variable {bnrOffsets : BnrOffsets} {b : InfoBuffers} {f : DeviceFile} {s : ScannedFile}
variable {fd offset n : Nat} {wanted : Bool} {run : InfoRun}

/-- A file that was open goes to the caller, or is closed. -/
def HandsOver (fd : Nat) (wanted : Bool) (run : InfoRun) : Prop :=
  run.info.valid = true ∧ wanted = true ∧ run.outFd = some fd ∧ run.calls = [] ∨
    ¬ (run.info.valid = true ∧ wanted = true) ∧ run.outFd = none ∧ run.calls = [.closed fd]

theorem validExit_handsOver : HandsOver fd wanted (validExit b fd offset wanted) := by
  cases wanted with
  | true => exact Or.inl ⟨rfl, rfl, rfl, rfl⟩
  | false => exact Or.inr ⟨fun h => Bool.noConfusion h.2, rfl, rfl⟩

theorem invalidExit_handsOver : HandsOver fd wanted (invalidExit b fd) :=
  Or.inr ⟨fun h => Bool.noConfusion h.1, rfl, rfl⟩

theorem lookInFst_handsOver : HandsOver fd wanted (lookInFst f n b fd wanted) := by
  simp only [lookInFst]
  by_cases hsize : headerFstSize b.header > maxFstSize
  · rw [if_pos hsize]
    exact invalidExit_handsOver
  · rw [if_neg hsize]
    by_cases hoffset : (searchFst (readFst f n b).ram).offset ≠ 0
    · rw [if_pos hoffset]
      by_cases hbanner : IsBanner (probeBanner f (n + 1) (readFst f n b)
          (searchFst (readFst f n b).ram).offset).smallBuf
      · rw [if_pos hbanner]
        exact validExit_handsOver
      · rw [if_neg hbanner]
        exact invalidExit_handsOver
    · rw [if_neg hoffset]
      exact invalidExit_handsOver

theorem lookInFile_handsOver : HandsOver fd wanted (lookInFile bnrOffsets f b fd wanted) := by
  obtain ⟨c, hc⟩ : ∃ c, c = { b with header := f.read 0 b.header 0 sizeofDiskHeader 0 } :=
    ⟨_, rfl⟩
  have hlook : lookInFile bnrOffsets f b fd wanted =
      if getBannerOffsetFast bnrOffsets c.header ≠ 0 then
        if IsBanner (probeBanner f 1 c (getBannerOffsetFast bnrOffsets c.header)).smallBuf then
          validExit (probeBanner f 1 c (getBannerOffsetFast bnrOffsets c.header)) fd
            (getBannerOffsetFast bnrOffsets c.header) wanted
        else
          lookInFst f 2 (probeBanner f 1 c (getBannerOffsetFast bnrOffsets c.header)) fd wanted
      else
        lookInFst f 1 c fd wanted := by
    rw [hc]
    rfl
  rw [hlook]
  by_cases hfast : getBannerOffsetFast bnrOffsets c.header ≠ 0
  · rw [if_pos hfast]
    by_cases hbanner : IsBanner
        (probeBanner f 1 c (getBannerOffsetFast bnrOffsets c.header)).smallBuf
    · rw [if_pos hbanner]
      exact validExit_handsOver
    · rw [if_neg hbanner]
      exact lookInFst_handsOver
  · rw [if_neg hfast]
    exact lookInFst_handsOver

/-- The calls of `get_game_info`, by what opening the file comes to. -/
theorem getGameInfo_calls (bnrOffsets : BnrOffsets) (f : DeviceFile) (b : InfoBuffers)
    (wanted : Bool) :
    let run := getGameInfo bnrOffsets f b wanted
    (∃ fd, run.info.valid = true ∧ wanted = true ∧ run.outFd = some fd ∧
        run.calls = [.opened fd]) ∨
      ¬ (run.info.valid = true ∧ wanted = true) ∧ run.outFd = none ∧
        (run.calls = [] ∨ (∃ fd, run.calls = [.closed fd]) ∨
          (∃ fd, run.calls = [.opened fd, .closed fd]) ∨
          ∃ fd, f.opening = .unanswered (some fd) ∧ run.calls = [.opened fd]) := by
  have hinvalid : ¬ (invalidInfo.valid = true ∧ wanted = true) := fun h => Bool.noConfusion h.1
  cases hopening : f.opening with
  | refused =>
      simp only [getGameInfo, hopening]
      exact Or.inr ⟨hinvalid, trivial, Or.inl trivial⟩
  | unanswered fd =>
      cases fd with
      | none =>
          simp only [getGameInfo, hopening]
          exact Or.inr ⟨hinvalid, trivial, Or.inl trivial⟩
      | some fd =>
          simp only [getGameInfo, hopening]
          exact Or.inr ⟨hinvalid, trivial, Or.inr (Or.inr (Or.inr ⟨fd, rfl, rfl⟩))⟩
  | bad fd isOpen =>
      simp only [getGameInfo, hopening]
      cases isOpen with
      | true => exact Or.inr ⟨hinvalid, trivial, Or.inr (Or.inr (Or.inl ⟨fd, rfl⟩))⟩
      | false => exact Or.inr ⟨hinvalid, trivial, Or.inr (Or.inl ⟨fd, rfl⟩)⟩
  | opened fd =>
      have hlook : HandsOver fd wanted (lookInFile bnrOffsets f b fd wanted) :=
        lookInFile_handsOver
      obtain ⟨run, hrun⟩ : ∃ run, run = lookInFile bnrOffsets f b fd wanted := ⟨_, rfl⟩
      rw [← hrun] at hlook
      simp only [getGameInfo, hopening, ← hrun]
      rcases hlook with ⟨hvalid, hwanted, hfd, hcalls⟩ | ⟨hnot, hfd, hcalls⟩
      · exact Or.inl ⟨fd, hvalid, hwanted, hfd, by rw [hcalls]⟩
      · exact Or.inr ⟨hnot, hfd, Or.inr (Or.inr (Or.inl ⟨fd, by rw [hcalls]⟩))⟩

/-- Without a status there is no game, and the file stays open. -/
theorem getGameInfo_statusLost (bnrOffsets : BnrOffsets) (b : InfoBuffers) (wanted : Bool)
    (h : StatusLost f) :
    (getGameInfo bnrOffsets f b wanted).info.valid = false ∧
      ∃ fd, (getGameInfo bnrOffsets f b wanted).calls = [.opened fd] := by
  obtain ⟨fd, hopening⟩ := h
  simp only [getGameInfo, hopening]
  exact ⟨rfl, fd, rfl⟩

/-- A file is left open for a caller that gets it, or else by a status that is lost. -/
theorem getGameInfo_leavesOpen (hlost : ¬ StatusLost f) :
    LeavesOpen (getGameInfo bnrOffsets f b wanted).calls ↔
      (getGameInfo bnrOffsets f b wanted).info.valid = true ∧ wanted = true := by
  rcases getGameInfo_calls bnrOffsets f b wanted with
    ⟨fd, hvalid, hwanted, -, hcalls⟩ | ⟨hnot, -, hcalls⟩
  · rw [hcalls]
    exact ⟨fun _ => ⟨hvalid, hwanted⟩, fun _ => ⟨fd, by simp⟩⟩
  · refine ⟨fun hopen => ?_, fun h => absurd h hnot⟩
    obtain ⟨g, hg, hclosed⟩ := hopen
    rcases hcalls with hcalls | ⟨fd, hcalls⟩ | ⟨fd, hcalls⟩ | ⟨fd, hopening, -⟩
    · simp [hcalls] at hg
    · simp [hcalls] at hg
    · simp only [hcalls, List.mem_cons, FileCall.opened.injEq, reduceCtorEq,
        List.not_mem_nil, or_false] at hg
      exact absurd (by simp [hcalls, hg]) hclosed
    · exact absurd ⟨fd, hopening⟩ hlost

theorem closedOnce_nil : ClosedOnce [] :=
  fun _ h => absurd h List.not_mem_nil

theorem closedOnce_closed : ClosedOnce [.closed fd] := by
  intro g hg
  simp at hg

theorem closedOnce_pair : ClosedOnce [.opened fd, .closed fd] := by
  intro g hg
  simp only [List.mem_cons, FileCall.opened.injEq, reduceCtorEq, List.not_mem_nil,
    or_false] at hg
  rw [hg]
  simp

theorem not_closedOnce_opened : ¬ ClosedOnce [.opened fd] := by
  intro h
  have hcount := h fd (List.mem_singleton.2 rfl)
  simp at hcount

/-- An open file is closed by `gm_load_banner` on every path. -/
theorem gmLoadBannerCalls_open (offset : Nat) (cached : Bool) (fd : Nat) (again : FileOpening) :
    gmLoadBannerCalls offset cached (some fd) again = [.closed fd] := by
  simp only [gmLoadBannerCalls, closeIfOpen, ite_self]

/-- A pass of a loop, after its `get_game_info`: the game is closed. -/
theorem pass_closedOnce
    {after : List FileCall}
    (hafter : ∀ fd, (getGameInfo bnrOffsets f b true).outFd = some fd → after = [.closed fd]) :
    ClosedOnce
        (if (getGameInfo bnrOffsets f b true).info.valid then
          (getGameInfo bnrOffsets f b true).calls ++ after
        else
          (getGameInfo bnrOffsets f b true).calls) ↔
      ¬ StatusLost f := by
  constructor
  · intro hclosed hlost
    obtain ⟨hvalid, fd, hcalls⟩ :=
      getGameInfo_statusLost bnrOffsets b true hlost
    rw [if_neg (by simp [hvalid]), hcalls] at hclosed
    exact not_closedOnce_opened hclosed
  · intro hlost
    rcases getGameInfo_calls bnrOffsets f b true with
      ⟨fd, hvalid, -, hfd, hcalls⟩ | ⟨hnot, -, hcalls⟩
    · rw [if_pos hvalid, hcalls, hafter fd hfd]
      exact closedOnce_pair
    · rw [if_neg fun hvalid => hnot ⟨hvalid, rfl⟩]
      rcases hcalls with hcalls | ⟨fd, hcalls⟩ | ⟨fd, hcalls⟩ | ⟨fd, hopening, -⟩
      · rw [hcalls]
        exact closedOnce_nil
      · rw [hcalls]
        exact closedOnce_closed
      · rw [hcalls]
        exact closedOnce_pair
      · exact absurd ⟨fd, hopening⟩ hlost

/-- A pass of `gm_check_files` closes what it opens, unless a status is lost. -/
theorem checkFileCalls_closedOnce :
    ClosedOnce (checkFileCalls bnrOffsets b s).2 ↔
      (s.type = .game → ¬ StatusLost s.file) := by
  by_cases hgame : s.type = .game
  · have hcalls : (checkFileCalls bnrOffsets b s).2 =
        if (getGameInfo bnrOffsets s.file b true).info.valid then
          (getGameInfo bnrOffsets s.file b true).calls ++
            gmLoadBannerCalls (getGameInfo bnrOffsets s.file b true).info.bnrOffset s.cached
              (getGameInfo bnrOffsets s.file b true).outFd s.reopening
        else
          (getGameInfo bnrOffsets s.file b true).calls := by
      rw [checkFileCalls, if_pos hgame]
      exact apply_ite Prod.snd _ _ _
    rw [hcalls, pass_closedOnce fun fd hfd => by rw [hfd, gmLoadBannerCalls_open]]
    exact ⟨fun h _ => h, fun h => h hgame⟩
  · rw [checkFileCalls, if_neg hgame]
    exact ⟨fun _ h => absurd h hgame, fun _ => closedOnce_nil⟩

/-- A pass of `gm_warm_files` closes what it opens, unless a status is lost. -/
theorem warmFileCalls_closedOnce :
    ClosedOnce (warmFileCalls bnrOffsets b s).2 ↔ ¬ StatusLost s.file := by
  have hcalls : (warmFileCalls bnrOffsets b s).2 =
      if (getGameInfo bnrOffsets s.file b true).info.valid then
        (getGameInfo bnrOffsets s.file b true).calls ++
          if (getGameInfo bnrOffsets s.file b true).info.bnrOffset = 0 ∨ s.cached = true then
            closeIfOpen (getGameInfo bnrOffsets s.file b true).outFd
          else
            [.closed ((getGameInfo bnrOffsets s.file b true).outFd.getD 0xFFFFFFFF)]
      else
        (getGameInfo bnrOffsets s.file b true).calls := by
    rw [warmFileCalls]
    by_cases hvalid : (getGameInfo bnrOffsets s.file b true).info.valid = true
    · simp only [if_pos hvalid]
      by_cases hcached :
          (getGameInfo bnrOffsets s.file b true).info.bnrOffset = 0 ∨ s.cached = true
      · simp only [if_pos hcached]
      · simp only [if_neg hcached]
    · simp only [if_neg hvalid]
  rw [hcalls]
  refine pass_closedOnce fun fd hfd => ?_
  rw [hfd]
  exact ite_self _

/-- What is done with the descriptors of a file that is looked into and let go. -/
def FileOpening.passCalls : FileOpening → List FileCall
  | .refused => []
  | .unanswered none => []
  | .unanswered (some fd) => [.opened fd]
  | .bad fd isOpen => if isOpen then [.opened fd, .closed fd] else [.closed fd]
  | .opened fd => [.opened fd, .closed fd]

/-- A pass of `gm_warm_files` does nothing else. -/
theorem warmFileCalls_eq : (warmFileCalls bnrOffsets b s).2 = s.file.opening.passCalls := by
  cases hopening : s.file.opening with
  | refused =>
      simp only [warmFileCalls, getGameInfo, hopening, invalidInfo, Bool.false_eq_true, if_false,
        FileOpening.passCalls]
  | unanswered fd =>
      cases fd <;>
        simp only [warmFileCalls, getGameInfo, hopening, invalidInfo, Bool.false_eq_true, if_false,
          FileOpening.passCalls]
  | bad fd isOpen =>
      simp only [warmFileCalls, getGameInfo, hopening, invalidInfo, Bool.false_eq_true, if_false,
        FileOpening.passCalls]
  | opened fd =>
      have hlook : HandsOver fd true (lookInFile bnrOffsets s.file b fd true) :=
        lookInFile_handsOver
      obtain ⟨run, hrun⟩ : ∃ run, run = lookInFile bnrOffsets s.file b fd true := ⟨_, rfl⟩
      rw [← hrun] at hlook
      simp only [warmFileCalls, getGameInfo, hopening, ← hrun, FileOpening.passCalls]
      rcases hlook with ⟨hvalid, -, hfd, hcalls⟩ | ⟨hnot, -, hcalls⟩
      · simp only [hvalid, hfd, hcalls, if_true, closeIfOpen, Option.getD_some]
        split <;> rfl
      · have hinvalid : ¬ run.info.valid = true := fun hvalid => hnot ⟨hvalid, rfl⟩
        simp only [if_neg hinvalid, hcalls]

/-- Every pass of `gm_check_files` that is made closes what it opens. -/
theorem checkFilesCalls_closedOnce (b : InfoBuffers) (files : List ScannedFile) :
    (∀ calls ∈ checkFilesCalls bnrOffsets b files, ClosedOnce calls) ↔
      ∀ s ∈ checkedFiles files, s.type = .game → ¬ StatusLost s.file := by
  induction files generalizing b with
  | nil =>
      simp only [checkFilesCalls, checkedFiles, List.takeWhile_nil, List.not_mem_nil,
        false_imp_iff, implies_true]
  | cons s rest ih =>
      by_cases hstop : s.stop = true
      · simp only [checkFilesCalls, checkedFiles, hstop, List.takeWhile_cons, Bool.not_true,
          Bool.false_eq_true, if_true, if_false, List.not_mem_nil, false_imp_iff,
          implies_true]
      · rw [checkedFiles] at ih ⊢
        rw [checkFilesCalls, if_neg hstop, List.takeWhile_cons,
          if_pos (by rw [Bool.not_eq_true'] at *; exact Bool.eq_false_of_not_eq_true hstop),
          List.forall_mem_cons, List.forall_mem_cons, ih, checkFileCalls_closedOnce]

/-- Every pass of `gm_warm_files` that is made closes what it opens. -/
theorem warmFilesCalls_closedOnce (b : InfoBuffers) (files : List ScannedFile) :
    (∀ calls ∈ warmFilesCalls bnrOffsets b files, ClosedOnce calls) ↔
      ∀ s ∈ warmedFiles files, s.type = .game → ¬ StatusLost s.file := by
  induction files generalizing b with
  | nil =>
      simp only [warmFilesCalls, warmedFiles, List.takeWhile_nil, List.not_mem_nil,
        false_imp_iff, implies_true]
  | cons s rest ih =>
      rw [warmedFiles] at ih ⊢
      rw [warmFilesCalls, List.takeWhile_cons]
      by_cases hgame : s.type = .game
      · rw [if_neg fun h => h hgame]
        by_cases hstop : s.stop = true
        · simp only [hgame, hstop, if_true, ne_eq, not_true_eq_false, decide_false,
            Bool.not_true, Bool.or_false, Bool.false_eq_true, if_false, List.not_mem_nil,
            false_imp_iff, implies_true]
        · rw [if_neg hstop, if_pos (by simp [hstop]), List.forall_mem_cons,
            List.forall_mem_cons, ih, warmFileCalls_closedOnce]
          exact and_congr_left' ⟨fun h _ => h, fun h => h hgame⟩
      · rw [if_pos hgame, if_pos (by simp [hgame]), List.forall_mem_cons,
          List.forall_mem_cons, ih]
        exact and_congr_left' ⟨fun _ h => absurd h hgame, fun _ => closedOnce_nil⟩

/--
Descriptors are owned by one: `get_game_info` leaves a file open just for the caller
that gets it, and every pass of the two loops closes once what it opens, just when no
file that is examined is opened with its status not arriving.
-/
theorem descriptors_owned_iff (bnrOffsets : BnrOffsets) :
    (∀ (f : DeviceFile) (b : InfoBuffers) (wanted : Bool),
      (LeavesOpen (getGameInfo bnrOffsets f b wanted).calls ↔
          (getGameInfo bnrOffsets f b wanted).info.valid = true ∧ wanted = true) ↔
        ¬ StatusLost f) ∧
      (∀ (b : InfoBuffers) (files : List ScannedFile),
        (∀ calls ∈ checkFilesCalls bnrOffsets b files, ClosedOnce calls) ↔
          ∀ s ∈ checkedFiles files, s.type = .game → ¬ StatusLost s.file) ∧
      ∀ (b : InfoBuffers) (files : List ScannedFile),
        (∀ calls ∈ warmFilesCalls bnrOffsets b files, ClosedOnce calls) ↔
          ∀ s ∈ warmedFiles files, s.type = .game → ¬ StatusLost s.file := by
  refine ⟨fun f b wanted => ⟨fun hiff hlost => ?_, getGameInfo_leavesOpen⟩,
    checkFilesCalls_closedOnce, warmFilesCalls_closedOnce⟩
  obtain ⟨hvalid, fd, hcalls⟩ :=
    getGameInfo_statusLost bnrOffsets b wanted hlost
  have hopen : LeavesOpen (getGameInfo bnrOffsets f b wanted).calls := ⟨fd, by simp [hcalls]⟩
  rw [(hiff.1 hopen).1] at hvalid
  cases hvalid

/-- A file that is opened, and whose status does not arrive. -/
def lostFile : DeviceFile := ⟨.unanswered (some 5), 0, fun _ => 0, fun _ => .ok⟩

/-- The file is no game for the caller, and its descriptor stays open. -/
theorem lost_status_leaves_open :
    (getGameInfo [] lostFile ⟨fun _ => 0, fun _ => 0, fun _ => 0⟩ true).info.valid = false ∧
      (getGameInfo [] lostFile ⟨fun _ => 0, fun _ => 0, fun _ => 0⟩ true).outFd = none ∧
      LeavesOpen
        (getGameInfo [] lostFile ⟨fun _ => 0, fun _ => 0, fun _ => 0⟩ true).calls ∧
      ¬ ∀ calls ∈ checkFilesCalls [] ⟨fun _ => 0, fun _ => 0, fun _ => 0⟩
          [⟨.game, lostFile, false, .refused, false⟩], ClosedOnce calls := by
  refine ⟨rfl, rfl, ⟨5, List.mem_singleton.2 rfl, by decide⟩, fun h => ?_⟩
  exact checkFileCalls_closedOnce.1 (h _ (List.mem_cons_self ..)) rfl ⟨5, rfl⟩

/-- A call, for the files that the descriptors belong to. -/
def FileCall.apply (path : Path) (files : Nat → Option Path) : FileCall → Nat → Option Path
  | .opened fd => Function.update files fd (some path)
  | .closed fd => Function.update files fd none

/-- The open in `gm_load_banner`, as the listing of games has it. -/
def reopeningOf (o : FileOutcome) : FileOpening :=
  match o.opened with
  | some fd => .opened fd
  | none => .refused

theorem gmPlaceBanner_descriptor (m : GmState) (e aramOffset : Nat) (forceUnload : Bool) :
    (gmPlaceBanner m e aramOffset forceUnload).2.descriptor = m.descriptor := by
  simp only [gmPlaceBanner, gmGetBannerBuf]
  cases (m.setBanner e fun b => { b with state := .loading }).freeSlot with
  | none => rfl
  | some k =>
      cases forceUnload with
      | true => rfl
      | false => rfl

theorem dvdCloseIfOpen_descriptor (m : GmState) (path : Path) (openFd : Option Nat) :
    (dvdCloseIfOpen m openFd).descriptor =
      (closeIfOpen openFd).foldl (FileCall.apply path) m.descriptor := by
  cases openFd with
  | none => rfl
  | some fd => rfl

/-- A banner that is there is put into the pool with the descriptors as they are. -/
theorem gmLoadBanner_fetch (m : GmState) (e aramOffset : Nat) (forceUnload : Bool)
    (openFd : Option Nat) (o : FileOutcome) (hoffset : (m.entry e).extra.dvdBnrOffset ≠ 0) :
    (gmLoadBanner m e aramOffset forceUnload openFd o).2.descriptor =
      (gmFetchBanner m (m.entry e).path (m.entry e).extra.dvdBnrOffset openFd
        o).2.descriptor := by
  rw [gmLoadBanner, if_neg hoffset]
  obtain ⟨found, m'⟩ := gmFetchBanner m (m.entry e).path
    (m.entry e).extra.dvdBnrOffset openFd o
  cases found with
  | true => exact gmPlaceBanner_descriptor m' e aramOffset forceUnload
  | false => rfl

theorem gmFetchBanner_descriptor (m : GmState) (path : Path) (bnrOffset : Nat)
    (openFd : Option Nat) (o : FileOutcome) (hoffset : bnrOffset ≠ 0) :
    (gmFetchBanner m path bnrOffset openFd o).2.descriptor =
      (gmLoadBannerCalls bnrOffset
          (bnrCacheGet m.bnrCache (gmBnrCacheKey path) m.bannerBuffer).isSome openFd
          (reopeningOf o)).foldl (FileCall.apply path) m.descriptor := by
  unfold gmFetchBanner
  cases hget : bnrCacheGet m.bnrCache (gmBnrCacheKey path) m.bannerBuffer with
  | some bnr =>
      have hcalls : gmLoadBannerCalls bnrOffset true openFd (reopeningOf o) =
          closeIfOpen openFd := by
        simp only [gmLoadBannerCalls, if_neg hoffset, if_true]
      rw [Option.isSome_some, hcalls]
      exact dvdCloseIfOpen_descriptor { m with bannerBuffer := bnr } path openFd
  | none =>
      cases openFd with
      | some fd =>
          rw [gmLoadBannerCalls_open]
          simp only [Option.some_or, Option.isSome_some, if_true]
          rfl
      | none =>
          simp only [gmLoadBannerCalls, if_neg hoffset, Option.isSome_none,
            Bool.false_eq_true, if_false, Option.none_or, reopeningOf]
          cases o.opened with
          | some fd => rfl
          | none => rfl

/-- The descriptors after `gm_load_banner` are those after its calls. -/
theorem gmLoadBanner_descriptor (m : GmState) (e aramOffset : Nat) (forceUnload : Bool)
    (openFd : Option Nat) (o : FileOutcome) :
    (gmLoadBanner m e aramOffset forceUnload openFd o).2.descriptor =
      (gmLoadBannerCalls (m.entry e).extra.dvdBnrOffset
          (bnrCacheGet m.bnrCache (gmBnrCacheKey (m.entry e).path) m.bannerBuffer).isSome
          openFd (reopeningOf o)).foldl
        (FileCall.apply (m.entry e).path) m.descriptor := by
  by_cases hoffset : (m.entry e).extra.dvdBnrOffset = 0
  · have hcalls : gmLoadBannerCalls 0
        (bnrCacheGet m.bnrCache (gmBnrCacheKey (m.entry e).path) m.bannerBuffer).isSome
        openFd (reopeningOf o) = closeIfOpen openFd := by
      simp only [gmLoadBannerCalls, if_true]
    rw [gmLoadBanner, if_pos hoffset, hoffset, hcalls]
    exact dvdCloseIfOpen_descriptor m _ openFd
  · rw [gmLoadBanner_fetch m e aramOffset forceUnload openFd o hoffset]
    exact gmFetchBanner_descriptor m _ _ openFd o hoffset

end Disc
end Cubiboot
