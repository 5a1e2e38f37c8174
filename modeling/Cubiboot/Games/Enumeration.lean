import Cubiboot.Foundations.Regions
import Cubiboot.Games.GameList
import Mathlib.Algebra.Group.Nat.Defs

/-!
# Enumeration

`gm_load_banner`, the loop of `gm_check_files` and `gm_warm_files`.  What the
drive and `get_game_info` answer is an input: one record per file.

`dvd_threaded_read` may transfer fewer bytes than it is asked for, and says so
or not; neither function looks at its result.

Opens and closes of files are noted in the state, and so are the bytes of the banners
that have been read. `gmCheckFiles` hands out auxiliary RAM as it goes, and publishes an
entry at the end of each pass; `forceUnload` is its choice whether a banner is kept in
the pool, which is made from the line at the top of the list.
-/

namespace Cubiboot
namespace Games

open CopyRange Regions

/-- What one call of `dvd_threaded_read` does. -/
structure ThreadedRead where
  /-- It returns 0. -/
  success : Bool
  /-- Bytes transferred. -/
  got : Nat
  data : Nat → UInt8

/-- A read that succeeds and transfers a whole `BNR`. -/
def ThreadedRead.Complete (r : ThreadedRead) : Prop :=
  r.success = true ∧ sizeofBnr ≤ r.got

instance (r : ThreadedRead) : Decidable r.Complete :=
  inferInstanceAs (Decidable (_ ∧ _))

/-- `dolphin_game_into_t`. -/
structure DolphinGameInfo where
  valid : Bool
  gameId : List UInt8
  discNum : UInt8
  discVer : UInt8
  bnrType : UInt8
  bnrOffset : Nat
  dolOffset : Nat
  fstOffset : Nat
  fstSize : Nat
  maxFstSize : Nat

/-- What the calls made for one file answer. -/
structure FileOutcome where
  /-- `get_game_info`, and the descriptor it leaves open. -/
  info : DolphinGameInfo
  gameFd : Nat
  /-- The descriptor of an open in `gm_load_banner`, when it succeeds. -/
  opened : Option Nat
  /-- The read of the banner. -/
  read : ThreadedRead

/-- `dvd_custom_open` of a file, when it succeeds with this descriptor. -/
def dvdCustomOpen (s : GmState) (path : Path) (fd : Nat) : GmState :=
  { s with descriptor := Function.update s.descriptor fd (some path) }

/-- `dvd_custom_close`. -/
def dvdCustomClose (s : GmState) (fd : Nat) : GmState :=
  { s with descriptor := Function.update s.descriptor fd none }

/-- `if (fd >= 0) dvd_custom_close(fd)`. -/
def dvdCloseIfOpen (s : GmState) (fd : Option Nat) : GmState :=
  match fd with
  | some fd => dvdCustomClose s fd
  | none => s

/-- The bytes of a transfer from a file, from `offset` on. -/
def readBytes
    (path : Option Path) (offset : Nat) (r : ThreadedRead) : Nat → BnrByte :=
  fun i =>
    { value := r.data i
      origin := path.map fun p => ⟨p, offset + i, decide r.Complete⟩ }

/-- `dvd_threaded_read` of a `BNR` into `banner_buffer`. -/
def dvdThreadedRead
    (s : GmState) (offset fd : Nat) (r : ThreadedRead) : GmState :=
  { s with
    bannerBuffer :=
      copyRange s.bannerBuffer 0 (min r.got sizeofBnr)
        (readBytes (s.descriptor fd) offset r) }

/-- The part of `gm_load_banner` from the label `cached` on. -/
def gmPlaceBanner
    (s : GmState) (e aramOffset : Nat) (forceUnload : Bool) : Bool × GmState :=
  let s := s.setBanner e fun b => { b with state := .loading }
  match gmGetBannerBuf s with
  | none => (false, s)
  | some (k, s) =>
      let s := s.setData k
        (copyRange (s.gmBannerPool k).data 0 bnrPixeldataLen
          (fun i => s.bannerBuffer (bnrPixelOffset + i)))
      let s := s.setBanner e fun b => { b with buf := some k }
      let s :=
        if forceUnload then
          gmBannerSetupUnload s e aramOffset
        else
          gmBannerSetup s e aramOffset
      (true, s.setDesc e (.banner fun i => s.bannerBuffer (bnrDescOffset + i)))

/--
The part of `gm_load_banner` before the label `cached`, when the entry has a
banner: it puts the banner into `banner_buffer`, from the cache or from the file.
-/
def gmFetchBanner
    (s : GmState) (path : Path) (bnrOffset : Nat) (openFd : Option Nat)
    (o : FileOutcome) : Bool × GmState :=
  match bnrCacheGet s.bnrCache (gmBnrCacheKey path) s.bannerBuffer with
  | some bnr => (true, dvdCloseIfOpen { s with bannerBuffer := bnr } openFd)
  | none =>
      match openFd.or o.opened with
      | none => (false, s)
      | some fd =>
          let s := if openFd.isSome then s else dvdCustomOpen s path fd
          let s := dvdThreadedRead s bnrOffset fd o.read
          let s := dvdCustomClose s fd
          (true,
            { s with
              bnrCache :=
                bnrCachePut s.bnrCache (gmBnrCacheKey path) s.bannerBuffer })

/-- `gm_load_banner`. -/
def gmLoadBanner
    (s : GmState) (e aramOffset : Nat) (forceUnload : Bool)
    (openFd : Option Nat) (o : FileOutcome) : Bool × GmState :=
  if (s.entry e).extra.dvdBnrOffset = 0 then
    (false, dvdCloseIfOpen s openFd)
  else
    match gmFetchBanner s (s.entry e).path (s.entry e).extra.dvdBnrOffset
        openFd o with
    | (false, s) => (false, s)
    | (true, s) => gmPlaceBanner s e aramOffset forceUnload

/-- `gm_path_entry_t`. -/
structure GmPathEntry where
  path : Path
  type : GmFileType

/-- `get_game_info`: a valid result leaves the file open on `game_fd`. -/
def getGameInfo (s : GmState) (path : Path) (o : FileOutcome) : GmState :=
  if o.info.valid then dvdCustomOpen s path o.gameFd else s

/-- The extra info of a game. -/
def DolphinGameInfo.extra (info : DolphinGameInfo) : GmExtra where
  gameId := info.gameId
  discNum := info.discNum
  discVer := info.discVer
  dvdBnrType := info.bnrType
  dvdBnrOffset := info.bnrOffset
  dvdDolOffset := info.dolOffset
  dvdFstOffset := info.fstOffset
  dvdFstSize := info.fstSize
  dvdMaxFstSize := info.maxFstSize

/-- The number the next entry will have. -/
def GmState.nextEntry (s : GmState) : Nat :=
  s.gmReleased + s.gmEntryCount

/-- The new entry of a game, up to its banner. -/
def gmNewGame (s : GmState) (path : Path) (info : DolphinGameInfo) : GmState :=
  { s with
    entry := Function.update s.entry s.nextEntry
      { GmFileEntry.zero with
        path := path
        type := .game
        extra := info.extra } }

/-- The characters after the last slash of a path. -/
def basename (path : Path) : Path :=
  (path.reverse.takeWhile (· ≠ 0x2F)).reverse

/-- The new entry of a program or a directory. -/
def gmNewOther (s : GmState) (entry : GmPathEntry) : GmState :=
  { s with
    entry := Function.update s.entry s.nextEntry
      { GmFileEntry.zero with
        path := entry.path
        type := entry.type
        desc := .other (basename entry.path)
          (if entry.type = .program then "Homebrew Program" else "Directory")
        useBanner := false } }

/-- `use_banner`, and the heap pointer with its count. -/
def gmPublish (s : GmState) (useBanner : Bool) : GmState :=
  { s with
    entry := Function.update s.entry s.nextEntry
      { s.entry s.nextEntry with useBanner := useBanner }
    gmEntryCount := s.gmEntryCount + 1 }

/-- The variables of `gm_check_files`, with the ranges it has handed out. -/
structure CheckState where
  gm : GmState
  aramOffset : Nat
  handed : List Region

/-- A file of the listing, with what happens when its turn comes. -/
structure ListedFile where
  path : GmPathEntry
  outcome : FileOutcome
  /-- The mutex could not be taken: the user is leaving. -/
  stop : Bool
  /-- `top_line_num` at that moment. -/
  topLineNum : Nat

/-- `ASSETS_INITIAL_COUNT`. -/
abbrev assetsInitialCount : Nat := assetsPerLine * 4 + 2 * assetsPerLine

/--
`force_unload`.  The subtraction is one of unsigned words: it wraps when the
user has scrolled past the last entry.
-/
def forceUnload (s : GmState) (topLineNum : Nat) : Bool :=
  decide ((s.gmEntryCount + 2 ^ 32 - topLineNum * assetsPerLine) % 2 ^ 32 >
    assetsInitialCount)

/-- What `gm_check_files` does with a game that has valid info. -/
def gmCheckGame (c : CheckState) (f : ListedFile) : CheckState :=
  let unload := forceUnload c.gm f.topLineNum
  let s := getGameInfo c.gm f.path.path f.outcome
  let e := s.nextEntry
  let s := gmNewGame s f.path.path f.outcome.info
  let s := (gmLoadBanner s e c.aramOffset unload (some f.outcome.gameFd)
    f.outcome).2
  { gm := gmPublish s true
    aramOffset := c.aramOffset + bnrPixeldataLen + iconPixeldataLen
    handed := c.handed ++
      [⟨c.aramOffset, bnrPixeldataLen⟩,
        ⟨c.aramOffset + bnrPixeldataLen, iconPixeldataLen⟩] }

/-- What `gm_check_files` does with a program or a directory. -/
def gmCheckOther (c : CheckState) (f : ListedFile) : CheckState :=
  { gm := gmPublish (gmNewOther c.gm f.path) false
    aramOffset := c.aramOffset + iconPixeldataLen
    handed := c.handed ++ [⟨c.aramOffset, iconPixeldataLen⟩] }

/-- One pass of the loop of `gm_check_files`. -/
def gmCheckFile (c : CheckState) (f : ListedFile) : CheckState :=
  match f.path.type with
  | .game => if f.outcome.info.valid then gmCheckGame c f else c
  | .program | .directory => gmCheckOther c f
  | .unknown => c

/-- The first loop of `gm_check_files`. -/
def gmCheckFilesLoop (c : CheckState) : List ListedFile → CheckState
  | [] => c
  | f :: rest =>
      if f.stop then c else gmCheckFilesLoop (gmCheckFile c f) rest

/-- Where `gm_check_files` starts handing out auxiliary RAM. -/
def aramStart : Nat := 1 * 1024 * 1024

/-- The first loop of `gm_check_files`, from its start. -/
def gmCheckFiles (s : GmState) (listing : List ListedFile) : CheckState :=
  gmCheckFilesLoop ⟨s, aramStart, []⟩ listing

/-- One pass of the loop of `gm_warm_files`, for a game. -/
def gmWarmFile (s : GmState) (path : Path) (o : FileOutcome) : GmState :=
  if o.info.valid then
    let s := getGameInfo s path o
    if o.info.bnrOffset = 0 then
      dvdCustomClose s o.gameFd
    else
      match bnrCacheGet s.bnrCache (gmBnrCacheKey path) s.bannerBuffer with
      | some bnr => dvdCustomClose { s with bannerBuffer := bnr } o.gameFd
      | none =>
          let s := dvdThreadedRead s o.info.bnrOffset o.gameFd o.read
          let s := dvdCustomClose s o.gameFd
          { s with
            bnrCache :=
              bnrCachePut s.bnrCache (gmBnrCacheKey path) s.bannerBuffer }
  else
    s

/-- `gm_warm_files`: whether it finished, and the state it leaves. -/
def gmWarmFiles (s : GmState) : List ListedFile → Bool × GmState
  | [] => (true, s)
  | f :: rest =>
      if f.path.type ≠ .game then
        gmWarmFiles s rest
      else if f.stop then
        (false, s)
      else
        gmWarmFiles (gmWarmFile s f.path.path f.outcome) rest

/-- A released list: `gm_banner_free` of every entry in turn. -/
def gmReleaseLoop (s : GmState) : Nat → Nat → GmState
  | 0, _ => s
  | todo + 1, e => gmReleaseLoop (gmEntryFree s e) todo (e + 1)

/-- The release of the old entries in `gm_start_thread`. -/
def gmStartThread (s : GmState) : GmState :=
  { gmReleaseLoop s s.gmEntryCount s.gmReleased with
    gmReleased := s.gmReleased + s.gmEntryCount
    gmEntryCount := 0 }

/-- The game list after `gm_init_heap`. -/
def GmState.initial (bannerBuffer aram : Nat → BnrByte) : GmState where
  entry := fun _ => .zero
  gmReleased := 0
  gmEntryCount := 0
  gmBannerPool := fun _ => ⟨false, fun _ => ⟨0, none⟩⟩
  arq := []
  bannerBuffer := bannerBuffer
  bnrCache := ⟨fun _ => ⟨0, 0, false⟩, ⟨0, by decide⟩, aram⟩
  descriptor := fun _ => none

/-- An empty list over memory that no file read has written. -/
def GmState.blank : GmState :=
  .initial (fun _ => ⟨0, none⟩) fun _ => ⟨0, none⟩

end Games
end Cubiboot
