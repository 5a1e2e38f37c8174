import Cubiboot.Foundations.CopyRange
import Cubiboot.Foundations.Words
import Cubiboot.Games.Listing

/-!
# Looking into a game

`get_game_info` of `dolphin_dvd.c`, with `get_banner_offset_fast` and
`get_banner_offset_slow`.  The header and the 32 bytes for the magic of the banner
are static, and the FST is read to a fixed place: what a read does not fill is
left from the file before.

The table of `bnr_offsets.c` is a parameter.  Memory is addressed as the console
addresses it; the parts that are used are `header`, `small_buf` and `ram`.

Every exit of the function has a definition of its own, with the calls for files that
were made and the buffers that were left; `lookInFile` and `lookInFst` are its two
halves.

Results: `be32_congr`, that a number depends on its four bytes.
-/

namespace Cubiboot
namespace Disc

open CopyRange Games Words

/-- What a call of `dvd_threaded_read` comes to. -/
inductive ReadOutcome where
  /-- It succeeds, with fewer bytes at the end of the file. -/
  | ok
  /-- It fails, after this many bytes at most. -/
  | failed (got : Nat)
deriving DecidableEq, Repr

/-- What `dvd_custom_open` and `dvd_custom_status` come to for a file. -/
inductive FileOpening where
  /-- `dvd_custom_open` fails, and nothing is open. -/
  | refused
  /-- There is no status; the drive may have opened the file. -/
  | unanswered (fd : Option Nat)
  /-- The result in the status is bad; the file may be open on the descriptor there. -/
  | bad (fd : Nat) (isOpen : Bool)
  /-- The file is open. -/
  | opened (fd : Nat)
deriving DecidableEq, Repr

/-- A file, and what the calls made for it come to, the reads by their number. -/
structure DeviceFile where
  opening : FileOpening
  length : Nat
  data : Nat → UInt8
  reads : Nat → ReadOutcome

/-- How many bytes read number `n` transfers. -/
def DeviceFile.transferred (f : DeviceFile) (n len offset : Nat) : Nat :=
  match f.reads n with
  | .ok => min len (f.length - offset)
  | .failed got => min got (min len (f.length - offset))

/-- `dvd_threaded_read` of `len` bytes at `offset`, to `place` in a buffer. -/
def DeviceFile.read
    (f : DeviceFile) (n : Nat) (buffer : Nat → UInt8) (place len offset : Nat) : Nat → UInt8 :=
  copyRange buffer place (f.transferred n len offset) fun i => f.data (offset + i)

/-- A number of four bytes. -/
def be32 (bytes : Nat → UInt8) (place : Nat) : Nat :=
  (bytes place).toNat * 0x1000000 + (bytes (place + 1)).toNat * 0x10000 +
    (bytes (place + 2)).toNat * 0x100 + (bytes (place + 3)).toNat

theorem be32_congr {bytes bytes' : Nat → UInt8} {place : Nat}
    (h : ∀ i < 4, bytes (place + i) = bytes' (place + i)) :
    be32 bytes place = be32 bytes' place := by
  have h₀ := h 0 (by decide)
  have h₁ := h 1 (by decide)
  have h₂ := h 2 (by decide)
  have h₃ := h 3 (by decide)
  rw [Nat.add_zero] at h₀
  simp only [be32, h₀, h₁, h₂, h₃]

/-- `sizeof(DiskHeader)`. -/
abbrev sizeofDiskHeader : Nat := 0x440

/-- `DOLOffset`. -/
def headerDolOffset (header : Nat → UInt8) : Nat := be32 header 0x420

/-- `FSTOffset`. -/
def headerFstOffset (header : Nat → UInt8) : Nat := be32 header 0x424

/-- `FSTSize`. -/
def headerFstSize (header : Nat → UInt8) : Nat := be32 header 0x428

/-- `MaxFSTSize`. -/
def headerMaxFstSize (header : Nat → UInt8) : Nat := be32 header 0x42C

/-- `bnr_offsets`: a hash of a header, and the place of the banner. -/
abbrev BnrOffsets := List (UInt32 × Nat)

/-- `get_banner_offset_fast`. -/
def getBannerOffsetFast (bnrOffsets : BnrOffsets) (header : Nat → UInt8) : Nat :=
  if headerDolOffset header = 0 then
    0
  else
    let hash := tinfCrc32 ((List.range sizeofDiskHeader).map header)
    match bnrOffsets.find? fun entry => entry.1 == hash with
    | some entry => entry.2
    | none => 0

/-- `bnr_info_t`. -/
structure BnrInfo where
  offset : Nat
  length : Nat

/-- Where the FST is read to. -/
abbrev fstScratch : Nat := 0x81700000

/-- The largest FST that is read. -/
abbrev maxFstSize : Nat := 0x100000

/-- The address of an entry of the FST. -/
def fstEntry (i : Nat) : Nat :=
  word (fstScratch + 12 * i)

/-- `filetype`: the one bit, which comes first in its byte. -/
def fstFiletype (ram : Nat → UInt8) (i : Nat) : UInt8 :=
  ram (fstEntry i) >>> 7

/-- `GET_OFFSET`. -/
def fstStringOffset (ram : Nat → UInt8) (i : Nat) : Nat :=
  (ram (fstEntry i + 1)).toNat * 0x10000 + (ram (fstEntry i + 2)).toNat * 0x100 +
    (ram (fstEntry i + 3)).toNat

/-- `strcasecmp(string, literal) == 0`, of a string in memory. -/
def strcasecmpAt (ram : Nat → UInt8) (string : Nat) : List UInt8 → Bool
  | [] => ram string == 0
  | b :: rest => toLower (ram string) == toLower b && strcasecmpAt ram (string + 1) rest

/-- `"opening.bnr"`. -/
def openingBnr : List UInt8 :=
  [0x6F, 0x70, 0x65, 0x6E, 0x69, 0x6E, 0x67, 0x2E, 0x62, 0x6E, 0x72]

/-- The loop of `get_banner_offset_slow`, from entry `i` on. -/
def findOpeningBnr (ram : Nat → UInt8) (stringTable : Nat) : Nat → Nat → BnrInfo
  | 0, _ => ⟨0, 0⟩
  | left + 1, i =>
      if fstFiletype ram i = 0 ∧
          strcasecmpAt ram (stringTable + fstStringOffset ram i) openingBnr = true then
        ⟨be32 ram (fstEntry i + 4), be32 ram (fstEntry i + 8)⟩
      else
        findOpeningBnr ram stringTable left (i + 1)

/-- `get_banner_offset_slow`, once the FST has been read. -/
def searchFst (ram : Nat → UInt8) : BnrInfo :=
  let totalEntries := be32 ram (fstEntry 0 + 8)
  let stringTable := fstEntry totalEntries
  if stringTable < 0x81700000 ∨ stringTable > 0x81800000 then
    ⟨0, 0⟩
  else
    findOpeningBnr ram stringTable (totalEntries - 1) 1

/-- `OSRoundUp32B`. -/
def osRoundUp32B (x : Nat) : Nat :=
  andNot (word (x + 31)) 31

/-- The buffers of `get_game_info`, which all files share. -/
structure InfoBuffers where
  header : Nat → UInt8
  smallBuf : Nat → UInt8
  ram : Nat → UInt8

/-- What is done with the descriptors of the drive. -/
inductive FileCall where
  | opened (fd : Nat)
  | closed (fd : Nat)
deriving DecidableEq, Repr

/-- What `get_game_info` leaves behind. -/
structure InfoRun where
  info : DolphinGameInfo
  /-- `*out_fd`, unless it is -1. -/
  outFd : Option Nat
  buffers : InfoBuffers
  calls : List FileCall

/-- `(dolphin_game_into_t) { .valid = false }`. -/
def invalidInfo : DolphinGameInfo where
  valid := false
  gameId := [0, 0, 0, 0, 0, 0]
  discNum := 0
  discVer := 0
  bnrType := 0
  bnrOffset := 0
  dolOffset := 0
  fstOffset := 0
  fstSize := 0
  maxFstSize := 0

/-- `BANNER_MAGIC_1`. -/
abbrev bannerMagic1 : Nat := 0x424E5231

/-- `BANNER_MAGIC_2`. -/
abbrev bannerMagic2 : Nat := 0x424E5232

/-- The magic of a banner has been read. -/
def IsBanner (smallBuf : Nat → UInt8) : Prop :=
  be32 smallBuf 0 = bannerMagic1 ∨ be32 smallBuf 0 = bannerMagic2

instance (smallBuf : Nat → UInt8) : Decidable (IsBanner smallBuf) :=
  inferInstanceAs (Decidable (_ ∨ _))

/-- The info of a game with a banner at `offset`. -/
def bannerInfo (header smallBuf : Nat → UInt8) (offset : Nat) : DolphinGameInfo where
  valid := true
  gameId := (List.range 6).map header
  discNum := header 6
  discVer := header 7
  bnrType := if be32 smallBuf 0 = bannerMagic2 then 1 else 0
  bnrOffset := offset
  dolOffset := headerDolOffset header
  fstOffset := headerFstOffset header
  fstSize := headerFstSize header
  maxFstSize := headerMaxFstSize header

/-- A valid game: the open file goes to the caller if it asked for it. -/
def validExit (b : InfoBuffers) (fd offset : Nat) (wanted : Bool) : InfoRun :=
  if wanted then
    ⟨bannerInfo b.header b.smallBuf offset, some fd, b, []⟩
  else
    ⟨bannerInfo b.header b.smallBuf offset, none, b, [.closed fd]⟩

/-- No game: the file is closed. -/
def invalidExit (b : InfoBuffers) (fd : Nat) : InfoRun :=
  ⟨invalidInfo, none, b, [.closed fd]⟩

/-- The read of the banner at `offset` to `small_buf`. -/
def probeBanner (f : DeviceFile) (n : Nat) (b : InfoBuffers) (offset : Nat) : InfoBuffers :=
  { b with smallBuf := f.read n b.smallBuf 0 32 offset }

/-- The read of the FST. -/
def readFst (f : DeviceFile) (n : Nat) (b : InfoBuffers) : InfoBuffers :=
  { b with
    ram := f.read n b.ram fstScratch (osRoundUp32B (headerFstSize b.header))
      (headerFstOffset b.header) }

/-- `get_game_info` from the check of the size of the FST on. -/
def lookInFst
    (f : DeviceFile) (n : Nat) (b : InfoBuffers) (fd : Nat) (wanted : Bool) : InfoRun :=
  if headerFstSize b.header > maxFstSize then
    invalidExit b fd
  else
    let b := readFst f n b
    let bnrInfo := searchFst b.ram
    if bnrInfo.offset ≠ 0 then
      let b := probeBanner f (n + 1) b bnrInfo.offset
      if IsBanner b.smallBuf then
        validExit b fd bnrInfo.offset wanted
      else
        invalidExit b fd
    else
      invalidExit b fd

/-- `get_game_info`, with the file open. -/
def lookInFile
    (bnrOffsets : BnrOffsets) (f : DeviceFile) (b : InfoBuffers) (fd : Nat) (wanted : Bool) :
    InfoRun :=
  let b := { b with header := f.read 0 b.header 0 sizeofDiskHeader 0 }
  let fastBnrOffset := getBannerOffsetFast bnrOffsets b.header
  if fastBnrOffset ≠ 0 then
    let b := probeBanner f 1 b fastBnrOffset
    if IsBanner b.smallBuf then
      validExit b fd fastBnrOffset wanted
    else
      lookInFst f 2 b fd wanted
  else
    lookInFst f 1 b fd wanted

/-- `get_game_info`; `wanted` says that `out_fd` is not NULL. -/
def getGameInfo
    (bnrOffsets : BnrOffsets) (f : DeviceFile) (b : InfoBuffers) (wanted : Bool) : InfoRun :=
  match f.opening with
  | .refused => ⟨invalidInfo, none, b, []⟩
  | .unanswered none => ⟨invalidInfo, none, b, []⟩
  | .unanswered (some fd) => ⟨invalidInfo, none, b, [.opened fd]⟩
  | .bad fd isOpen =>
      ⟨invalidInfo, none, b, if isOpen then [.opened fd, .closed fd] else [.closed fd]⟩
  | .opened fd =>
      let run := lookInFile bnrOffsets f b fd wanted
      { run with calls := .opened fd :: run.calls }

/-- The buffers after some files have been examined. -/
def examine
    (bnrOffsets : BnrOffsets) (b : InfoBuffers) (files : List (DeviceFile × Bool)) :
    InfoBuffers :=
  files.foldl (fun b file => (getGameInfo bnrOffsets file.1 b file.2).buffers) b

end Disc
end Cubiboot
