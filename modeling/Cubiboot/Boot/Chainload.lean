import Cubiboot.Boot.Dol
import Cubiboot.Boot.Iso9660
import Cubiboot.Foundations.Words
import Cubiboot.Games.Listing

/-!
# Starting a game

`chainload_swiss_game` of `loader.c` and `chainload_boot_game` of `boot.c`.
`run` does not return: nothing is done after it.

The pictures, the low memory and the arguments for Swiss are left out, but for
where the argument structures are written.

The two functions make lists of events, as those of `Boot.Dol` do, and what a call of
theirs comes to is a field of `SwissCalls` or `BootCalls`. The order of the reads, what
is opened again and which offset a DOL is loaded from are those of the source; so are
the two places that are computed from the header of the disc, `fstAddr` and `bi2Addr`,
in words. What the events amount to is in `Boot.Handoff` and in `Boot.TableLayout`.
-/

namespace Cubiboot
namespace Boot

open Games Words

/-- A string of the source. -/
def cString (s : String) : Path :=
  s.toList.map fun c => UInt8.ofNat c.toNat

/-- The name of a file, without its directories. -/
def fileName (path : Path) : Path :=
  (path.reverse.takeWhile fun b => b ≠ 0x2F ∧ b ≠ 0x5C).reverse

/-- `is_swiss`. -/
def isSwiss (gamePath : Option Path) : Bool :=
  match gamePath with
  | none => false
  | some path =>
      let filename := fileName path
      if path.length < 10 then false
      else if filename.length < 10 then false
      else if strcaseEq (filename.drop (filename.length - 4)) (cString ".dol") = false then
        false
      else
        strcaseEq (filename.take 5) (cString "swiss")

/-- `ARGV_MAGIC`. -/
abbrev argvMagic : Nat := 0x5F617267

/-- `ENVP_MAGIC`. -/
abbrev envpMagic : Nat := 0x5F656E76

/-- The bytes of a list of strings. -/
def argvLength (strings : List Path) : Nat :=
  strings.foldl (fun len s => len + (s.length + 1)) 0

/-- `setup_argv`, of the structure at `address`. -/
def setupArgv
    (strings : List Path) (buffer : Nat) (entry address magic : Nat) : BootEvent :=
  .writeArgs entry address ⟨magic, buffer, argvLength strings⟩

/-- What the calls of `chainload_swiss_game` come to. -/
structure SwissCalls where
  program : FileOpen
  programDol : DolReads
  swiss : FileOpen
  swissDol : DolReads
  apploader : FileOpen
  /-- `emu_get_device`. -/
  device : Path

/-- `autoload_arg`. -/
def autoloadArg (c : SwissCalls) (gamePath : Option Path) (passthrough : Bool) : Path :=
  if passthrough then
    cString "Autoload=dvd:/*.gcm"
  else
    cString "Autoload=" ++ c.device ++ cString ":" ++ gamePath.getD []

/-- `arg_list`. -/
def argList (c : SwissCalls) (gamePath : Option Path) (passthrough : Bool) : List Path :=
  [cString "swiss-gc.dol", autoloadArg c gamePath passthrough, cString "AutoBoot=Yes",
      cString "BS2Boot=No", cString "Prefer Clean Boot=No"] ++
    if c.apploader.fd?.isSome then [cString "IGRType=Apploader"] else []

/-- `"/swiss-gc.dol"`. -/
def swissPath : Path :=
  cString "/swiss-gc.dol"

/-- What `chainload_swiss_game` does through the entry point of Swiss. -/
def swissHandoff (c : SwissCalls) (gamePath : Option Path) (passthrough : Bool)
    (info : DolInfo) : List BootEvent :=
  let args := argList c gamePath passthrough
  let argz := word (info.maxAddr + 32)
  let envz := word (argz + argvLength args + 32)
  [setupArgv args argz info.entrypoint (word (info.entrypoint + 8)) argvMagic,
    setupArgv [cString "CUBEBOOT=1"] envz info.entrypoint (word (info.entrypoint + 40))
      envpMagic,
    .run info.entrypoint]

/-- `chainload_swiss_game`. -/
def chainloadSwissGame
    (c : SwissCalls) (gamePath : Option Path) (passthrough : Bool) : List BootEvent :=
  if isSwiss gamePath then
    let loaded := loadDolFile c.program c.programDol .program (gamePath.getD []) false
    loaded.1 ++ [.run loaded.2.entrypoint]
  else
    let loaded := loadDolFile c.swiss c.swissDol .swiss swissPath true
    loaded.1 ++ c.apploader.events .apploader (cString "/swiss/patches/apploader.img") true ++
      swissHandoff c gamePath passthrough loaded.2

/-- `gm_file_entry_t`, as far as it is used to boot. -/
structure BootEntry where
  path : Path
  /-- The path of the second disc. -/
  second : Option Path
  extra : DiskHeader

/-- What the calls of `chainload_boot_game` come to. -/
structure BootCalls where
  swiss : SwissCalls
  first : FileOpen
  second : FileOpen
  lowmemResult : Int
  diskHeaderResult : Int
  /-- `header` after the read. -/
  diskHeader : DiskHeader
  fstResult : Int
  bi2Result : Int
  /-- The game code in low memory. -/
  gameCode : Nat → UInt8
  iso : IsoReads
  dol : DolReads

/-- Where the drawing functions of Tony Hawk's Pro Skater 4 are, by region. -/
def tonyhawkOffsets (region : UInt8) : Option (Nat × Nat) :=
  if region = 0x50 then some (0x8018FCE0, 0x8018FD04)
  else if region = 0x46 then some (0x8019024C, 0x80190270)
  else if region = 0x44 then some (0x8019024C, 0x80190270)
  else if region = 0x45 then some (0x8019013C, 0x80190160)
  else none

/-- `is_tonyhawk_pro_4`. -/
def isTonyhawkPro4 (gameCode : Nat → UInt8) : Bool :=
  gameCode 0 == 0x47 && gameCode 1 == 0x54 && gameCode 2 == 0x34

/-- The end of `chainload_boot_game`: an unknown region goes no further. -/
def patchAndRun (gameCode : Nat → UInt8) (entrypoint : Nat) : List BootEvent :=
  if isTonyhawkPro4 gameCode then
    match tonyhawkOffsets (gameCode 3) with
    | none => []
    | some (peek, poke) => [.patched peek, .patched poke, .run entrypoint]
  else
    [.run entrypoint]

/-- `topAddr`. -/
abbrev topAddr : Nat := 0x81800000 - 0x200

/-- `fstAddr`. -/
def fstAddr (maxFstSize : Nat) : Nat :=
  andNot (wordSub topAddr maxFstSize) 31

/-- `bi2Addr`. -/
def bi2Addr (maxFstSize : Nat) : Nat :=
  andNot (wordSub (fstAddr maxFstSize) 0x2000) 31

/-- `dol_offset` when the DOL is loaded. -/
def dolOffset (c : BootCalls) (header : DiskHeader) : Nat :=
  if header.dolOffset = 0 then getDolIso9660 c.iso else header.dolOffset

/-- `chainload_boot_game` from the reading of the FST on. -/
def bootFromDisc (c : BootCalls) (header : DiskHeader) : List BootEvent :=
  let address := fstAddr header.maxFstSize
  let readFst :=
    BootEvent.readFst address (andNot (word (header.fstSize + 31)) 31) header.fstOffset
      c.fstResult
  if c.fstResult ≠ 0 then
    [readFst]
  else
    let readBi2 := BootEvent.readBi2 (bi2Addr header.maxFstSize) c.bi2Result
    if c.bi2Result ≠ 0 then
      [readFst, readBi2]
    else
      let loaded := loadDol c.dol (dolOffset c header) 0
      [readFst, readBi2] ++ loaded.1 ++ patchAndRun c.gameCode loaded.2.entrypoint

/-- The second disc of a game: its file is opened, or there is none. -/
def openSecond (c : BootCalls) (e : BootEntry) : List BootEvent × Option Nat :=
  match e.second with
  | none => ([], some 0)
  | some path => (c.second.events .second path false, c.second.fd?)

/-- `chainload_boot_game` of a game on storage, once it does not go to Swiss. -/
def bootFromStorage (c : BootCalls) (e : BootEntry) : List BootEvent :=
  match c.first.fd? with
  | none => c.first.events .first e.path false
  | some firstFd =>
      match openSecond c e with
      | (opened, none) => c.first.events .first e.path false ++ opened
      | (opened, some secondFd) =>
          c.first.events .first e.path false ++ opened ++
            [.defaultFd firstFd secondFd, .readLowmem c.lowmemResult] ++
            bootFromDisc c e.extra

/-- `chainload_boot_game` of the disc in the drive. -/
def bootPassthrough (c : BootCalls) : List BootEvent :=
  .readDiskHeader c.diskHeaderResult c.diskHeader :: bootFromDisc c c.diskHeader

/-- A game is left to Swiss. -/
def LeftToSwiss (forceSwissBoot passthrough emuIsNative : Bool) : Prop :=
  forceSwissBoot = true ∨ passthrough = false ∧ emuIsNative = false

instance (f p n : Bool) : Decidable (LeftToSwiss f p n) :=
  inferInstanceAs (Decidable (_ ∨ _))

/-- `chainload_boot_game`; there is an entry unless the disc in the drive is booted. -/
def chainloadBootGame
    (forceSwissBoot emuIsNative : Bool) (c : BootCalls) (bootEntry : Option BootEntry)
    (passthrough : Bool) : List BootEvent :=
  if LeftToSwiss forceSwissBoot passthrough emuIsNative then
    chainloadSwissGame c.swiss (bootEntry.map BootEntry.path) passthrough
  else
    match passthrough, bootEntry with
    | true, _ => bootPassthrough c
    | false, some e => bootFromStorage c e
    | false, none => []

end Boot
end Cubiboot
