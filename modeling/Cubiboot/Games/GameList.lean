import Cubiboot.Games.BannerCache

/-!
# The game list and its assets

The entries of `games.c`, the pool of banner buffers and the functions that move
banners between the pool and auxiliary RAM.

An entry is known by the number of its allocation.  Those below `gmReleased`
have been given back to the heap, and `gm_entry_backing[i]` is entry
`gmReleased + i`.  `arq` lists the requests that have been posted and have not
completed; they complete in any order.  A request that is posted twice completes
twice here, where the queue of the SDK would be corrupted.

Icons are never set up (`gm_load_icon` is compiled out), so `gm_icon_load` and
`gm_icon_free` return at once and are left out.
-/

namespace Cubiboot
namespace Games

open CopyRange

/-- `ASSETS_PER_LINE`. -/
abbrev assetsPerLine : Nat := 8

/-- `ASSET_BUFFER_COUNT`. -/
abbrev assetBufferCount : Nat := 128

/-- The place of a buffer in `gm_banner_pool`. -/
abbrev PoolSlot := Fin assetBufferCount

/-- `gm_load_state_t`. -/
inductive GmLoadState where
  | none
  | setup
  | unloaded
  | unloading
  | loading
  | loaded
deriving DecidableEq, Repr

/-- `gm_file_type_t`. -/
inductive GmFileType where
  | unknown
  | directory
  | program
  | game
deriving DecidableEq, Repr

/-- `gm_banner_buf_t`. -/
structure GmBannerBuf where
  used : Bool
  data : Nat → BnrByte

/-- `gm_banner_t`, its request left to `arq`. -/
structure GmBanner where
  aramOffset : Nat
  scheduleFree : Bool
  state : GmLoadState
  buf : Option PoolSlot
deriving DecidableEq

/-- `gm_extra_t`. -/
structure GmExtra where
  gameId : List UInt8
  discNum : UInt8
  discVer : UInt8
  dvdBnrType : UInt8
  dvdBnrOffset : Nat
  dvdDolOffset : Nat
  dvdFstOffset : Nat
  dvdFstSize : Nat
  dvdMaxFstSize : Nat

/-- What `desc` has been filled with. -/
inductive GmDesc where
  | blank
  | banner (desc : Nat → BnrByte)
  | other (fullGameName : Path) (description : String)

/-- `gm_file_entry_t`. -/
structure GmFileEntry where
  path : Path
  desc : GmDesc
  extra : GmExtra
  useBanner : Bool
  banner : GmBanner
  type : GmFileType

/-- A cleared `gm_banner_t`. -/
def GmBanner.zero : GmBanner where
  aramOffset := 0
  scheduleFree := false
  state := .none
  buf := none

/-- A cleared `gm_extra_t`. -/
def GmExtra.zero : GmExtra where
  gameId := [0, 0, 0, 0, 0, 0]
  discNum := 0
  discVer := 0
  dvdBnrType := 0
  dvdBnrOffset := 0
  dvdDolOffset := 0
  dvdFstOffset := 0
  dvdFstSize := 0
  dvdMaxFstSize := 0

/-- A cleared `gm_file_entry_t`. -/
def GmFileEntry.zero : GmFileEntry where
  path := []
  desc := .blank
  extra := .zero
  useBanner := false
  banner := .zero
  type := .unknown

/-- The callbacks `arq_banner_callback_setup`, `_unload` and `_load`. -/
inductive ArqCallback where
  | setup
  | unload
  | load
deriving DecidableEq, Repr

/-- A request posted for the banner of an entry. -/
structure ArqPost where
  entry : Nat
  callback : ArqCallback
  buf : Option PoolSlot
  aramOffset : Nat
deriving DecidableEq

/-- The variables of `games.c` and what they live on. -/
structure GmState where
  entry : Nat → GmFileEntry
  gmReleased : Nat
  gmEntryCount : Nat
  gmBannerPool : PoolSlot → GmBannerBuf
  arq : List ArqPost
  bannerBuffer : Nat → BnrByte
  bnrCache : BnrCache
  /-- The file each open descriptor belongs to. -/
  descriptor : Nat → Option Path

/-- Change the banner of an entry. -/
def GmState.setBanner
    (s : GmState) (e : Nat) (f : GmBanner → GmBanner) : GmState :=
  { s with
    entry := Function.update s.entry e
      { s.entry e with banner := f (s.entry e).banner } }

/-- Fill the description of an entry. -/
def GmState.setDesc (s : GmState) (e : Nat) (desc : GmDesc) : GmState :=
  { s with
    entry := Function.update s.entry e { s.entry e with desc := desc } }

/-- The banner of an entry. -/
def GmState.banner (s : GmState) (e : Nat) : GmBanner :=
  (s.entry e).banner

/-- Mark a buffer of the pool. -/
def GmState.setUsed (s : GmState) (k : PoolSlot) (used : Bool) : GmState :=
  { s with
    gmBannerPool := Function.update s.gmBannerPool k
      { s.gmBannerPool k with used := used } }

/-- Fill a buffer of the pool. -/
def GmState.setData
    (s : GmState) (k : PoolSlot) (data : Nat → BnrByte) : GmState :=
  { s with
    gmBannerPool := Function.update s.gmBannerPool k
      { s.gmBannerPool k with data := data } }

/-- `dolphin_ARQPostRequest`. -/
def GmState.post (s : GmState) (p : ArqPost) : GmState :=
  { s with arq := s.arq ++ [p] }

/-- The first free buffer of the pool. -/
def GmState.freeSlot (s : GmState) : Option PoolSlot :=
  (List.finRange assetBufferCount).find? fun k => !(s.gmBannerPool k).used

/-- `gm_get_banner_buf`. -/
def gmGetBannerBuf (s : GmState) : Option (PoolSlot × GmState) :=
  s.freeSlot.map fun k => (k, s.setUsed k true)

/-- `gm_free_banner_buf`. -/
def gmFreeBannerBuf (s : GmState) (buf : Option PoolSlot) : GmState :=
  match buf with
  | none => s
  | some k => s.setUsed k false

/-- `arq_banner_callback_setup`. -/
def arqBannerCallbackSetup (s : GmState) (e : Nat) : GmState :=
  s.setBanner e fun b => { b with state := .loaded }

/-- `arq_banner_callback_unload`. -/
def arqBannerCallbackUnload (s : GmState) (e : Nat) : GmState :=
  gmFreeBannerBuf (s.setBanner e fun b => { b with state := .unloaded })
    (s.banner e).buf

/-- `arq_banner_callback_load`. -/
def arqBannerCallbackLoad (s : GmState) (e : Nat) : GmState :=
  s.setBanner e fun b => { b with state := .loaded }

/-- `gm_banner_setup`. -/
def gmBannerSetup (s : GmState) (e aramOffset : Nat) : GmState :=
  let s := s.setBanner e fun b => { b with aramOffset := aramOffset, state := .setup }
  s.post ⟨e, .setup, (s.banner e).buf, aramOffset⟩

/-- `gm_banner_setup_unload`. -/
def gmBannerSetupUnload (s : GmState) (e aramOffset : Nat) : GmState :=
  let s := s.setBanner e fun b =>
    { b with aramOffset := aramOffset, state := .unloading }
  s.post ⟨e, .unload, (s.banner e).buf, aramOffset⟩

/-- `gm_banner_load`. -/
def gmBannerLoad (s : GmState) (e : Nat) : GmState :=
  if (s.banner e).state = .none ∨ (s.banner e).state = .loaded then
    s
  else
    let s := s.setBanner e fun b => { b with state := .loading }
    match gmGetBannerBuf s with
    | none => s
    | some (k, s) =>
        let s := s.setBanner e fun b => { b with buf := some k }
        s.post ⟨e, .load, some k, (s.banner e).aramOffset⟩

/-- `gm_banner_free`. -/
def gmBannerFree (s : GmState) (e : Nat) : GmState :=
  if (s.banner e).state = .none ∨ (s.banner e).state = .unloading then
    s
  else if (s.banner e).state = .loading ∨ (s.banner e).state = .setup then
    s.setBanner e fun b => { b with scheduleFree := true }
  else
    let s := s.setBanner e fun b => { b with state := .unloading }
    let s := gmFreeBannerBuf s (s.banner e).buf
    s.setBanner e fun b => { b with buf := none, state := .unloaded }

/-- The transfer of a request. -/
def arqTransfer (s : GmState) (p : ArqPost) : GmState :=
  match p.buf with
  | none => s
  | some k =>
      match p.callback with
      | .setup | .unload =>
          { s with
            bnrCache :=
              { s.bnrCache with
                aram := copyRange s.bnrCache.aram p.aramOffset bnrPixeldataLen
                  (s.gmBannerPool k).data } }
      | .load =>
          s.setData k
            (copyRange (s.gmBannerPool k).data 0 bnrPixeldataLen
              (fun i => s.bnrCache.aram (p.aramOffset + i)))

/-- The callback of a request. -/
def arqCallback (s : GmState) (p : ArqPost) : GmState :=
  match p.callback with
  | .setup => arqBannerCallbackSetup s p.entry
  | .unload => arqBannerCallbackUnload s p.entry
  | .load => arqBannerCallbackLoad s p.entry

/-- Completion of request number `i` of those in flight. -/
def arqComplete (s : GmState) (i : Nat) : GmState :=
  match s.arq[i]? with
  | none => s
  | some p => arqCallback (arqTransfer { s with arq := s.arq.eraseIdx i } p) p

/-- One pass of the loop of `gm_line_load`. -/
def gmEntryLoad (s : GmState) (e : Nat) : GmState :=
  if (s.entry e).type = .game then gmBannerLoad s e else s

/-- One pass of the loop of `gm_line_free`. -/
def gmEntryFree (s : GmState) (e : Nat) : GmState :=
  if (s.entry e).type = .game then gmBannerFree s e else s

/-- The loop of both functions over the entries of a line from column `i` on. -/
def gmLineLoop
    (f : GmState → Nat → GmState) (lineNum : Nat) :
    Nat → Nat → GmState → GmState
  | 0, _, s => s
  | todo + 1, i, s =>
      if lineNum * assetsPerLine + i ≥ s.gmEntryCount then
        s
      else
        gmLineLoop f lineNum todo (i + 1)
          (f s (s.gmReleased + (lineNum * assetsPerLine + i)))

/-- `gm_line_load`. -/
def gmLineLoad (s : GmState) (lineNum : Nat) : GmState :=
  gmLineLoop gmEntryLoad lineNum assetsPerLine 0 s

/-- `gm_line_free`. -/
def gmLineFree (s : GmState) (lineNum : Nat) : GmState :=
  gmLineLoop gmEntryFree lineNum assetsPerLine 0 s

end Games
end Cubiboot
