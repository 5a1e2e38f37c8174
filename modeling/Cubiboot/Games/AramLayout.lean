import Cubiboot.Games.BannerRing
import Cubiboot.Games.Lines
import Cubiboot.Games.Listing
import Mathlib.Algebra.Ring.Nat
import Mathlib.Data.List.TakeWhile

/-!
# The layout of auxiliary RAM

`gm_check_files` hands out auxiliary RAM from 1 MiB up, and the slots of the
banner cache go down from its end.  Neither looks at the other.

The ranges handed out tile an interval that starts at 1 MiB, so they never
overlap and never leave the RAM.  They meet a valid slot of the cache as soon as
the two intervals together are larger than what lies between.

Results: `Tiling.files`, by induction on the listing, the interval that is handed out
and how long it is; `BnrCache.Filled.slot`, where the slots lie; `aram_layout_iff`, for
which listings and histories of the cache the two stay apart.
-/

namespace Cubiboot
namespace Games

open Regions

/-- The range of a slot of the cache. -/
def BnrCache.slotRegion (c : BnrCache) (i : Fin bnrCacheSize) : Region :=
  ⟨(c.entry i).aramOffset, sizeofBnr⟩

/-- What `gm_check_files` leaves: where the ranges lie that it has handed out. -/
structure AramLayout (c : CheckState) : Prop where
  disjoint : c.handed.Pairwise Region.Disjoint
  inside : ∀ r ∈ c.handed, r.stop ≤ aramSize
  clear : ∀ r ∈ c.handed, ∀ i, (c.gm.bnrCache.entry i).valid = true →
    r.Disjoint (c.gm.bnrCache.slotRegion i)

/-- The files whose turn comes before the loop is left. -/
def takenFiles (listing : List ListedFile) : List ListedFile :=
  listing.takeWhile fun f => !f.stop

/-- The auxiliary RAM a file is handed. -/
def ListedFile.aramBytes (f : ListedFile) : Nat :=
  match f.path.type with
  | .game =>
      if f.outcome.info.valid then bnrPixeldataLen + iconPixeldataLen else 0
  | .program | .directory => iconPixeldataLen
  | .unknown => 0

/-- The key under which the banner of a file is put into the cache. -/
def ListedFile.bannerKey (f : ListedFile) : Option UInt32 :=
  if f.path.type = .game ∧ f.outcome.info.valid = true ∧
      f.outcome.info.bnrOffset ≠ 0 then
    some (gmBnrCacheKey f.path.path)
  else
    none

/-- The auxiliary RAM the files of a listing are handed. -/
def aramBytes (listing : List ListedFile) : Nat :=
  ((takenFiles listing).map ListedFile.aramBytes).sum

/-- The keys of the banners of a listing. -/
def bannerKeys (listing : List ListedFile) : List UInt32 :=
  (takenFiles listing).filterMap ListedFile.bannerKey

/--
Both fit between 1 MiB and the end: the listing, and the slots that are valid
once the banners of the listing have been put.
-/
def AramFits (c : BnrCache) (listing : List ListedFile) : Prop :=
  aramStart + aramBytes listing +
      sizeofBnr * min bnrCacheSize
        (c.validCount + (c.newKeys (bannerKeys listing)).card) ≤
    aramSize

instance (c : BnrCache) (listing : List ListedFile) :
    Decidable (AramFits c listing) :=
  inferInstanceAs (Decidable (_ ≤ _))

theorem bnrPixeldataLen_eq : bnrPixeldataLen = 6144 := rfl

theorem iconPixeldataLen_eq : iconPixeldataLen = 2048 := rfl

theorem aramStart_eq : aramStart = 1048576 := rfl

theorem gmCheckFilesLoop_eq
    (c : CheckState) (listing : List ListedFile) :
    gmCheckFilesLoop c listing = (takenFiles listing).foldl gmCheckFile c := by
  induction listing generalizing c with
  | nil =>
      rfl
  | cons f rest ih =>
      by_cases hstop : f.stop = true
      · simp [gmCheckFilesLoop, takenFiles, hstop]
      · have hrest := ih (gmCheckFile c f)
        simpa [gmCheckFilesLoop, takenFiles, hstop] using hrest

/-- The ranges handed out tile the interval between the start and the offset. -/
structure Tiling (c : CheckState) : Prop where
  tiles : Tiles aramStart c.handed c.aramOffset
  pos : ∀ r ∈ c.handed, 0 < r.length

/-- One file extends the tiling by what it is handed. -/
theorem Tiling.file
    {c : CheckState} (h : Tiling c) (f : ListedFile) :
    Tiling (gmCheckFile c f) ∧
      (gmCheckFile c f).aramOffset = c.aramOffset + f.aramBytes := by
  have hbanner := bnrPixeldataLen_eq
  have hicon := iconPixeldataLen_eq
  have hother : Tiling (gmCheckOther c f) := by
    constructor
    · exact h.tiles.append ⟨rfl, rfl⟩
    · intro r hr
      rcases List.mem_append.1 hr with hr | hr
      · exact h.pos r hr
      · rw [List.mem_singleton.1 hr]
        simp only
        omega
  cases htype : f.path.type with
  | game =>
      by_cases hvalid : f.outcome.info.valid = true
      · simp only [gmCheckFile, ListedFile.aramBytes, htype, hvalid, if_true]
        refine ⟨⟨?_, ?_⟩, Nat.add_assoc ..⟩
        · exact h.tiles.append ⟨rfl, rfl, rfl⟩
        · intro r hr
          rcases List.mem_append.1 hr with hr | hr
          · exact h.pos r hr
          · simp only [List.mem_cons, List.not_mem_nil, or_false] at hr
            rcases hr with rfl | rfl <;>
            · simp only
              omega
      · simpa [gmCheckFile, ListedFile.aramBytes, htype, hvalid] using h
  | program =>
      simp only [gmCheckFile, ListedFile.aramBytes, htype]
      exact ⟨hother, rfl⟩
  | directory =>
      simp only [gmCheckFile, ListedFile.aramBytes, htype]
      exact ⟨hother, rfl⟩
  | unknown =>
      simpa [gmCheckFile, ListedFile.aramBytes, htype] using h

theorem Tiling.files
    {c : CheckState} (h : Tiling c) (files : List ListedFile) :
    Tiling (files.foldl gmCheckFile c) ∧
      (files.foldl gmCheckFile c).aramOffset =
        c.aramOffset + (files.map ListedFile.aramBytes).sum := by
  induction files generalizing c with
  | nil =>
      exact ⟨h, rfl⟩
  | cons f files ih =>
      obtain ⟨hfile, hoffset⟩ := h.file f
      obtain ⟨hfiles, hsum⟩ := ih hfile
      refine ⟨hfiles, ?_⟩
      simp only [List.foldl_cons, List.map_cons, List.sum_cons]
      omega

/-- The ranges of a listing tile an interval from 1 MiB on. -/
theorem gmCheckFiles_tiles
    (s : GmState) (listing : List ListedFile) :
    Tiling (gmCheckFiles s listing) ∧
      (gmCheckFiles s listing).aramOffset = aramStart + aramBytes listing := by
  have hstart : Tiling ⟨s, aramStart, []⟩ :=
    ⟨rfl, fun r hr => by cases hr⟩
  simp only [gmCheckFiles, gmCheckFilesLoop_eq]
  exact hstart.files _

theorem ListedFile.aramBytes_le (f : ListedFile) : f.aramBytes ≤ 8192 := by
  have hbanner := bnrPixeldataLen_eq
  have hicon := iconPixeldataLen_eq
  simp only [ListedFile.aramBytes]
  split
  · split <;> omega
  · omega
  · omega
  · omega

theorem sum_aramBytes_le
    (files : List ListedFile) :
    (files.map ListedFile.aramBytes).sum ≤ 8192 * files.length := by
  induction files with
  | nil =>
      exact Nat.le_refl 0
  | cons f files ih =>
      have hf := f.aramBytes_le
      simp only [List.map_cons, List.sum_cons, List.length_cons]
      omega

/-- A listing never takes more than the 15 MiB above the start. -/
theorem aramBytes_le
    {listing : List ListedFile} (h : Listed listing) :
    aramStart + aramBytes listing ≤ aramSize := by
  have hlen : (takenFiles listing).length ≤ maxPathEntries :=
    Nat.le_trans (List.takeWhile_sublist _).length_le h.length_le
  have hsum : aramBytes listing ≤ 8192 * (takenFiles listing).length :=
    sum_aramBytes_le _
  have hstart := aramStart_eq
  have hsize := aramSize_eq
  simp only [maxPathEntries] at hlen
  omega

/-- A banner that is found leaves the cache alone. -/
theorem gmFetchBanner_hit
    {s : GmState} {path : Path} {bnr : Nat → BnrByte}
    (hget : bnrCacheGet s.bnrCache (gmBnrCacheKey path) s.bannerBuffer = some bnr)
    (bnrOffset fd : Nat) (o : FileOutcome) :
    (gmFetchBanner s path bnrOffset (some fd) o).2.bnrCache = s.bnrCache := by
  unfold gmFetchBanner
  rw [hget]
  exact (dvdCloseIfOpen_cache _ _).1

/-- A banner that is not found is read and put. -/
theorem gmFetchBanner_miss
    {s : GmState} {path : Path}
    (hget : bnrCacheGet s.bnrCache (gmBnrCacheKey path) s.bannerBuffer = none)
    (bnrOffset fd : Nat) (o : FileOutcome) :
    (gmFetchBanner s path bnrOffset (some fd) o).2.bnrCache =
      bnrCachePut s.bnrCache (gmBnrCacheKey path)
        (dvdThreadedRead s bnrOffset fd o.read).bannerBuffer := by
  have hcache :
      (dvdCustomClose (dvdThreadedRead s bnrOffset fd o.read) fd).bnrCache =
        s.bnrCache := rfl
  have hbuffer :
      (dvdCustomClose (dvdThreadedRead s bnrOffset fd o.read) fd).bannerBuffer =
        (dvdThreadedRead s bnrOffset fd o.read).bannerBuffer := rfl
  unfold gmFetchBanner
  rw [hget]
  simp only [Option.some_or, Option.isSome_some, if_true]
  rw [hcache, hbuffer]

/-- With a descriptor at hand, fetching a banner is a put of its key. -/
theorem gmFetchBanner_put
    (s : GmState) (path : Path) (bnrOffset fd : Nat) (o : FileOutcome) :
    ∃ bnr, (gmFetchBanner s path bnrOffset (some fd) o).2.bnrCache =
      bnrCachePut s.bnrCache (gmBnrCacheKey path) bnr := by
  cases hget : bnrCacheGet s.bnrCache (gmBnrCacheKey path) s.bannerBuffer with
  | some bnr =>
      obtain ⟨i, hlook, _⟩ := Option.map_eq_some_iff.1 hget
      exact ⟨bnr, (gmFetchBanner_hit hget bnrOffset fd o).trans
        (bnrCachePut_present hlook).symm⟩
  | none =>
      exact ⟨_, gmFetchBanner_miss hget bnrOffset fd o⟩

/-- `gm_load_banner` puts the key of an entry that has a banner. -/
theorem gmLoadBanner_puts
    (s : GmState) (e aramOffset fd : Nat) (unload : Bool) (o : FileOutcome) :
    ((s.entry e).extra.dvdBnrOffset = 0 ∧
        (gmLoadBanner s e aramOffset unload (some fd) o).2.bnrCache = s.bnrCache) ∨
      ((s.entry e).extra.dvdBnrOffset ≠ 0 ∧
        ∃ bnr, (gmLoadBanner s e aramOffset unload (some fd) o).2.bnrCache =
          bnrCachePut s.bnrCache (gmBnrCacheKey (s.entry e).path) bnr) := by
  by_cases hzero : (s.entry e).extra.dvdBnrOffset = 0
  · left
    refine ⟨hzero, ?_⟩
    simp only [gmLoadBanner, hzero, if_true]
    exact (dvdCloseIfOpen_cache s (some fd)).1
  · right
    refine ⟨hzero, ?_⟩
    obtain ⟨bnr, hput⟩ := gmFetchBanner_put s (s.entry e).path
      (s.entry e).extra.dvdBnrOffset fd o
    refine ⟨bnr, ?_⟩
    simp only [gmLoadBanner, hzero, if_false]
    rw [← hput]
    generalize gmFetchBanner s (s.entry e).path
      (s.entry e).extra.dvdBnrOffset (some fd) o = r
    obtain ⟨ok, s'⟩ := r
    cases ok with
    | false => rfl
    | true => exact gmPlaceBanner_cache s' e aramOffset unload

/-- The cache after one file. -/
theorem gmCheckFile_cache
    (c : CheckState) (f : ListedFile) :
    ∃ l : List (UInt32 × (Nat → BnrByte)),
      l.map Prod.fst = f.bannerKey.toList ∧
        (gmCheckFile c f).gm.bnrCache = c.gm.bnrCache.puts l := by
  have hquiet : f.bannerKey = none →
      (gmCheckFile c f).gm.bnrCache = c.gm.bnrCache →
      ∃ l : List (UInt32 × (Nat → BnrByte)),
        l.map Prod.fst = f.bannerKey.toList ∧
          (gmCheckFile c f).gm.bnrCache = c.gm.bnrCache.puts l := by
    intro hkey hcache
    exact ⟨[], by rw [hkey]; rfl, hcache⟩
  cases htype : f.path.type with
  | program =>
      exact hquiet (by simp [ListedFile.bannerKey, htype])
        (by simp only [gmCheckFile, htype]; rfl)
  | directory =>
      exact hquiet (by simp [ListedFile.bannerKey, htype])
        (by simp only [gmCheckFile, htype]; rfl)
  | unknown =>
      exact hquiet (by simp [ListedFile.bannerKey, htype])
        (by simp only [gmCheckFile, htype])
  | game =>
      by_cases hvalid : f.outcome.info.valid = true
      · obtain ⟨hsame, hnext⟩ := getGameInfo_same c.gm f.path.path f.outcome
        obtain ⟨s, hs⟩ : ∃ s, s = gmNewGame
            (getGameInfo c.gm f.path.path f.outcome) f.path.path f.outcome.info :=
          ⟨_, rfl⟩
        have hentry := gmNewGame_entry
          (getGameInfo c.gm f.path.path f.outcome) f.path.path f.outcome.info
        rw [← hs] at hentry
        have hcache : s.bnrCache = c.gm.bnrCache := by
          rw [hs]
          simp only [gmNewGame, getGameInfo]
          split <;> rfl
        have hload := gmLoadBanner_puts s
          (getGameInfo c.gm f.path.path f.outcome).nextEntry c.aramOffset
          f.outcome.gameFd (forceUnload c.gm f.topLineNum) f.outcome
        rw [hentry, hcache] at hload
        have hresult : (gmCheckFile c f).gm.bnrCache =
            (gmLoadBanner s (getGameInfo c.gm f.path.path f.outcome).nextEntry
              c.aramOffset (forceUnload c.gm f.topLineNum)
              (some f.outcome.gameFd) f.outcome).2.bnrCache := by
          rw [hs]
          simp only [gmCheckFile, htype, hvalid, if_true]
          rfl
        rw [← hresult] at hload
        rcases hload with ⟨hzero, hkeep⟩ | ⟨hne, bnr, hput⟩
        · have hno : f.outcome.info.bnrOffset = 0 := hzero
          exact hquiet (by simp [ListedFile.bannerKey, hno]) hkeep
        · have hyes : f.outcome.info.bnrOffset ≠ 0 := hne
          refine ⟨[(gmBnrCacheKey f.path.path, bnr)], ?_, ?_⟩
          · simp [ListedFile.bannerKey, htype, hvalid, hyes]
          · simp only [hput, puts_cons, puts_nil]
      · exact hquiet (by simp [ListedFile.bannerKey, hvalid])
          (by simp [gmCheckFile, htype, hvalid])

theorem foldl_checkFile_cache
    (c : CheckState) (files : List ListedFile) :
    ∃ l : List (UInt32 × (Nat → BnrByte)),
      l.map Prod.fst = files.filterMap ListedFile.bannerKey ∧
        (files.foldl gmCheckFile c).gm.bnrCache = c.gm.bnrCache.puts l := by
  induction files generalizing c with
  | nil =>
      exact ⟨[], rfl, rfl⟩
  | cons f files ih =>
      obtain ⟨l, hkey, hfile⟩ := gmCheckFile_cache c f
      obtain ⟨l', hkeys, hfiles⟩ := ih (gmCheckFile c f)
      refine ⟨l ++ l', ?_, ?_⟩
      · rw [List.map_append, hkey, hkeys]
        cases hf : f.bannerKey <;> simp [hf]
      · rw [List.foldl_cons, hfiles, hfile, puts_append]

/-- How full the ring is after a listing. -/
theorem gmCheckFiles_filled
    {s : GmState} (hcache : s.bnrCache.Used) (listing : List ListedFile) :
    (gmCheckFiles s listing).gm.bnrCache.Filled
      (min bnrCacheSize (s.bnrCache.validCount +
        (s.bnrCache.newKeys (bannerKeys listing)).card)) := by
  obtain ⟨n, hn⟩ := hcache.filled
  obtain ⟨l, hkeys, hputs⟩ :=
    foldl_checkFile_cache ⟨s, aramStart, []⟩ (takenFiles listing)
  have hfilled := hn.puts l
  rw [hkeys] at hfilled
  simp only [gmCheckFiles, gmCheckFilesLoop_eq, hn.validCount_eq]
  rw [hputs]
  exact hfilled

/-- A valid slot begins below the end by the size of the slots up to it. -/
theorem BnrCache.Filled.slot
    {c : BnrCache} {n : Nat} (h : c.Filled n) {i : Fin bnrCacheSize}
    (hi : (c.entry i).valid = true) :
    (c.slotRegion i).offset + sizeofBnr * (i.val + 1) = aramSize := by
  have hplace := slotOffset_add_size i
  rw [← h.placed i hi] at hplace
  exact hplace

section Layout

variable {s : GmState} {listing : List ListedFile}

/-- The lowest valid slot lies above everything handed out. -/
theorem AramLayout.fits
    (hlayout : AramLayout (gmCheckFiles s listing))
    (hcache : s.bnrCache.Used) (hlisted : Listed listing) :
    AramFits s.bnrCache listing := by
  obtain ⟨⟨htiles, hpos⟩, hend⟩ := gmCheckFiles_tiles s listing
  have hfilled := gmCheckFiles_filled hcache listing
  have hmax := aramBytes_le hlisted
  have hstart := aramStart_eq
  have hsize := aramSize_eq
  have hslot := sizeofBnr_eq
  rw [hend] at htiles
  simp only [AramFits]
  generalize min bnrCacheSize (s.bnrCache.validCount +
    (s.bnrCache.newKeys (bannerKeys listing)).card) = n at hfilled ⊢
  have hn : n ≤ 1024 := hfilled.le
  rcases Nat.eq_zero_or_pos n with hzero | hposn
  · rw [hzero]
    omega
  · obtain ⟨i, hi⟩ : ∃ i : Fin bnrCacheSize, i.val = n - 1 :=
      ⟨⟨n - 1, by simp only [bnrCacheSize]; omega⟩, rfl⟩
    have hvalid := (hfilled.valid i).2 (by omega)
    have hplace := hfilled.slot hvalid
    have hbelow : aramStart ≤
        ((gmCheckFiles s listing).gm.bnrCache.slotRegion i).offset := by
      rw [hslot] at hplace
      omega
    have hlength :
        0 < ((gmCheckFiles s listing).gm.bnrCache.slotRegion i).length := by
      show 0 < sizeofBnr
      omega
    have hclear := (htiles.clear_iff hbelow hlength).1
      fun q hq => hlayout.clear q hq i hvalid
    rw [hslot] at hplace ⊢
    omega

/-- When both fit, every valid slot lies above everything handed out. -/
theorem AramFits.layout
    (hfits : AramFits s.bnrCache listing)
    (hcache : s.bnrCache.Used) (hlisted : Listed listing) :
    AramLayout (gmCheckFiles s listing) := by
  obtain ⟨⟨htiles, _⟩, hend⟩ := gmCheckFiles_tiles s listing
  have hfilled := gmCheckFiles_filled hcache listing
  have hmax := aramBytes_le hlisted
  have hslot := sizeofBnr_eq
  rw [hend] at htiles
  simp only [AramFits] at hfits
  generalize min bnrCacheSize (s.bnrCache.validCount +
    (s.bnrCache.newKeys (bannerKeys listing)).card) = n at hfilled hfits
  constructor
  · exact htiles.pairwise
  · intro r hr
    exact Nat.le_trans (htiles.inside hr).2 hmax
  · intro r hr i hvalid
    have hlt := (hfilled.valid i).1 hvalid
    have hplace := hfilled.slot hvalid
    have hin := (htiles.inside hr).2
    left
    rw [hslot] at hfits hplace
    omega

/--
The ranges handed out are disjoint, inside auxiliary RAM and clear of the cache
exactly when both fit.
-/
theorem aram_layout_iff
    (hcache : s.bnrCache.Used) (hlisted : Listed listing) :
    AramLayout (gmCheckFiles s listing) ↔ AramFits s.bnrCache listing :=
  ⟨fun h => h.fits hcache hlisted, fun h => h.layout hcache hlisted⟩

end Layout

/-- The file `g` and four digits, `.iso`. -/
def isoEntry (i : Nat) : FileEntry where
  name :=
    [0x67, UInt8.ofNat (0x30 + i / 1000), UInt8.ofNat (0x30 + i / 100 % 10),
      UInt8.ofNat (0x30 + i / 10 % 10), UInt8.ofNat (0x30 + i % 10),
      0x2E, 0x69, 0x73, 0x6F]
  type := 0
  attrib := 0

/-- What is found out about such a file: a game with a banner. -/
def isoOutcome : FileOutcome where
  info := ⟨true, [], 0, 0, 0, 0x2440, 0, 0, 0, 0⟩
  gameFd := 0
  opened := none
  read := ⟨true, sizeofBnr, fun _ => 0⟩

/-- The directory of the first `n` of these files, at the root of the card. -/
def isoListing (n : Nat) : List ListedFile :=
  (gmListFiles [0x2F] ((List.range n).map isoEntry)).map fun p =>
    ⟨p, isoOutcome, false, 0⟩

/-- One of these files in the listing. -/
def isoFile (i : Nat) : ListedFile :=
  ⟨⟨[0x2F] ++ (isoEntry i).name, .game⟩, isoOutcome, false, 0⟩

theorem isoListing_listed (n : Nat) : Listed (isoListing n) := by
  refine ⟨[0x2F], (List.range n).map isoEntry, ?_⟩
  simp only [isoListing, List.map_map]
  exact List.Perm.of_eq (List.map_id _)

theorem isoEntry_visible (i : Nat) : checkFileHidden (isoEntry i).name = false := by
  have hlengths : ∀ name ∈ hiddenFileNames, name.length ≠ 9 := by decide
  have hnames : hiddenFileNames.any (strcaseEq (isoEntry i).name) = false := by
    rw [List.any_eq_false]
    intro name hname hsame
    exact hlengths name hname (strcaseEq_length hsame).symm
  have hhead : (isoEntry i).name.head? = some 0x67 := rfl
  have hlast : (isoEntry i).name.getLast? = some 0x6F := rfl
  simp only [checkFileHidden, hhead, hlast, hnames]
  decide

theorem isoListing_eq
    {n : Nat} (hn : n ≤ maxPathEntries) :
    isoListing n = (List.range n).map isoFile := by
  have hlist : gmListFiles [0x2F] ((List.range n).map isoEntry) =
      ((List.range n).map isoEntry).map fun ent =>
        ⟨[0x2F] ++ ent.name, entryFileType ent⟩ := by
    refine gmListFilesLoop_visible _ _ ?_ ?_ (by simpa using hn)
    · intro ent hent
      obtain ⟨i, _, rfl⟩ := List.mem_map.1 hent
      simp [isoEntry]
    · intro ent hent
      obtain ⟨i, _, rfl⟩ := List.mem_map.1 hent
      have htype : entryFileType (isoEntry i) = .game := rfl
      have hattrib : (isoEntry i).attrib &&& fileAttribFlagHidden = 0 := by
        show (0 : UInt8) &&& 0x02 = 0
        decide
      simp [isoEntry_visible, htype, hattrib]
  simp only [isoListing, hlist, List.map_map]
  rfl

/-- A directory of these files is handed 8192 bytes for each. -/
theorem isoListing_bytes
    {n : Nat} (hn : n ≤ maxPathEntries) :
    takenFiles (isoListing n) = (List.range n).map isoFile ∧
      aramBytes (isoListing n) = 8192 * n := by
  have htaken : takenFiles (isoListing n) = (List.range n).map isoFile := by
    rw [isoListing_eq hn]
    refine List.takeWhile_eq_self_iff.2 fun f hf => ?_
    obtain ⟨i, _, rfl⟩ := List.mem_map.1 hf
    rfl
  have hbytes : ∀ i ∈ List.range n, (isoFile i).aramBytes = 8192 :=
    fun i _ => rfl
  refine ⟨htaken, ?_⟩
  calc
    aramBytes (isoListing n) =
        ((List.range n).map fun i => (isoFile i).aramBytes).sum := by
      simp only [aramBytes, htaken, List.map_map]
      rfl
    _ = (List.replicate n 8192).sum := by
      rw [List.map_congr_left hbytes, List.map_const', List.length_range]
    _ = 8192 * n := by
      rw [List.sum_replicate_nat, Nat.mul_comm]

theorem blank_cache_used : GmState.blank.bnrCache.Used :=
  Runs.Reachable.start ⟨fun _ => rfl, rfl⟩

/-- So many of these files that they reach the slot of the first. -/
theorem isoListing_not_fits
    {n : Nat} (hn : n ≤ maxPathEntries) (hpos : 0 < n)
    (hbig : aramSize < aramStart + 8192 * n + sizeofBnr) :
    ¬ AramFits GmState.blank.bnrCache (isoListing n) := by
  obtain ⟨htaken, hbytes⟩ := isoListing_bytes hn
  have hkeys :
      (GmState.blank.bnrCache.newKeys (bannerKeys (isoListing n))).Nonempty := by
    refine ⟨gmBnrCacheKey (isoFile 0).path.path, ?_⟩
    simp only [BnrCache.newKeys, Finset.mem_filter, List.mem_toFinset]
    constructor
    · rw [bannerKeys, htaken, List.mem_filterMap]
      exact ⟨isoFile 0, List.mem_map_of_mem (List.mem_range.2 hpos), rfl⟩
    · exact lookup_none.2 fun i hi => by cases hi
  have hcard := hkeys.card_pos
  have hslot := sizeofBnr_eq
  simp only [AramFits, hbytes, hslot, bnrCacheSize] at hbig ⊢
  omega

/--
A directory of 1920 games takes auxiliary RAM up to its very end, where the
banner of the first of them has already been put.
-/
theorem full_directory_meets_cache :
    GmState.blank.bnrCache.Used ∧ Listed (isoListing 1920) ∧
      ¬ AramLayout (gmCheckFiles .blank (isoListing 1920)) := by
  refine ⟨blank_cache_used, isoListing_listed 1920, fun hlayout => ?_⟩
  have hfits := hlayout.fits blank_cache_used (isoListing_listed 1920)
  refine isoListing_not_fits (Nat.le_refl maxPathEntries) (by decide) ?_ hfits
  decide

/-- A game, a program and a directory, at the root of the card. -/
def mixedRoot : List FileEntry :=
  [isoEntry 0, ⟨[0x61, 0x2E, 0x64, 0x6F, 0x6C], 0, 0⟩, ⟨[0x64], fileEntryTypeDir, 0⟩]

def mixedListing : List ListedFile :=
  (gmListFiles [0x2F] mixedRoot).map fun p => ⟨p, isoOutcome, false, 0⟩

/-- A cache with the banner of another game. -/
def oneBanner : BnrCache :=
  bnrCachePut GmState.blank.bnrCache (gmBnrCacheKey [0x2F]) fun _ => ⟨1, none⟩

theorem oneBanner_used : oneBanner.Used := by
  rw [oneBanner]
  exact blank_cache_used.step (.put _ _)

/-- An empty list, and this cache. -/
def oneCached : GmState :=
  { GmState.blank with bnrCache := oneBanner }

/-- The game is handed two ranges, and the others one each, clear of both banners. -/
theorem aram_layout_mixed :
    (gmCheckFiles oneCached mixedListing).handed.length = 4 ∧
      (gmCheckFiles oneCached mixedListing).gm.bnrCache.validCount = 2 ∧
      AramLayout (gmCheckFiles oneCached mixedListing) := by
  have hlisted : Listed mixedListing := by
    refine ⟨[0x2F], mixedRoot, List.Perm.of_eq ?_⟩
    simp only [mixedListing, List.map_map]
    exact List.map_id _
  have hcache : oneCached.bnrCache.Used := by
    simp only [oneCached]
    exact oneBanner_used
  have hcount : (gmCheckFiles oneCached mixedListing).gm.bnrCache.validCount = 2 := by
    decide +kernel
  have hfits : AramFits oneCached.bnrCache mixedListing := by
    decide +kernel
  exact ⟨by decide +kernel, hcount, (aram_layout_iff hcache hlisted).2 hfits⟩

end Games
end Cubiboot
