import Cubiboot.Boot.Chainload
import Cubiboot.Disc.Examined
import Cubiboot.Foundations.Regions

/-!
# Where the tables of a disc are loaded

The places that `chainload_boot_game` reads the FST and `bi2.bin` to, for a game that
`get_game_info` has found through its FST.  What is checked there is the size of the
FST; the place is computed from the largest size, which nothing is said of.

Results: `regions_fit_iff`, in words, when the two tables fit below `topAddr` without an
overlap; `chainloadBootGame_tables`, by a case for each way a game is started, that the
tables are read nowhere else; `lookInFst_sizes`, what `get_game_info` has checked; and
`found_boots_in_place_iff`, for which sizes a game that was found is started so.
-/

namespace Cubiboot
namespace Boot

open Disc Games Regions Words

/-- `extra`, as it is booted from. -/
def extraHeader (extra : GmExtra) : DiskHeader where
  dolOffset := extra.dvdDolOffset
  fstOffset := extra.dvdFstOffset
  fstSize := extra.dvdFstSize
  maxFstSize := extra.dvdMaxFstSize

/-- The place of the FST, as it is read. -/
def fstRegion (header : DiskHeader) : Region :=
  ⟨fstAddr header.maxFstSize, andNot (word (header.fstSize + 31)) 31⟩

/-- The place of `bi2.bin`. -/
def bi2Region (header : DiskHeader) : Region :=
  ⟨bi2Addr header.maxFstSize, 0x2000⟩

/-- Where the FST or `bi2.bin` is read to. -/
def BootEvent.table : BootEvent → Option Region
  | .readFst address length _ _ => some ⟨address, length⟩
  | .readBi2 address _ => some ⟨address, 0x2000⟩
  | _ => none

/-- The first address of main memory. -/
abbrev mainMemory : Nat := 0x80000000

/-- The tables are apart, and in main memory below `topAddr`. -/
structure TablesFit (events : List BootEvent) : Prop where
  apart : (events.filterMap BootEvent.table).Pairwise Region.Disjoint
  inside : ∀ r ∈ events.filterMap BootEvent.table, mainMemory ≤ r.offset ∧ r.stop ≤ topAddr

/-- A game is booted, whatever the drive answers, with its tables in their places. -/
def BootsInPlace (header : DiskHeader) : Prop :=
  ∀ (forceSwissBoot emuIsNative : Bool) (c : BootCalls) (path : Path) (second : Option Path),
    TablesFit (chainloadBootGame forceSwissBoot emuIsNative c (some ⟨path, second, header⟩) false)

/-- `get_game_info` finds a game, and not through the table of known banners. -/
structure TakenByFst
    (bnrOffsets : BnrOffsets) (f : DeviceFile) (b : InfoBuffers) (wanted : Bool) : Prop where
  valid : (getGameInfo bnrOffsets f b wanted).info.valid = true
  slow : ∀ fast, fast = getBannerOffsetFast bnrOffsets (headerRead f b).header →
    fast ≠ 0 → ¬ IsBanner (probeBanner f 1 (headerRead f b) fast).smallBuf

/--
The largest size has room for the FST, both rounded up to 32, and leaves room for
`bi2.bin`.  A largest size that is rounded up to 0 has room for no FST at all.
-/
def SizesFit (header : DiskHeader) : Prop :=
  header.fstSize ≤ (header.maxFstSize + 31) / 32 * 32 ∧ header.maxFstSize ≤ 0x17FDE00 ∨
    header.fstSize = 0 ∧ 0xFFFFFFE1 ≤ header.maxFstSize

variable {c : BootCalls} {header : DiskHeader}

theorem topAddr_eq : topAddr = 0x817FFE00 := rfl

theorem roundUp_fst (h : header.fstSize ≤ maxFstSize) :
    (fstRegion header).length = (header.fstSize + 31) / 32 * 32 := by
  simp only [maxFstSize] at h
  have hround := andNot_pred_pow (x := word (header.fstSize + 31)) (k := 5) (by decide) word_lt
  rw [word_of_lt (by omega)] at hround
  rw [fstRegion, word_of_lt (by omega)]
  exact hround

theorem fstAddr_eq (h : header.maxFstSize < 0x100000000) :
    fstAddr header.maxFstSize =
      (if header.maxFstSize ≤ topAddr then topAddr - header.maxFstSize
        else 0x100000000 + topAddr - header.maxFstSize) / 32 * 32 := by
  have hround := andNot_pred_pow (x := wordSub topAddr header.maxFstSize) (k := 5) (by decide)
    word_lt
  have hsub : wordSub topAddr header.maxFstSize =
      if header.maxFstSize ≤ topAddr then topAddr - header.maxFstSize
        else 0x100000000 + topAddr - header.maxFstSize := by
    rw [wordSub, word, topAddr_eq]
    split <;> omega
  rw [← hsub]
  exact hround

theorem bi2Addr_eq (h : 0x2000 ≤ fstAddr header.maxFstSize)
    (hlt : fstAddr header.maxFstSize < 0x100000000) :
    bi2Addr header.maxFstSize = (fstAddr header.maxFstSize - 0x2000) / 32 * 32 := by
  have hround := andNot_pred_pow (x := wordSub (fstAddr header.maxFstSize) 0x2000) (k := 5)
    (by decide) word_lt
  rw [wordSub_of_le h hlt] at hround
  rw [bi2Addr, wordSub_of_le h hlt]
  exact hround

/-- When both tables are in main memory, and apart. -/
theorem regions_fit_iff (hsize : header.fstSize ≤ maxFstSize)
    (hmax : header.maxFstSize < 0x100000000) :
    ((fstRegion header).Disjoint (bi2Region header) ∧
      (mainMemory ≤ (fstRegion header).offset ∧ (fstRegion header).stop ≤ topAddr) ∧
      mainMemory ≤ (bi2Region header).offset ∧ (bi2Region header).stop ≤ topAddr) ↔
      SizesFit header := by
  have hlength := roundUp_fst hsize
  have haddr := fstAddr_eq hmax
  have hoffset : (fstRegion header).offset = fstAddr header.maxFstSize := rfl
  have hbi2 : (bi2Region header).offset = bi2Addr header.maxFstSize := rfl
  have hbi2Length : (bi2Region header).length = 0x2000 := rfl
  simp only [Region.Disjoint, Region.stop, hlength, hoffset, hbi2, hbi2Length, SizesFit]
  simp only [mainMemory, maxFstSize, topAddr_eq] at hsize haddr ⊢
  have hlt : fstAddr header.maxFstSize < 0x100000000 := by
    rw [haddr]
    split <;> omega
  by_cases hroom : 0x2000 ≤ fstAddr header.maxFstSize
  · rw [bi2Addr_eq hroom hlt]
    split at haddr <;> omega
  · split at haddr <;> omega

theorem loadDol_tables (r : DolReads) (offset fd : Nat) :
    (loadDol r offset fd).1.filterMap BootEvent.table = [] := by
  rw [List.filterMap_eq_nil_iff]
  intro ev hev
  rcases mem_loadDol.1 hev with rfl | ⟨_, rfl⟩ | ⟨i, s, _, _, rfl⟩ <;> rfl

theorem patchAndRun_tables (gameCode : Nat → UInt8) (entrypoint : Nat) :
    (patchAndRun gameCode entrypoint).filterMap BootEvent.table = [] := by
  rw [patchAndRun]
  split
  · split <;> rfl
  · rfl

theorem fileOpen_tables (o : FileOpen) (file : BootFile) (path : Path) (flash : Bool) :
    (o.events file path flash).filterMap BootEvent.table = [] :=
  rfl

theorem loadDolFile_tables
    (o : FileOpen) (r : DolReads) (file : BootFile) (path : Path) (flash : Bool) :
    (loadDolFile o r file path flash).1.filterMap BootEvent.table = [] := by
  rw [loadDolFile]
  split
  · rfl
  · simp only [List.filterMap_append, fileOpen_tables, loadDol_tables]
    rfl

/-- Swiss is started without a table being read. -/
theorem chainloadSwissGame_tables
    (c : SwissCalls) (gamePath : Option Path) (passthrough : Bool) :
    (chainloadSwissGame c gamePath passthrough).filterMap BootEvent.table = [] := by
  rw [chainloadSwissGame]
  split
  · simp only [List.filterMap_append, loadDolFile_tables]
    rfl
  · simp only [List.filterMap_append, loadDolFile_tables, fileOpen_tables]
    rfl

/-- The tables that are read from a disc: the second one if the first can be read. -/
theorem bootFromDisc_tables (c : BootCalls) (header : DiskHeader) :
    (bootFromDisc c header).filterMap BootEvent.table =
      if c.fstResult ≠ 0 then [fstRegion header] else [fstRegion header, bi2Region header] := by
  simp only [bootFromDisc]
  split
  · rfl
  · split
    · rfl
    · simp only [List.filterMap_append, loadDol_tables, patchAndRun_tables, List.append_nil]
      rfl

theorem openSecond_tables (c : BootCalls) (e : BootEntry) :
    (openSecond c e).1.filterMap BootEvent.table = [] := by
  rw [openSecond]
  split <;> rfl

/-- A game on storage has no tables read, or those of its disc. -/
theorem chainloadBootGame_tables (forceSwissBoot emuIsNative : Bool) (c : BootCalls)
    (e : BootEntry) :
    (chainloadBootGame forceSwissBoot emuIsNative c (some e) false).filterMap BootEvent.table = [] ∨
      (chainloadBootGame forceSwissBoot emuIsNative c (some e) false).filterMap BootEvent.table =
        (bootFromDisc c e.extra).filterMap BootEvent.table := by
  rw [chainloadBootGame]
  split
  · exact Or.inl (chainloadSwissGame_tables _ _ _)
  · simp only [bootFromStorage]
    split
    · exact Or.inl rfl
    · have hsecond := openSecond_tables c e
      split
      · rename_i opened heq
        rw [heq] at hsecond
        rw [List.filterMap_append, hsecond]
        exact Or.inl rfl
      · rename_i opened secondFd heq
        rw [heq] at hsecond
        rw [List.filterMap_append, List.filterMap_append, List.filterMap_append, hsecond]
        exact Or.inr rfl

/-- A DOL of no sections, in a drive that reads it. -/
def sectionlessDol : DolReads where
  headerResult := 0
  header := ⟨fun _ => ⟨0, 0, 0⟩, fun _ => ⟨0, 0, 0⟩, 0, 0, 0⟩
  sectionResult := fun _ => 0
  sectionData := fun _ _ => 0

/-- A file that is there. -/
def fileThere : FileOpen :=
  ⟨0, some ⟨0, 0⟩⟩

/-- A drive that reads what it is asked for. -/
def readableDrive : BootCalls where
  swiss := ⟨fileThere, sectionlessDol, fileThere, sectionlessDol, fileThere, []⟩
  first := fileThere
  second := fileThere
  lowmemResult := 0
  diskHeaderResult := 0
  diskHeader := ⟨0, 0, 0, 0⟩
  fstResult := 0
  bi2Result := 0
  gameCode := fun _ => 0
  iso := ⟨0, fun _ => 0, fun _ => 0, fun _ _ => 0, 0, fun _ => 0⟩
  dol := sectionlessDol

/-- A drive that reads everything has both tables of a game read. -/
theorem readableDrive_tables (header : DiskHeader) :
    (chainloadBootGame false true readableDrive (some ⟨[], none, header⟩) false).filterMap
        BootEvent.table =
      [fstRegion header, bi2Region header] := by
  have hboot : chainloadBootGame false true readableDrive (some ⟨[], none, header⟩) false =
      readableDrive.first.events .first [] false ++ [] ++
        [.defaultFd 0 0, .readLowmem readableDrive.lowmemResult] ++
        bootFromDisc readableDrive header :=
    rfl
  rw [hboot, List.filterMap_append, bootFromDisc_tables]
  rfl

/-- A game has its tables in their places, whatever happens, when its sizes fit. -/
theorem bootsInPlace_iff (hsize : header.fstSize ≤ maxFstSize)
    (hmax : header.maxFstSize < 0x100000000) :
    BootsInPlace header ↔ SizesFit header := by
  rw [← regions_fit_iff hsize hmax]
  constructor
  · intro h
    obtain ⟨hapart, hinside⟩ := h false true readableDrive [] none
    rw [readableDrive_tables] at hapart hinside
    exact ⟨List.rel_of_pairwise_cons hapart (List.mem_singleton_self _),
      hinside _ List.mem_cons_self, hinside _ (List.mem_cons_of_mem _ (List.mem_singleton_self _))⟩
  · rintro ⟨hapart, hfst, hbi2⟩ forceSwissBoot emuIsNative c path second
    have htables := chainloadBootGame_tables forceSwissBoot emuIsNative c ⟨path, second, header⟩
    rw [bootFromDisc_tables] at htables
    constructor
    · rcases htables with hnone | hboth
      · rw [hnone]
        exact List.Pairwise.nil
      · rw [hboth]
        split
        · exact List.pairwise_singleton _ _
        · exact List.pairwise_pair.2 hapart
    · intro r hr
      rcases htables with hnone | hboth
      · rw [hnone] at hr
        cases hr
      · rw [hboth] at hr
        have hone : r = fstRegion header ∨ r = bi2Region header := by
          split at hr
          · exact Or.inl (List.mem_singleton.1 hr)
          · simpa using hr
        rcases hone with rfl | rfl
        · exact hfst
        · exact hbi2

/-- The header that a game is booted with. -/
def infoHeader (info : DolphinGameInfo) : DiskHeader :=
  extraHeader info.extra

@[simp] theorem infoHeader_fstSize (info : DolphinGameInfo) :
    (infoHeader info).fstSize = info.fstSize :=
  rfl

@[simp] theorem infoHeader_maxFstSize (info : DolphinGameInfo) :
    (infoHeader info).maxFstSize = info.maxFstSize :=
  rfl

section Found

variable {bnrOffsets : BnrOffsets} {f : DeviceFile} {b : InfoBuffers} {fd n : Nat} {wanted : Bool}

theorem be32_lt (bytes : Nat → UInt8) (place : Nat) : be32 bytes place < 0x100000000 := by
  have h₀ := (bytes place).toNat_lt
  have h₁ := (bytes (place + 1)).toNat_lt
  have h₂ := (bytes (place + 2)).toNat_lt
  have h₃ := (bytes (place + 3)).toNat_lt
  rw [be32]
  omega

/-- What `get_game_info` checks of the sizes in a header, when it finds a game. -/
theorem lookInFst_sizes (h : (lookInFst f n b fd wanted).info.valid = true) :
    (lookInFst f n b fd wanted).info.fstSize ≤ maxFstSize ∧
      (lookInFst f n b fd wanted).info.maxFstSize < 0x100000000 := by
  have hexit : ∀ b : InfoBuffers, (invalidExit b fd).info.valid = false := fun _ => rfl
  have hvalid : ∀ (b : InfoBuffers) (offset : Nat),
      (validExit b fd offset wanted).info = bannerInfo b.header b.smallBuf offset := by
    intro b offset
    rw [validExit]
    split <;> rfl
  simp only [lookInFst] at h ⊢
  split at h
  · rw [hexit] at h
    cases h
  · rename_i hsize
    rw [if_neg hsize]
    split at h
    · rename_i hoffset
      rw [if_pos hoffset]
      split at h
      · rename_i hbanner
        rw [if_pos hbanner, hvalid]
        exact ⟨Nat.le_of_not_lt hsize, be32_lt _ _⟩
      · rw [hexit] at h
        cases h
    · rw [hexit] at h
      cases h

/-- A game that is found so has been looked for in the FST. -/
theorem TakenByFst.lookInFst (h : TakenByFst bnrOffsets f b wanted) :
    ∃ n b' fd, (getGameInfo bnrOffsets f b wanted).info = (lookInFst f n b' fd wanted).info := by
  have hvalid := h.valid
  cases hopening : f.opening with
  | opened fd =>
      have hinfo : (getGameInfo bnrOffsets f b wanted).info =
          (lookInFile bnrOffsets f b fd wanted).info :=
        (getGameInfo_opened hopening).2
      obtain ⟨header, hheader⟩ : ∃ header, header = f.read 0 b.header 0 sizeofDiskHeader 0 :=
        ⟨_, rfl⟩
      have hslow := h.slow
      rw [hinfo]
      simp only [lookInFile, headerRead, ← hheader] at hslow ⊢
      split
      · rename_i hfast
        rw [if_neg (hslow _ rfl hfast)]
        exact ⟨_, _, _, rfl⟩
      · exact ⟨_, _, _, rfl⟩
  | refused =>
      rw [(getGameInfo_not_opened (by simp [hopening])).2] at hvalid
      cases hvalid
  | unanswered fd =>
      rw [(getGameInfo_not_opened (by simp [hopening])).2] at hvalid
      cases hvalid
  | bad fd isOpen =>
      rw [(getGameInfo_not_opened (by simp [hopening])).2] at hvalid
      cases hvalid

/--
A game that is found through its FST is booted with its tables in their places just
when the largest size of its FST has room for it, and memory for both.
-/
theorem found_boots_in_place_iff (bnrOffsets : BnrOffsets) (f : DeviceFile) (b : InfoBuffers)
    (wanted : Bool) (h : TakenByFst bnrOffsets f b wanted) :
    BootsInPlace (infoHeader (getGameInfo bnrOffsets f b wanted).info) ↔
      SizesFit (infoHeader (getGameInfo bnrOffsets f b wanted).info) := by
  obtain ⟨n, b', fd, hinfo⟩ := h.lookInFst
  have hvalid := h.valid
  rw [hinfo] at hvalid ⊢
  obtain ⟨hsize, hmax⟩ := lookInFst_sizes hvalid
  rw [← infoHeader_fstSize] at hsize
  rw [← infoHeader_maxFstSize] at hmax
  exact bootsInPlace_iff hsize hmax

/-- A game whose FST has 64 bytes, and by its header 0 at most. -/
theorem gameBefore_taken : TakenByFst [] gameBefore clearedBuffers true where
  valid := by decide +kernel
  slow := by
    have hfast : getBannerOffsetFast [] (headerRead gameBefore clearedBuffers).header = 0 := by
      decide +kernel
    intro fast heq hne
    exact absurd (heq.trans hfast) hne

/-- The same game, with room for these 64 bytes by its header. -/
def roomyGame : DeviceFile :=
  { gameBefore with data := fun i => if i = 0x42F then 0x40 else gameBefore.data i }

theorem roomyGame_taken : TakenByFst [] roomyGame clearedBuffers true where
  valid := by decide +kernel
  slow := by
    have hfast : getBannerOffsetFast [] (headerRead roomyGame clearedBuffers).header = 0 := by
      decide +kernel
    intro fast heq hne
    exact absurd (heq.trans hfast) hne

theorem found_boots_in_place_game :
    BootsInPlace (infoHeader (getGameInfo [] roomyGame clearedBuffers true).info) :=
  (found_boots_in_place_iff [] roomyGame clearedBuffers true roomyGame_taken).2
    (Or.inl (by decide +kernel))

/-- The FST of a game is read past `topAddr`. -/
theorem fst_past_top :
    TakenByFst [] gameBefore clearedBuffers true ∧
      ¬ BootsInPlace (infoHeader (getGameInfo [] gameBefore clearedBuffers true).info) := by
  obtain ⟨info, hinfo⟩ : ∃ info, info = (getGameInfo [] gameBefore clearedBuffers true).info :=
    ⟨_, rfl⟩
  have hsize : info.fstSize = 0x40 := by
    rw [hinfo]
    decide +kernel
  have hmax : info.maxFstSize = 0 := by
    rw [hinfo]
    decide +kernel
  rw [← hinfo]
  refine ⟨gameBefore_taken, fun h => ?_⟩
  rw [bootsInPlace_iff (by rw [infoHeader_fstSize, hsize]; decide)
    (by rw [infoHeader_maxFstSize, hmax]; decide), SizesFit, infoHeader_fstSize,
    infoHeader_maxFstSize, hsize, hmax] at h
  omega

end Found

end Boot
end Cubiboot
