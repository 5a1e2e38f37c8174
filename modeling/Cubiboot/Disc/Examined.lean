import Cubiboot.Disc.OwnFile
import Mathlib.Data.List.Induction

/-!
# The files examined before

What the files that `get_game_info` has looked into before can have left in its
buffers: anything, in the places that files are read to.  So a game is told by its
own file just when `TellsItself` says so.

Results: `getGameInfo_other`, that the rest of memory stays as it was; `examine_any`,
that a history can leave anything there; `exists_history` and `history_possible`, that
what a game may find in the buffers is just what some history leaves; and
`own_file_iff`, which puts this together with what `Disc.OwnFile` has of a single file.
The file `emptyFile` is one without any bytes.
-/

namespace Cubiboot
namespace Disc

open CopyRange Games Partly Words

variable {bnrOffsets : BnrOffsets} {boot b : InfoBuffers} {f : DeviceFile}
variable {n fd : Nat} {wanted : Bool}

theorem transferred_le (f : DeviceFile) (n len offset : Nat) :
    f.transferred n len offset ≤ len := by
  rw [DeviceFile.transferred]
  split <;> omega

theorem osRoundUp32B_le {x : Nat} (h : x ≤ maxFstSize) : osRoundUp32B x ≤ maxFstSize := by
  simp only [maxFstSize] at h ⊢
  have hword : word (x + 31) = x + 31 := word_of_lt (by omega)
  have hdown := andNot_pred_pow (x := x + 31) (k := 5) (by decide) (by omega)
  rw [show 2 ^ 5 - 1 = 31 from rfl] at hdown
  rw [osRoundUp32B, hword, hdown]
  omega

/-- A place that files are not read to. -/
theorem otherMemory_eq_some {i : Nat} {v : UInt8} (h : otherMemory boot i = some v) :
    (i < fstScratch ∨ fstScratch + maxFstSize ≤ i) ∧ boot.ram i = v := by
  rw [otherMemory] at h
  split at h
  · cases h
  · rename_i hi
    exact ⟨by omega, Option.some.inj h⟩

theorem readFst_ram_eq :
    (readFst f n b).ram =
      copyRange b.ram fstScratch
        (f.transferred n (osRoundUp32B (headerFstSize b.header)) (headerFstOffset b.header))
        fun i => f.data (headerFstOffset b.header + i) :=
  rfl

/-- The FST is read into its own place. -/
theorem readFst_other
    (hsize : headerFstSize b.header ≤ maxFstSize) (h : Fits (otherMemory boot) b.ram) :
    Fits (otherMemory boot) (readFst f n b).ram := by
  intro i v hv
  have hle := Nat.le_trans
    (transferred_le f n (osRoundUp32B (headerFstSize b.header)) (headerFstOffset b.header))
    (osRoundUp32B_le hsize)
  have hi : i < fstScratch ∨
      fstScratch + f.transferred n (osRoundUp32B (headerFstSize b.header))
        (headerFstOffset b.header) ≤ i := by
    rcases (otherMemory_eq_some hv).1 with hbefore | hafter
    · exact Or.inl hbefore
    · exact Or.inr (Nat.le_trans (Nat.add_le_add_left hle _) hafter)
  rw [readFst_ram_eq, copyRange_outside hi, h i v hv]

theorem slowBuffers_other (h : Fits (otherMemory boot) b.ram) :
    Fits (otherMemory boot) (slowBuffers f n b).ram := by
  rw [slowBuffers]
  split
  · exact h
  · rename_i hsize
    split
    · exact readFst_other (Nat.le_of_not_lt hsize) h
    · exact readFst_other (Nat.le_of_not_lt hsize) h

/-- The buffers once the header has been read. -/
def headerRead (f : DeviceFile) (b : InfoBuffers) : InfoBuffers :=
  { b with header := f.read 0 b.header 0 sizeofDiskHeader 0 }

/-- The buffers after a file has been looked into. -/
theorem lookInFile_buffers (bnrOffsets : BnrOffsets) (f : DeviceFile) (b : InfoBuffers)
    (fd : Nat) (wanted : Bool) :
    (lookInFile bnrOffsets f b fd wanted).buffers =
      if getBannerOffsetFast bnrOffsets (headerRead f b).header ≠ 0 then
        if IsBanner (probeBanner f 1 (headerRead f b)
            (getBannerOffsetFast bnrOffsets (headerRead f b).header)).smallBuf then
          probeBanner f 1 (headerRead f b)
            (getBannerOffsetFast bnrOffsets (headerRead f b).header)
        else
          slowBuffers f 2 (probeBanner f 1 (headerRead f b)
            (getBannerOffsetFast bnrOffsets (headerRead f b).header))
      else
        slowBuffers f 1 (headerRead f b) := by
  obtain ⟨header, hheader⟩ : ∃ header, header = f.read 0 b.header 0 sizeofDiskHeader 0 :=
    ⟨_, rfl⟩
  simp only [lookInFile, headerRead, ← hheader]
  by_cases hfast : getBannerOffsetFast bnrOffsets header ≠ 0
  · rw [if_pos hfast, if_pos hfast]
    by_cases hbanner : IsBanner
        (probeBanner f 1 { b with header := header }
          (getBannerOffsetFast bnrOffsets header)).smallBuf
    · rw [if_pos hbanner, if_pos hbanner, validExit_buffers]
    · rw [if_neg hbanner, if_neg hbanner, lookInFst_buffers]
  · rw [if_neg hfast, if_neg hfast, lookInFst_buffers]

@[simp] theorem probeBanner_ram (f : DeviceFile) (n : Nat) (b : InfoBuffers) (offset : Nat) :
    (probeBanner f n b offset).ram = b.ram :=
  rfl

@[simp] theorem headerRead_ram (f : DeviceFile) (b : InfoBuffers) :
    (headerRead f b).ram = b.ram :=
  rfl

/-- The fast lookup writes nothing to memory, and the search keeps to its place. -/
theorem lookInFile_other (h : Fits (otherMemory boot) b.ram) :
    Fits (otherMemory boot) (lookInFile bnrOffsets f b fd wanted).buffers.ram := by
  have hread : Fits (otherMemory boot) (headerRead f b).ram := by
    rw [headerRead_ram]
    exact h
  have hprobe : ∀ offset,
      Fits (otherMemory boot) (probeBanner f 1 (headerRead f b) offset).ram := by
    intro offset
    rw [probeBanner_ram]
    exact hread
  rw [lookInFile_buffers]
  by_cases hfast : getBannerOffsetFast bnrOffsets (headerRead f b).header ≠ 0
  · rw [if_pos hfast]
    by_cases hbanner : IsBanner (probeBanner f 1 (headerRead f b)
        (getBannerOffsetFast bnrOffsets (headerRead f b).header)).smallBuf
    · rw [if_pos hbanner]
      exact hprobe _
    · rw [if_neg hbanner]
      exact slowBuffers_other (hprobe _)
  · rw [if_neg hfast]
    exact slowBuffers_other hread

theorem getGameInfo_opened (h : f.opening = .opened fd) :
    (getGameInfo bnrOffsets f b wanted).buffers =
        (lookInFile bnrOffsets f b fd wanted).buffers ∧
      (getGameInfo bnrOffsets f b wanted).info =
        (lookInFile bnrOffsets f b fd wanted).info := by
  obtain ⟨run, hrun⟩ : ∃ run, run = lookInFile bnrOffsets f b fd wanted := ⟨_, rfl⟩
  simp only [getGameInfo, h, ← hrun, and_self]

theorem getGameInfo_not_opened (h : ∀ fd, f.opening ≠ .opened fd) :
    (getGameInfo bnrOffsets f b wanted).buffers = b ∧
      (getGameInfo bnrOffsets f b wanted).info = invalidInfo := by
  cases hopening : f.opening with
  | refused => simp only [getGameInfo, hopening, and_self]
  | unanswered fd => cases fd <;> simp only [getGameInfo, hopening, and_self]
  | bad fd isOpen => simp only [getGameInfo, hopening, and_self]
  | opened fd => exact absurd hopening (h fd)

theorem getGameInfo_other (h : Fits (otherMemory boot) b.ram) :
    Fits (otherMemory boot) (getGameInfo bnrOffsets f b wanted).buffers.ram := by
  by_cases hopened : ∃ fd, f.opening = .opened fd
  · obtain ⟨fd, hfd⟩ := hopened
    rw [(getGameInfo_opened hfd).1]
    exact lookInFile_other h
  · rw [(getGameInfo_not_opened fun fd hfd => hopened ⟨fd, hfd⟩).1]
    exact h

theorem boot_other : Fits (otherMemory boot) boot.ram :=
  fun _ _ hv => (otherMemory_eq_some hv).2

theorem examine_other (files : List (DeviceFile × Bool)) :
    Fits (otherMemory boot) (examine bnrOffsets boot files).ram := by
  induction files using List.reverseRecOn with
  | nil => exact boot_other
  | append_singleton files file ih =>
      rw [examine, List.foldl_append]
      exact getGameInfo_other ih

theorem transferred_none (h : f.reads n = .failed 0) (len offset : Nat) :
    f.transferred n len offset = 0 := by
  simp only [DeviceFile.transferred, h, Nat.zero_min]

theorem read_none (h : f.reads n = .failed 0) (buffer : Nat → UInt8) (place len offset : Nat) :
    f.read n buffer place len offset = buffer := by
  rw [DeviceFile.read, transferred_none h, copyRange_zero]

theorem probeBanner_none (h : f.reads n = .failed 0) (offset : Nat) :
    probeBanner f n b offset = b := by
  rw [probeBanner, read_none h]

theorem readFst_none (h : f.reads n = .failed 0) : readFst f n b = b := by
  rw [readFst, read_none h]

/-- When every read fails the search changes nothing. -/
theorem slowBuffers_none (h : ∀ m, n ≤ m → f.reads m = .failed 0) :
    slowBuffers f n b = b := by
  rw [slowBuffers, readFst_none (h n le_rfl)]
  split
  · rfl
  · split
    · exact probeBanner_none (h (n + 1) (Nat.le_succ n)) _
    · rfl

/-- A file of a header, of which nothing more can be read. -/
def headerFile (header : Nat → UInt8) : DeviceFile where
  opening := .opened 0
  length := sizeofDiskHeader
  data := header
  reads := fun n => if n = 0 then .ok else .failed 0

theorem headerFile_leaves (header : Nat → UInt8) :
    (getGameInfo bnrOffsets (headerFile header) b wanted).buffers =
      { b with header := copyRange b.header 0 sizeofDiskHeader header } := by
  have hfails : ∀ m, 1 ≤ m → (headerFile header).reads m = .failed 0 := by
    intro m hm
    exact if_neg (by omega)
  have hread : headerRead (headerFile header) b =
      { b with header := copyRange b.header 0 sizeofDiskHeader header } := by
    have hall : (headerFile header).transferred 0 sizeofDiskHeader 0 = sizeofDiskHeader := rfl
    have hdata : (fun i => (headerFile header).data (0 + i)) = header := by
      funext i
      rw [Nat.zero_add]
      rfl
    rw [headerRead, DeviceFile.read, hall, hdata]
  rw [(getGameInfo_opened (f := headerFile header) rfl).1, lookInFile_buffers,
    probeBanner_none (hfails 1 le_rfl), slowBuffers_none fun m hm => hfails m (by omega),
    slowBuffers_none hfails, ite_self, ite_self, hread]

/-- A header without a DOL, its FST right after it; one byte of the size is set. -/
def imageHeader (sizePlace : Nat) (sizeByte : UInt8) : Nat → UInt8 :=
  fun i =>
    if i = 0x426 then 0x04
    else if i = 0x427 then 0x40
    else if i = sizePlace then sizeByte
    else 0

/-- A file that can be read, and begins with this header. -/
structure HasHeader (f : DeviceFile) (header : Nat → UInt8) : Prop where
  opening : f.opening = .opened 0
  length : sizeofDiskHeader ≤ f.length
  reads : f.reads 0 = .ok
  data : ∀ i < sizeofDiskHeader, f.data i = header i

section HasHeader

variable {header : Nat → UInt8}

theorem HasHeader.read (h : HasHeader f header) {i : Nat} (hi : i < sizeofDiskHeader) :
    (headerRead f b).header i = header i := by
  have hall : f.transferred 0 sizeofDiskHeader 0 = sizeofDiskHeader := by
    simp only [DeviceFile.transferred, h.reads]
    exact Nat.min_eq_left h.length
  have hread : (headerRead f b).header =
      copyRange b.header 0 sizeofDiskHeader fun i => f.data (0 + i) := by
    rw [headerRead, DeviceFile.read, hall]
  rw [hread, copyRange_inside (Nat.zero_le i) (by omega), Nat.sub_zero, Nat.zero_add,
    h.data i hi]

theorem HasHeader.number (h : HasHeader f header) {place : Nat}
    (hplace : place + 4 ≤ sizeofDiskHeader) :
    be32 (headerRead f b).header place = be32 header place :=
  be32_congr fun _ hi => h.read (by omega)

/-- Without a DOL the fast lookup is not made. -/
theorem HasHeader.leaves (h : HasHeader f header) (hdol : be32 header 0x420 = 0) :
    (getGameInfo bnrOffsets f b wanted).buffers = slowBuffers f 1 (headerRead f b) := by
  have hzero : headerDolOffset (headerRead f b).header = 0 := by
    rw [headerDolOffset, h.number (by decide), hdol]
  have hfast : getBannerOffsetFast bnrOffsets (headerRead f b).header = 0 := by
    rw [getBannerOffsetFast, if_pos hzero]
  rw [(getGameInfo_opened h.opening).1, lookInFile_buffers,
    if_neg (by rw [hfast]; exact fun h => h rfl)]

/-- An FST of a size that is read, right after the header. -/
theorem HasHeader.fst (h : HasHeader f header) {size : Nat}
    (hoffset : be32 header 0x424 = sizeofDiskHeader) (hsize : be32 header 0x428 = size)
    (hround : osRoundUp32B size = size) (hreads : f.reads 1 = .ok)
    (hlength : sizeofDiskHeader + size ≤ f.length) :
    (readFst f 1 (headerRead f b)).ram =
      copyRange b.ram fstScratch size fun i => f.data (sizeofDiskHeader + i) := by
  have hfstOffset : headerFstOffset (headerRead f b).header = sizeofDiskHeader := by
    rw [headerFstOffset, h.number (by decide), hoffset]
  have hfstSize : headerFstSize (headerRead f b).header = size := by
    rw [headerFstSize, h.number (by decide), hsize]
  have hall : f.transferred 1 size sizeofDiskHeader = size := by
    simp only [DeviceFile.transferred, hreads]
    omega
  rw [readFst_ram_eq, hfstOffset, hfstSize, hround, hall, headerRead_ram]

end HasHeader

/-- A file whose FST is as large as it may be, and of which nothing more can be read. -/
def fstFile (image : Nat → UInt8) : DeviceFile where
  opening := .opened 0
  length := sizeofDiskHeader + maxFstSize
  data := fun i =>
    if i < sizeofDiskHeader then imageHeader 0x429 0x10 i else image (i - sizeofDiskHeader)
  reads := fun n => if n < 2 then .ok else .failed 0

theorem fstFile_header (image : Nat → UInt8) :
    HasHeader (fstFile image) (imageHeader 0x429 0x10) :=
  ⟨rfl, Nat.le_add_right _ _, rfl, fun _ hi => if_pos hi⟩

theorem fstFile_leaves (image : Nat → UInt8) :
    (getGameInfo bnrOffsets (fstFile image) b wanted).buffers.ram =
        copyRange b.ram fstScratch maxFstSize image ∧
      (getGameInfo bnrOffsets (fstFile image) b wanted).buffers.smallBuf = b.smallBuf := by
  have hheader := fstFile_header image
  have hsize : be32 (imageHeader 0x429 0x10) 0x428 = maxFstSize := by
    decide +kernel
  have hdata : (fun i => (fstFile image).data (sizeofDiskHeader + i)) = image := by
    funext i
    have hi : ¬ sizeofDiskHeader + i < sizeofDiskHeader := by omega
    simp only [fstFile, if_neg hi, Nat.add_sub_cancel_left]
  have hram : (readFst (fstFile image) 1 (headerRead (fstFile image) b)).ram =
      copyRange b.ram fstScratch maxFstSize image := by
    rw [hheader.fst (by decide +kernel) hsize (by decide +kernel) rfl le_rfl, hdata]
  have hprobe : (fstFile image).reads 2 = .failed 0 := rfl
  have hfits : ¬ headerFstSize (headerRead (fstFile image) b).header > maxFstSize := by
    rw [headerFstSize, hheader.number (by decide), hsize]
    exact Nat.lt_irrefl _
  rw [hheader.leaves (by decide +kernel), slowBuffers, if_neg hfits, probeBanner_none hprobe,
    ite_self]
  exact ⟨hram, rfl⟩

/-- An FST of the root and of `opening.bnr` at 0x480. -/
def bannerFst : List UInt8 :=
  [0, 0, 0, 0, 0, 0, 0, 0, 0, 0, 0, 2,
    0, 0, 0, 0, 0, 0, 0x04, 0x80, 0, 0, 0, 0] ++ openingBnr

/-- A file with such an FST, and these bytes as its banner. -/
def bannerFile (banner : Nat → UInt8) : DeviceFile where
  opening := .opened 0
  length := 0x480 + 32
  data := fun i =>
    if i < sizeofDiskHeader then imageHeader 0x42B 0x40 i
    else if i < 0x480 then bannerFst.getD (i - sizeofDiskHeader) 0
    else banner (i - 0x480)
  reads := fun _ => .ok

theorem bannerFile_header (banner : Nat → UInt8) :
    HasHeader (bannerFile banner) (imageHeader 0x42B 0x40) :=
  ⟨rfl, (by decide : sizeofDiskHeader ≤ 0x480 + 32), rfl, fun _ hi => if_pos hi⟩

section BannerFst

variable {ram : Nat → UInt8}

theorem be32_bannerFst (hram : ∀ j < 64, ram (0x81700000 + j) = bannerFst.getD j 0)
    {place : Nat} (hplace : place + 4 ≤ 64) :
    be32 ram (0x81700000 + place) = be32 (fun j => bannerFst.getD j 0) place := by
  have hbyte : ∀ i < 4, ram (0x81700000 + place + i) = bannerFst.getD (place + i) 0 := by
    intro i hi
    rw [Nat.add_assoc, hram (place + i) (by omega)]
  have hfirst := hbyte 0 (by decide)
  simp only [Nat.add_zero] at hfirst
  simp only [be32, hfirst, hbyte 1 (by decide), hbyte 2 (by decide), hbyte 3 (by decide)]

theorem strcasecmpAt_bannerFst (hram : ∀ j < 64, ram (0x81700000 + j) = bannerFst.getD j 0)
    (literal : List UInt8) {place : Nat} (hplace : place + literal.length < 64) :
    strcasecmpAt ram (0x81700000 + place) literal =
      strcasecmpAt (fun j => bannerFst.getD j 0) place literal := by
  induction literal generalizing place with
  | nil =>
      rw [strcasecmpAt, strcasecmpAt, hram place (by simpa using hplace)]
  | cons b rest ih =>
      rw [List.length_cons] at hplace
      rw [strcasecmpAt, strcasecmpAt, hram place (by omega), Nat.add_assoc, ih (by omega)]

theorem searchFst_bannerFst (hram : ∀ j < 64, ram (0x81700000 + j) = bannerFst.getD j 0) :
    (searchFst ram).offset = 0x480 := by
  have hroot : fstEntry 0 = 0x81700000 := by decide +kernel
  have hfile : fstEntry 1 = 0x81700000 + 12 := by decide +kernel
  have hstrings : fstEntry 2 = 0x81700000 + 24 := by decide +kernel
  have htotal : be32 ram (fstEntry 0 + 8) = 2 := by
    rw [hroot, be32_bannerFst hram (by decide)]
    decide +kernel
  have htype : fstFiletype ram 1 = 0 := by
    rw [fstFiletype, hfile, hram 12 (by decide)]
    decide +kernel
  have hname : fstStringOffset ram 1 = 0 := by
    rw [fstStringOffset, hfile, Nat.add_assoc, Nat.add_assoc, Nat.add_assoc,
      hram (12 + 1) (by decide), hram (12 + 2) (by decide), hram (12 + 3) (by decide)]
    decide +kernel
  have hstring : strcasecmpAt ram (0x81700000 + 24 + 0) openingBnr = true := by
    rw [Nat.add_zero, strcasecmpAt_bannerFst hram openingBnr (by decide)]
    decide +kernel
  have hplace : be32 ram (fstEntry 1 + 4) = 0x480 := by
    rw [hfile, Nat.add_assoc, be32_bannerFst hram (by decide)]
    decide +kernel
  have hbounds : ¬ (0x81700000 + 24 < 0x81700000 ∨ 0x81700000 + 24 > 0x81800000) := by
    decide
  simp only [searchFst, htotal, hstrings]
  rw [if_neg hbounds, findOpeningBnr, hname, if_pos ⟨htype, hstring⟩, hplace]

end BannerFst

theorem bannerFile_leaves (banner : Nat → UInt8) :
    (getGameInfo bnrOffsets (bannerFile banner) b wanted).buffers.smallBuf =
      copyRange b.smallBuf 0 32 banner := by
  have hheader := bannerFile_header banner
  have hsize : be32 (imageHeader 0x42B 0x40) 0x428 = 64 := by
    decide +kernel
  have hram : ∀ j < 64,
      (readFst (bannerFile banner) 1 (headerRead (bannerFile banner) b)).ram (0x81700000 + j) =
        bannerFst.getD j 0 := by
    intro j hj
    have hj' : ¬ sizeofDiskHeader + j < sizeofDiskHeader := by omega
    have hbefore : sizeofDiskHeader + j < 0x480 := Nat.add_lt_add_left hj 0x440
    rw [hheader.fst (by decide +kernel) hsize (by decide +kernel) rfl
        (by decide : sizeofDiskHeader + 64 ≤ 0x480 + 32),
      copyRange_inside (Nat.le_add_right _ _) (Nat.add_lt_add_left hj _),
      Nat.add_sub_cancel_left]
    simp only [bannerFile, if_neg hj', if_pos hbefore, Nat.add_sub_cancel_left]
  have hfits : ¬ headerFstSize (headerRead (bannerFile banner) b).header > maxFstSize := by
    rw [headerFstSize, hheader.number (by decide), hsize]
    decide
  have hoffset := searchFst_bannerFst hram
  have hall : (bannerFile banner).transferred 2 32 0x480 = 32 := by
    simp only [DeviceFile.transferred, bannerFile]
    decide
  have hdata : (fun i => (bannerFile banner).data (0x480 + i)) = banner := by
    funext i
    have hi : ¬ 0x480 + i < sizeofDiskHeader :=
      Nat.not_lt_of_le (Nat.le_trans (by decide) (Nat.le_add_right 0x480 i))
    have hi' : ¬ 0x480 + i < 0x480 := by omega
    simp only [bannerFile, if_neg hi, if_neg hi', Nat.add_sub_cancel_left]
  rw [hheader.leaves (by decide +kernel), slowBuffers, if_neg hfits, hoffset,
    if_pos (by decide), probeBanner, DeviceFile.read, hall, hdata]
  rfl

/-- The files before can have left anything in the places that are read to. -/
theorem examine_any
    (bnrOffsets : BnrOffsets) (boot : InfoBuffers) (header small : Nat → UInt8)
    {ram : Nat → UInt8} (hram : Fits (otherMemory boot) ram) :
    ∃ files,
      (examine bnrOffsets boot files).header =
          copyRange (examine bnrOffsets boot files).header 0 sizeofDiskHeader header ∧
        (examine bnrOffsets boot files).smallBuf = copyRange boot.smallBuf 0 32 small ∧
        (examine bnrOffsets boot files).ram = ram := by
  obtain ⟨first, hfirst⟩ : ∃ first, first =
      (getGameInfo bnrOffsets (bannerFile small) boot false).buffers := ⟨_, rfl⟩
  obtain ⟨second, hsecond⟩ : ∃ second, second =
      (getGameInfo bnrOffsets (fstFile fun i => ram (fstScratch + i)) first false).buffers :=
    ⟨_, rfl⟩
  have hexamine : examine bnrOffsets boot
      [(bannerFile small, false), (fstFile fun i => ram (fstScratch + i), false),
        (headerFile header, false)] =
      { second with header := copyRange second.header 0 sizeofDiskHeader header } := by
    rw [examine, List.foldl_cons, List.foldl_cons, List.foldl_cons, List.foldl_nil,
      headerFile_leaves, ← hfirst, ← hsecond]
  have hsmall : second.smallBuf = copyRange boot.smallBuf 0 32 small := by
    rw [hsecond, (fstFile_leaves _).2, hfirst, bannerFile_leaves]
  have hother : Fits (otherMemory boot) first.ram := by
    rw [hfirst]
    exact getGameInfo_other boot_other
  have hmemory : second.ram = ram := by
    rw [hsecond, (fstFile_leaves _).1]
    funext i
    by_cases hi : fstScratch ≤ i ∧ i < fstScratch + maxFstSize
    · rw [copyRange_inside hi.1 hi.2, Nat.add_sub_cancel' hi.1]
    · have hknown : otherMemory boot i = some (boot.ram i) := if_neg hi
      rw [copyRange_outside (by omega), hother i _ hknown, hram i _ hknown]
  refine ⟨[(bannerFile small, false), (fstFile fun i => ram (fstScratch + i), false),
    (headerFile header, false)], ?_⟩
  rw [hexamine]
  refine ⟨?_, hsmall, hmemory⟩
  funext i
  simp only [copyRange]
  split <;> rfl

section Histories

variable {header header' small small' ram ram' : Nat → UInt8}

theorem getBannerOffsetFast_congr
    (bnrOffsets : BnrOffsets) (h : ∀ i < sizeofDiskHeader, header i = header' i) :
    getBannerOffsetFast bnrOffsets header = getBannerOffsetFast bnrOffsets header' := by
  have hdol : headerDolOffset header = headerDolOffset header' :=
    be32_congr fun i hi => h _ (by simp only [sizeofDiskHeader]; omega)
  have hbytes : (List.range sizeofDiskHeader).map header =
      (List.range sizeofDiskHeader).map header' :=
    List.map_congr_left fun i hi => h i (List.mem_range.1 hi)
  simp only [getBannerOffsetFast, hdol, hbytes]

/-- What is seen needs the header, and the place of the magic. -/
theorem seen_congr
    (hheader : ∀ i < sizeofDiskHeader, header i = header' i)
    (hsmall : ∀ i < 4, small i = small' i) :
    seen bnrOffsets f header small ram = seen bnrOffsets f header' small' ram := by
  have hfast := getBannerOffsetFast_congr bnrOffsets hheader
  have hsize : headerFstSize header = headerFstSize header' :=
    be32_congr fun i hi => hheader _ (by simp only [sizeofDiskHeader]; omega)
  have hbuf : ∀ known : Known UInt8,
      be32 (fill known small) 0 = be32 (fill known small') 0 := by
    intro known
    refine be32_congr fun i hi => ?_
    simp only [fill, Nat.zero_add, hsmall i hi]
  have hbanner : ∀ known : Known UInt8,
      IsBanner (fill known small) ↔ IsBanner (fill known small') := by
    intro known
    rw [IsBanner, IsBanner, hbuf]
  have hinfo : ∀ (known : Known UInt8) offset,
      bannerInfo header (fill known small) offset =
        bannerInfo header' (fill known small') offset := by
    intro known offset
    refine bannerInfo_congr (fun i hi => hheader i ?_) (hbuf known)
    simp only [sizeofDiskHeader]
    omega
  simp only [seen, fastBuf, slowBuf, hfast, hsize, hinfo]
  refine ite_congr (propext (and_congr_right fun _ => hbanner _)) (fun _ => rfl) fun _ => ?_
  refine ite_congr rfl (fun _ => rfl) fun _ => ?_
  exact ite_congr (propext (and_congr_right fun _ => hbanner _)) (fun _ => rfl) fun _ => rfl

/-- An FST that is too large is not looked at. -/
theorem seen_large (h : headerFstSize header > maxFstSize) :
    seen bnrOffsets f header small ram = seen bnrOffsets f header small ram' := by
  simp only [seen, if_pos h]

/-- An FST that is read does not reach beyond its place. -/
theorem fstRead_inside {fast i : Nat} (hsize : headerFstSize header ≤ maxFstSize)
    (hi : i < fstScratch ∨ fstScratch + maxFstSize ≤ i) : fstRead f fast header i = none := by
  have hle := Nat.le_trans
    (transferred_le f (fstReadNumber fast) (osRoundUp32B (headerFstSize header))
      (headerFstOffset header))
    (osRoundUp32B_le hsize)
  have hplace : i < fstScratch ∨
      fstScratch + f.transferred (fstReadNumber fast) (osRoundUp32B (headerFstSize header))
        (headerFstOffset header) ≤ i := by
    rcases hi with hbefore | hafter
    · exact Or.inl hbefore
    · exact Or.inr (Nat.le_trans (Nat.add_le_add_left hle _) hafter)
  rw [fstRead, DeviceFile.knows, copied_outside hplace]

theorem Possible.other
    (h : Possible bnrOffsets boot f header ram) (hsize : headerFstSize header ≤ maxFstSize) :
    Fits (otherMemory boot) ram := by
  intro i v hv
  refine h.ramFits i v ?_
  rw [fstKnown, overlay, fstRead_inside hsize (otherMemory_eq_some hv).1, hv]
  rfl

/-- What is possible has come about after some files. -/
theorem exists_history
    (wanted : Bool) (small : Nat → UInt8) (hopening : f.opening = .opened fd)
    (h : Possible bnrOffsets boot f header ram) :
    ∃ files, (getGameInfo bnrOffsets f (examine bnrOffsets boot files) wanted).info =
      seen bnrOffsets f header small ram := by
  obtain ⟨memory, hmemory, hfilled⟩ : ∃ memory, Fits (otherMemory boot) memory ∧
      seen bnrOffsets f header small
          (fill (fstRead f (getBannerOffsetFast bnrOffsets header) header) memory) =
        seen bnrOffsets f header small ram := by
    by_cases hsize : headerFstSize header ≤ maxFstSize
    · refine ⟨ram, h.other hsize, ?_⟩
      have hfits : Fits (fstRead f (getBannerOffsetFast bnrOffsets header) header) ram := by
        intro i v hv
        refine h.ramFits i v ?_
        rw [fstKnown, overlay, hv]
        rfl
      rw [fill_of_fits hfits]
    · exact ⟨boot.ram, boot_other, seen_large (Nat.lt_of_not_le hsize)⟩
  obtain ⟨files, hheader, hsmall, hram⟩ :=
    examine_any bnrOffsets boot header small hmemory
  refine ⟨files, ?_⟩
  obtain ⟨c, hc⟩ : ∃ c, c = examine bnrOffsets boot files := ⟨_, rfl⟩
  rw [← hc] at hheader hsmall hram ⊢
  have hsame : ∀ i < sizeofDiskHeader, fill (headerKnown f) c.header i = header i := by
    intro i hi
    cases hk : headerKnown f i with
    | none =>
        rw [fill_unknown hk, hheader, copyRange_inside (Nat.zero_le i) (by omega), Nat.sub_zero]
    | some v => rw [fill_known hk, h.headerFits i v hk]
  have hmagic : ∀ i < 4, c.smallBuf i = small i := by
    intro i hi
    rw [hsmall, copyRange_inside (Nat.zero_le i) (by omega), Nat.sub_zero]
  have hfast := getBannerOffsetFast_congr bnrOffsets hsame
  have hread : ∀ fast, fstRead f fast (fill (headerKnown f) c.header) = fstRead f fast header := by
    intro fast
    have hsize : headerFstSize (fill (headerKnown f) c.header) = headerFstSize header :=
      be32_congr fun i hi => hsame _ (by simp only [sizeofDiskHeader]; omega)
    have hoffset : headerFstOffset (fill (headerKnown f) c.header) = headerFstOffset header :=
      be32_congr fun i hi => hsame _ (by simp only [sizeofDiskHeader]; omega)
    rw [fstRead, fstRead, hsize, hoffset]
  rw [(getGameInfo_opened hopening).2, lookInFile_info, hfast, hread, hram,
    seen_congr hsame hmagic, hfilled]

/-- What comes about is possible. -/
theorem history_possible (files : List (DeviceFile × Bool)) :
    Possible bnrOffsets boot f
      (fill (headerKnown f) (examine bnrOffsets boot files).header)
      (fill
        (fstRead f
          (getBannerOffsetFast bnrOffsets
            (fill (headerKnown f) (examine bnrOffsets boot files).header))
          (fill (headerKnown f) (examine bnrOffsets boot files).header))
        (examine bnrOffsets boot files).ram) := by
  refine ⟨fits_fill _ _, fun i v hv => ?_⟩
  rw [fstKnown, overlay] at hv
  cases hread : fstRead f
      (getBannerOffsetFast bnrOffsets
        (fill (headerKnown f) (examine bnrOffsets boot files).header))
      (fill (headerKnown f) (examine bnrOffsets boot files).header) i with
  | some w =>
      rw [hread] at hv
      rw [fill_known hread]
      exact Option.some.inj hv
  | none =>
      rw [hread] at hv
      rw [fill_unknown hread]
      exact examine_other files i v hv

end Histories

/--
The result is the same after any two histories of files, just when the file tells by
itself what it is.
-/
theorem own_file_iff
    (bnrOffsets : BnrOffsets) (boot : InfoBuffers) (f : DeviceFile) (wanted : Bool) :
    (∀ before before' : List (DeviceFile × Bool),
      (getGameInfo bnrOffsets f (examine bnrOffsets boot before) wanted).info =
        (getGameInfo bnrOffsets f (examine bnrOffsets boot before') wanted).info) ↔
      TellsItself bnrOffsets boot f := by
  by_cases hopened : ∃ fd, f.opening = .opened fd
  · obtain ⟨fd, hfd⟩ := hopened
    have htells : TellsItself bnrOffsets boot f ↔ SeenAlike bnrOffsets boot f := by
      rw [seenAlike_iff]
      exact ⟨fun h => h fd hfd, fun h _ _ => h⟩
    rw [htells]
    constructor
    · intro h header small ram header' small' ram' hpossible hpossible'
      obtain ⟨files, hfiles⟩ := exists_history wanted small hfd hpossible
      obtain ⟨files', hfiles'⟩ := exists_history wanted small' hfd hpossible'
      rw [← hfiles, ← hfiles']
      exact h files files'
    · intro h before before'
      rw [(getGameInfo_opened hfd).2, (getGameInfo_opened hfd).2, lookInFile_info,
        lookInFile_info]
      exact h _ _ _ _ _ _ (history_possible before) (history_possible before')
  · have hno : ∀ fd, f.opening ≠ .opened fd := fun fd hfd => hopened ⟨fd, hfd⟩
    refine iff_of_true (fun before before' => ?_) fun fd hfd => absurd hfd (hno fd)
    rw [(getGameInfo_not_opened hno).2, (getGameInfo_not_opened hno).2]

/-- Buffers that nothing has been read to. -/
def clearedBuffers : InfoBuffers :=
  ⟨fun _ => 0, fun _ => 0, fun _ => 0⟩

/-- A file of no bytes. -/
def emptyFile : DeviceFile where
  opening := .opened 0
  length := 0
  data := fun _ => 0
  reads := fun _ => .ok

/-- The game that was examined before. -/
def gameBefore : DeviceFile :=
  bannerFile (magicByte false)

/-- An empty file is no game at first, and is one after a game has been examined. -/
theorem empty_file_takes_over :
    (getGameInfo [] emptyFile (examine [] clearedBuffers []) true).info.valid = false ∧
      (getGameInfo [] emptyFile (examine [] clearedBuffers [(gameBefore, true)])
        true).info.valid = true ∧
      ¬ ∀ before before' : List (DeviceFile × Bool),
        (getGameInfo [] emptyFile (examine [] clearedBuffers before) true).info =
          (getGameInfo [] emptyFile (examine [] clearedBuffers before') true).info := by
  have hfirst :
      (getGameInfo [] emptyFile (examine [] clearedBuffers []) true).info.valid = false := by
    decide +kernel
  have hsecond : (getGameInfo [] emptyFile (examine [] clearedBuffers [(gameBefore, true)])
      true).info.valid = true := by
    decide +kernel
  refine ⟨hfirst, hsecond, fun h => ?_⟩
  rw [h [] [(gameBefore, true)], hsecond] at hfirst
  cases hfirst

end Disc
end Cubiboot
