import Cubiboot.Disc.GameInfo
import Cubiboot.Foundations.Partly

/-!
# A game is told by its own file

When the result of `get_game_info` is the same whatever files have been examined
before.  The buffers keep what the reads of the file do not fill, and the files
before can have left anything there: what counts is what is known of the buffers
from this file alone.

Results: `lookInFile_info`, that the result is `seen` in the buffers which the reads
have filled; `seen_fast`, `seen_slow` and `seen_noBanner`, what is seen where the magic
is known and where it is not; `exists_valid`, that a banner which may be found is found
for some buffers; and `seenAlike_iff`, for which files the rest of the buffers plays no
part.
-/

namespace Cubiboot
namespace Disc

open CopyRange Games Partly Words

/-- The cells that a read fills. -/
def DeviceFile.knows (f : DeviceFile) (n place len offset : Nat) : Known UInt8 :=
  copied place (f.transferred n len offset) fun i => f.data (offset + i)

/-- What is known of the header. -/
def headerKnown (f : DeviceFile) : Known UInt8 :=
  f.knows 0 0 sizeofDiskHeader 0

/-- What is known of `small_buf` after the fast lookup. -/
def fastKnown (f : DeviceFile) (fast : Nat) : Known UInt8 :=
  if fast = 0 then fun _ => none else f.knows 1 0 32 fast

/-- The number of the read of the FST. -/
def fstReadNumber (fast : Nat) : Nat :=
  if fast = 0 then 1 else 2

/-- What is known of `small_buf` after the banner has been looked for through the FST. -/
def slowKnown (f : DeviceFile) (fast offset : Nat) : Known UInt8 :=
  overlay (f.knows (fstReadNumber fast + 1) 0 32 offset) (fastKnown f fast)

/-- The cells that the read of the FST fills. -/
def fstRead (f : DeviceFile) (fast : Nat) (header : Nat → UInt8) : Known UInt8 :=
  f.knows (fstReadNumber fast) fstScratch (osRoundUp32B (headerFstSize header))
    (headerFstOffset header)

/-- Memory that no file is read to. -/
def otherMemory (boot : InfoBuffers) : Known UInt8 :=
  fun i => if fstScratch ≤ i ∧ i < fstScratch + maxFstSize then none else some (boot.ram i)

/-- What is known of memory when the FST is searched. -/
def fstKnown (boot : InfoBuffers) (f : DeviceFile) (fast : Nat) (header : Nat → UInt8) :
    Known UInt8 :=
  overlay (fstRead f fast header) (otherMemory boot)

/-- The bytes of the magic of a banner. -/
def magicByte (multi : Bool) : Nat → UInt8
  | 0 => 0x42
  | 1 => 0x4E
  | 2 => 0x52
  | _ => if multi then 0x32 else 0x31

/-- The known bytes are those of a magic. -/
def MayBeMagic (known : Known UInt8) (multi : Bool) : Prop :=
  ∀ i < 4, ∀ v, known i = some v → v = magicByte multi i

/-- A magic is known in full. -/
def IsMagic (known : Known UInt8) (multi : Bool) : Prop :=
  ∀ i < 4, known i = some (magicByte multi i)

section Condition

variable (bnrOffsets : BnrOffsets) (boot : InfoBuffers) (f : DeviceFile)

/-- The fast lookup of a header can come upon a banner. -/
def FastMayFind (header : Nat → UInt8) : Prop :=
  getBannerOffsetFast bnrOffsets header ≠ 0 ∧
    ∃ multi, MayBeMagic (fastKnown f (getBannerOffsetFast bnrOffsets header)) multi

/-- The FST in memory can lead to a banner. -/
def SlowMayFind (header ram : Nat → UInt8) : Prop :=
  headerFstSize header ≤ maxFstSize ∧ (searchFst ram).offset ≠ 0 ∧
    ∃ multi, MayBeMagic
      (slowKnown f (getBannerOffsetFast bnrOffsets header) (searchFst ram).offset) multi

/-- Header and memory can be these, from what is known. -/
structure Possible (header ram : Nat → UInt8) : Prop where
  headerFits : Fits (headerKnown f) header
  ramFits : Fits (fstKnown boot f (getBannerOffsetFast bnrOffsets header) header) ram

/-- Whatever is left in the buffers, no banner is found. -/
def NoBanner : Prop :=
  ∀ header ram, Possible bnrOffsets boot f header ram →
    ¬ FastMayFind bnrOffsets f header ∧ ¬ SlowMayFind bnrOffsets f header ram

/-- The fast lookup comes upon this banner. -/
def FastFinds (header : Nat → UInt8) (offset : Nat) (multi : Bool) : Prop :=
  getBannerOffsetFast bnrOffsets header = offset ∧ IsMagic (fastKnown f offset) multi

/-- The FST in memory leads to this banner. -/
def SlowFinds (header ram : Nat → UInt8) (offset : Nat) (multi : Bool) : Prop :=
  ¬ FastMayFind bnrOffsets f header ∧ headerFstSize header ≤ maxFstSize ∧
    (searchFst ram).offset = offset ∧
    IsMagic (slowKnown f (getBannerOffsetFast bnrOffsets header) offset) multi

/--
The header is read as far as it is used, and whatever is left in the buffers the same
banner is found, with all of its magic read.
-/
def SameBanner : Prop :=
  0x430 ≤ f.transferred 0 sizeofDiskHeader 0 ∧
    ∃ offset multi, offset ≠ 0 ∧
      ∀ header ram, Possible bnrOffsets boot f header ram →
        FastFinds bnrOffsets f header offset multi ∨
          SlowFinds bnrOffsets f header ram offset multi

/-- A file that tells for itself what it is. -/
def TellsItself : Prop :=
  ∀ fd, f.opening = .opened fd →
    NoBanner bnrOffsets boot f ∨ SameBanner bnrOffsets boot f

end Condition

variable {known : Known UInt8} {multi : Bool} {small : Nat → UInt8}

/-- The magic of a banner, as a number. -/
def magicNumber (multi : Bool) : Nat :=
  if multi then bannerMagic2 else bannerMagic1

theorem be32_eq_magic :
    be32 small 0 = magicNumber multi ↔ ∀ i < 4, small i = magicByte multi i := by
  have h₀ := (small 0).toNat_lt
  have h₁ := (small 1).toNat_lt
  have h₂ := (small 2).toNat_lt
  have h₃ := (small 3).toNat_lt
  have hbytes : (∀ i < 4, small i = magicByte multi i) ↔
      small 0 = 0x42 ∧ small 1 = 0x4E ∧ small 2 = 0x52 ∧
        small 3 = if multi then 0x32 else 0x31 := by
    constructor
    · intro h
      exact ⟨h 0 (by decide), h 1 (by decide), h 2 (by decide), h 3 (by decide)⟩
    · rintro ⟨h₀, h₁, h₂, h₃⟩ i hi
      match i, hi with
      | 0, _ => exact h₀
      | 1, _ => exact h₁
      | 2, _ => exact h₂
      | 3, _ => exact h₃
  rw [hbytes]
  simp only [← UInt8.toNat_inj, be32, Nat.zero_add]
  cases multi with
  | false =>
      simp only [magicNumber, bannerMagic1, Bool.false_eq_true, if_false]
      constructor
      · intro h
        refine ⟨?_, ?_, ?_, ?_⟩ <;> simp only [UInt8.toNat_ofNat] <;> omega
      · rintro ⟨e₀, e₁, e₂, e₃⟩
        rw [e₀, e₁, e₂, e₃]
        rfl
  | true =>
      simp only [magicNumber, bannerMagic2, if_true]
      constructor
      · intro h
        refine ⟨?_, ?_, ?_, ?_⟩ <;> simp only [UInt8.toNat_ofNat] <;> omega
      · rintro ⟨e₀, e₁, e₂, e₃⟩
        rw [e₀, e₁, e₂, e₃]
        rfl

theorem isBanner_iff :
    IsBanner small ↔ ∃ multi, ∀ i < 4, small i = magicByte multi i := by
  constructor
  · rintro (h | h)
    · exact ⟨false, be32_eq_magic.1 h⟩
    · exact ⟨true, be32_eq_magic.1 h⟩
  · rintro ⟨multi, h⟩
    have hnumber := be32_eq_magic.2 h
    cases multi with
    | false => exact Or.inl hnumber
    | true => exact Or.inr hnumber

/-- `bnr_type` of a banner. -/
theorem bnrType_of_magic (h : ∀ i < 4, small i = magicByte multi i) :
    (if be32 small 0 = bannerMagic2 then (1 : UInt8) else 0) = if multi then 1 else 0 := by
  rw [be32_eq_magic.2 h]
  cases multi with
  | false => rfl
  | true => rfl

/-- Whatever may be a magic is one for some rest of the buffer. -/
theorem fill_magicByte (h : MayBeMagic known multi) :
    ∀ i < 4, fill known (magicByte multi) i = magicByte multi i := by
  intro i hi
  cases hk : known i with
  | none => exact fill_unknown hk
  | some v =>
      rw [fill_known hk]
      exact h i hi v hk

theorem mayBeMagic_of_fill (h : ∀ i < 4, fill known small i = magicByte multi i) :
    MayBeMagic known multi := by
  intro i hi v hv
  rw [← h i hi, fill_known hv]

theorem IsMagic.fill (h : IsMagic known multi) :
    ∀ i < 4, Partly.fill known small i = magicByte multi i :=
  fun i hi => fill_known (h i hi)

/-- What is known of a buffer is known from its start. -/
def FromStart (known : Known UInt8) : Prop :=
  ∀ i j, i ≤ j → known i = none → known j = none

theorem knows_fromStart (f : DeviceFile) (n len offset : Nat) :
    FromStart (f.knows n 0 len offset) := by
  intro i j hij hi
  refine copied_outside (Or.inr ?_)
  by_contra hj
  rw [DeviceFile.knows, copied_inside (Nat.zero_le i) (by omega)] at hi
  cases hi

theorem fastKnown_fromStart (f : DeviceFile) (fast : Nat) : FromStart (fastKnown f fast) := by
  rw [fastKnown]
  split
  · exact fun _ _ _ _ => rfl
  · exact knows_fromStart f 1 32 fast

theorem slowKnown_fromStart (f : DeviceFile) (fast offset : Nat) :
    FromStart (slowKnown f fast offset) := by
  intro i j hij hi
  simp only [slowKnown, overlay, Option.or_eq_none_iff] at hi ⊢
  exact ⟨knows_fromStart f _ 32 offset i j hij hi.1, fastKnown_fromStart f fast i j hij hi.2⟩

/-- The two magics differ in the last byte only. -/
theorem MayBeMagic.other
    (h : MayBeMagic known multi) (hlast : known 3 = none) : MayBeMagic known (!multi) := by
  intro i hi v hv
  have hmulti := h i hi v hv
  match i, hi with
  | 0, _ => exact hmulti
  | 1, _ => exact hmulti
  | 2, _ => exact hmulti
  | 3, _ =>
      rw [hlast] at hv
      cases hv

theorem MayBeMagic.isMagic
    (h : MayBeMagic known multi) (hstart : FromStart known) (hlast : known 3 ≠ none) :
    IsMagic known multi := by
  intro i hi
  cases hk : known i with
  | none => exact absurd (hstart i 3 (by omega) hk) hlast
  | some v => rw [h i hi v hk]

section Seen

variable (bnrOffsets : BnrOffsets) (boot : InfoBuffers) (f : DeviceFile)

/-- `small_buf` after the fast lookup. -/
def fastBuf (fast : Nat) (small : Nat → UInt8) : Nat → UInt8 :=
  fill (fastKnown f fast) small

/-- `small_buf` after the search through the FST. -/
def slowBuf (fast offset : Nat) (small : Nat → UInt8) : Nat → UInt8 :=
  fill (slowKnown f fast offset) small

/--
The result of `get_game_info`, from the header and the memory after the reads and what
was in `small_buf` before them.
-/
def seen (header small ram : Nat → UInt8) : DolphinGameInfo :=
  if getBannerOffsetFast bnrOffsets header ≠ 0 ∧
      IsBanner (fastBuf f (getBannerOffsetFast bnrOffsets header) small) then
    bannerInfo header (fastBuf f (getBannerOffsetFast bnrOffsets header) small)
      (getBannerOffsetFast bnrOffsets header)
  else if headerFstSize header > maxFstSize then
    invalidInfo
  else if (searchFst ram).offset ≠ 0 ∧
      IsBanner (slowBuf f (getBannerOffsetFast bnrOffsets header) (searchFst ram).offset
        small) then
    bannerInfo header
      (slowBuf f (getBannerOffsetFast bnrOffsets header) (searchFst ram).offset small)
      (searchFst ram).offset
  else
    invalidInfo

end Seen

section SeenLemmas

variable {bnrOffsets : BnrOffsets} {boot : InfoBuffers} {f : DeviceFile}
variable {header header' ram ram' small' : Nat → UInt8} {n fast offset fd : Nat}
variable {b : InfoBuffers} {wanted : Bool}

theorem read_eq_fill (buffer : Nat → UInt8) (n place len offset : Nat) :
    f.read n buffer place len offset = fill (f.knows n place len offset) buffer :=
  copyRange_eq_fill buffer

@[simp] theorem validExit_info :
    (validExit b fd offset wanted).info = bannerInfo b.header b.smallBuf offset := by
  cases wanted <;> rfl

@[simp] theorem validExit_buffers : (validExit b fd offset wanted).buffers = b := by
  cases wanted <;> rfl

/-- The buffers after the search through the FST. -/
def slowBuffers (f : DeviceFile) (n : Nat) (b : InfoBuffers) : InfoBuffers :=
  if headerFstSize b.header > maxFstSize then
    b
  else if (searchFst (readFst f n b).ram).offset ≠ 0 then
    probeBanner f (n + 1) (readFst f n b) (searchFst (readFst f n b).ram).offset
  else
    readFst f n b

theorem lookInFst_buffers :
    (lookInFst f n b fd wanted).buffers = slowBuffers f n b := by
  simp only [lookInFst, slowBuffers]
  by_cases hsize : headerFstSize b.header > maxFstSize
  · rw [if_pos hsize, if_pos hsize]
    rfl
  · rw [if_neg hsize, if_neg hsize]
    by_cases hoffset : (searchFst (readFst f n b).ram).offset ≠ 0
    · rw [if_pos hoffset, if_pos hoffset]
      split
      · exact validExit_buffers
      · rfl
    · rw [if_neg hoffset, if_neg hoffset]
      rfl

/-- The search through the FST, when `small_buf` holds what the fast lookup left. -/
theorem lookInFst_info (hn : n = fstReadNumber fast)
    (hsmall : b.smallBuf = fastBuf f fast small) :
    (lookInFst f n b fd wanted).info =
      if headerFstSize b.header > maxFstSize then
        invalidInfo
      else if (searchFst (readFst f n b).ram).offset ≠ 0 ∧
          IsBanner (slowBuf f fast (searchFst (readFst f n b).ram).offset small) then
        bannerInfo b.header
          (slowBuf f fast (searchFst (readFst f n b).ram).offset small)
          (searchFst (readFst f n b).ram).offset
      else
        invalidInfo := by
  have hprobe : ∀ offset, (probeBanner f (n + 1) (readFst f n b) offset).smallBuf =
      slowBuf f fast offset small := by
    intro offset
    have hbefore : (readFst f n b).smallBuf = fastBuf f fast small := hsmall
    rw [probeBanner, hbefore, slowBuf, slowKnown, fill_overlay, ← hn]
    exact read_eq_fill _ _ _ _ _
  simp only [lookInFst]
  by_cases hsize : headerFstSize b.header > maxFstSize
  · rw [if_pos hsize, if_pos hsize]
    rfl
  · rw [if_neg hsize, if_neg hsize]
    by_cases hoffset : (searchFst (readFst f n b).ram).offset ≠ 0
    · rw [if_pos hoffset]
      by_cases hbanner : IsBanner
          (slowBuf f fast (searchFst (readFst f n b).ram).offset small)
      · rw [if_pos (by rw [hprobe]; exact hbanner), if_pos ⟨hoffset, hbanner⟩,
          validExit_info, hprobe]
        rfl
      · rw [if_neg (by rw [hprobe]; exact hbanner), if_neg fun h => hbanner h.2]
        rfl
    · rw [if_neg hoffset, if_neg fun h => hoffset h.1]
      rfl

theorem readFst_ram :
    (readFst f (fstReadNumber fast) b).ram = fill (fstRead f fast b.header) b.ram :=
  read_eq_fill _ _ _ _ _

/-- The result is what is seen in the buffers that the reads have filled. -/
theorem lookInFile_info (bnrOffsets : BnrOffsets) (f : DeviceFile) (b : InfoBuffers)
    (fd : Nat) (wanted : Bool) :
    (lookInFile bnrOffsets f b fd wanted).info =
      seen bnrOffsets f (fill (headerKnown f) b.header) b.smallBuf
        (fill
          (fstRead f (getBannerOffsetFast bnrOffsets (fill (headerKnown f) b.header))
            (fill (headerKnown f) b.header))
          b.ram) := by
  obtain ⟨header, hheader⟩ : ∃ header, header = fill (headerKnown f) b.header := ⟨_, rfl⟩
  have hread : f.read 0 b.header 0 sizeofDiskHeader 0 = header := by
    rw [hheader]
    exact read_eq_fill _ _ _ _ _
  simp only [lookInFile, hread, ← hheader]
  by_cases hfast : getBannerOffsetFast bnrOffsets header ≠ 0
  · have hnumber : fstReadNumber (getBannerOffsetFast bnrOffsets header) = 2 := if_neg hfast
    have hprobe : (probeBanner f 1 { b with header := header }
        (getBannerOffsetFast bnrOffsets header)).smallBuf =
        fastBuf f (getBannerOffsetFast bnrOffsets header) b.smallBuf := by
      rw [fastBuf, fastKnown, if_neg hfast]
      exact read_eq_fill _ _ _ _ _
    rw [if_pos hfast]
    by_cases hbanner : IsBanner
        (fastBuf f (getBannerOffsetFast bnrOffsets header) b.smallBuf)
    · rw [if_pos (by rw [hprobe]; exact hbanner), seen, if_pos ⟨hfast, hbanner⟩,
        validExit_info, hprobe]
      rfl
    · rw [if_neg (by rw [hprobe]; exact hbanner), seen, if_neg fun h => hbanner h.2,
        lookInFst_info hnumber.symm hprobe, ← hnumber, readFst_ram]
      rfl
  · have hzero : getBannerOffsetFast bnrOffsets header = 0 := not_not.1 hfast
    have hnumber : fstReadNumber (getBannerOffsetFast bnrOffsets header) = 1 := if_pos hzero
    have hsmall : b.smallBuf = fastBuf f (getBannerOffsetFast bnrOffsets header) b.smallBuf := by
      rw [fastBuf, fastKnown, if_pos hzero]
      rfl
    rw [if_neg hfast, seen, if_neg fun h => hfast h.1,
      lookInFst_info (b := { b with header := header }) hnumber.symm hsmall, ← hnumber,
      readFst_ram]

theorem bannerInfo_bnrOffset : (bannerInfo header small offset).bnrOffset = offset :=
  rfl

/-- The type in the info is that of the magic. -/
theorem bannerInfo_bnrType (h : ∀ i < 4, small i = magicByte multi i) :
    (bannerInfo header small offset).bnrType = if multi then 1 else 0 :=
  bnrType_of_magic h

theorem bnrType_inj {multi multi' : Bool}
    (h : (if multi then (1 : UInt8) else 0) = if multi' then 1 else 0) : multi = multi' := by
  cases multi <;> cases multi' <;> first | rfl | exact absurd h (by decide)

/-- The info needs the header as far as `MaxFSTSize`, and the magic. -/
theorem bannerInfo_congr
    (hheader : ∀ i < 0x430, header i = header' i) (hsmall : be32 small 0 = be32 small' 0) :
    bannerInfo header small offset = bannerInfo header' small' offset := by
  have hword : ∀ place, place + 4 ≤ 0x430 → be32 header place = be32 header' place :=
    fun place hplace => be32_congr fun i hi => hheader _ (by omega)
  have hid : (List.range 6).map header = (List.range 6).map header' := by
    refine List.map_congr_left fun i hi => hheader i ?_
    have := List.mem_range.1 hi
    omega
  simp only [bannerInfo, DolphinGameInfo.mk.injEq, hsmall]
  exact ⟨trivial, hid, hheader 6 (by decide), hheader 7 (by decide), trivial, trivial,
    hword _ (by decide), hword _ (by decide), hword _ (by decide), hword _ (by decide)⟩

theorem seen_fast
    (hfast : getBannerOffsetFast bnrOffsets header ≠ 0)
    (hmagic : ∀ i < 4, fastBuf f (getBannerOffsetFast bnrOffsets header) small i =
      magicByte multi i) :
    seen bnrOffsets f header small ram =
      bannerInfo header (fastBuf f (getBannerOffsetFast bnrOffsets header) small)
        (getBannerOffsetFast bnrOffsets header) := by
  rw [seen, if_pos ⟨hfast, isBanner_iff.2 ⟨multi, hmagic⟩⟩]

/-- Where the fast lookup can find nothing, it does not. -/
theorem not_fast_of_not_may
    (h : ¬ FastMayFind bnrOffsets f header) :
    ¬ (getBannerOffsetFast bnrOffsets header ≠ 0 ∧
      IsBanner (fastBuf f (getBannerOffsetFast bnrOffsets header) small)) := by
  rintro ⟨hfast, hbanner⟩
  obtain ⟨multi, hmagic⟩ := isBanner_iff.1 hbanner
  exact h ⟨hfast, multi, mayBeMagic_of_fill hmagic⟩

theorem seen_slow
    (hfast : ¬ FastMayFind bnrOffsets f header)
    (hsize : headerFstSize header ≤ maxFstSize) (hoffset : (searchFst ram).offset ≠ 0)
    (hmagic : ∀ i < 4,
      slowBuf f (getBannerOffsetFast bnrOffsets header) (searchFst ram).offset small i =
        magicByte multi i) :
    seen bnrOffsets f header small ram =
      bannerInfo header
        (slowBuf f (getBannerOffsetFast bnrOffsets header) (searchFst ram).offset small)
        (searchFst ram).offset := by
  rw [seen, if_neg (not_fast_of_not_may hfast), if_neg (Nat.not_lt_of_le hsize),
    if_pos ⟨hoffset, isBanner_iff.2 ⟨multi, hmagic⟩⟩]

/-- What a valid result comes from. -/
theorem seen_valid (h : (seen bnrOffsets f header small ram).valid = true) :
    (FastMayFind bnrOffsets f header ∧ ∃ multi,
        (∀ i < 4, fastBuf f (getBannerOffsetFast bnrOffsets header) small i =
          magicByte multi i) ∧
        seen bnrOffsets f header small ram =
          bannerInfo header (fastBuf f (getBannerOffsetFast bnrOffsets header) small)
            (getBannerOffsetFast bnrOffsets header)) ∨
      (headerFstSize header ≤ maxFstSize ∧ (searchFst ram).offset ≠ 0 ∧ ∃ multi,
        (∀ i < 4,
          slowBuf f (getBannerOffsetFast bnrOffsets header) (searchFst ram).offset small i =
            magicByte multi i) ∧
        seen bnrOffsets f header small ram =
          bannerInfo header
            (slowBuf f (getBannerOffsetFast bnrOffsets header) (searchFst ram).offset small)
            (searchFst ram).offset) := by
  by_cases hfast : getBannerOffsetFast bnrOffsets header ≠ 0 ∧
      IsBanner (fastBuf f (getBannerOffsetFast bnrOffsets header) small)
  · obtain ⟨multi, hmagic⟩ := isBanner_iff.1 hfast.2
    exact Or.inl ⟨⟨hfast.1, multi, mayBeMagic_of_fill hmagic⟩, multi, hmagic,
      seen_fast hfast.1 hmagic⟩
  · rw [seen, if_neg hfast] at h
    by_cases hsize : headerFstSize header > maxFstSize
    · rw [if_pos hsize] at h
      cases h
    · rw [if_neg hsize] at h
      by_cases hslow : (searchFst ram).offset ≠ 0 ∧
          IsBanner (slowBuf f (getBannerOffsetFast bnrOffsets header) (searchFst ram).offset
            small)
      · obtain ⟨multi, hmagic⟩ := isBanner_iff.1 hslow.2
        refine Or.inr ⟨Nat.le_of_not_lt hsize, hslow.1, multi, hmagic, ?_⟩
        rw [seen, if_neg hfast, if_neg hsize, if_pos hslow]
      · rw [if_neg hslow] at h
        cases h

theorem seen_maxFstSize (h : (seen bnrOffsets f header small ram).valid = true) :
    (seen bnrOffsets f header small ram).maxFstSize = headerMaxFstSize header := by
  rcases seen_valid h with ⟨_, _, _, heq⟩ | ⟨_, _, _, _, heq⟩
  · rw [heq]
    rfl
  · rw [heq]
    rfl

theorem seen_invalid (h : (seen bnrOffsets f header small ram).valid = false) :
    seen bnrOffsets f header small ram = invalidInfo := by
  simp only [seen] at h ⊢
  split
  · rw [if_pos (by assumption)] at h
    cases h
  · rename_i hfast
    rw [if_neg hfast] at h
    split
    · rfl
    · rename_i hsize
      rw [if_neg hsize] at h
      split
      · rw [if_pos (by assumption)] at h
        cases h
      · rfl

/-- Where no banner can be found, the game is not valid. -/
theorem seen_noBanner
    (hnone : NoBanner bnrOffsets boot f) (h : Possible bnrOffsets boot f header ram) :
    seen bnrOffsets f header small ram = invalidInfo := by
  refine seen_invalid ?_
  by_contra hvalid
  obtain ⟨hfast, hslow⟩ := hnone header ram h
  rcases seen_valid (Bool.of_not_eq_false hvalid) with
    ⟨hmay, _⟩ | ⟨hsize, hoffset, multi, hmagic, _⟩
  · exact hfast hmay
  · exact hslow ⟨hsize, hoffset, multi, mayBeMagic_of_fill hmagic⟩

/-- The banner that is found, by one way or the other. -/
theorem seen_finds
    (small : Nat → UInt8) (hoffset : offset ≠ 0)
    (h : FastFinds bnrOffsets f header offset multi ∨
      SlowFinds bnrOffsets f header ram offset multi) :
    ∃ buffer, (∀ i < 4, buffer i = magicByte multi i) ∧
      seen bnrOffsets f header small ram = bannerInfo header buffer offset := by
  rcases h with ⟨hfast, hmagic⟩ | ⟨hfast, hsize, hsearch, hmagic⟩
  · rw [← hfast] at hmagic hoffset
    have hbuffer : ∀ i < 4,
        fastBuf f (getBannerOffsetFast bnrOffsets header) small i = magicByte multi i :=
      hmagic.fill
    refine ⟨_, hbuffer, ?_⟩
    rw [seen_fast hoffset hbuffer, hfast]
  · rw [← hsearch] at hmagic hoffset
    have hbuffer : ∀ i < 4,
        slowBuf f (getBannerOffsetFast bnrOffsets header) (searchFst ram).offset small i =
          magicByte multi i :=
      hmagic.fill
    refine ⟨_, hbuffer, ?_⟩
    rw [seen_slow hfast hsize hoffset hbuffer, hsearch]

theorem headerKnown_inside {i : Nat} (h : i < f.transferred 0 sizeofDiskHeader 0) :
    headerKnown f i = some (f.data i) := by
  rw [headerKnown, DeviceFile.knows, copied_inside (Nat.zero_le i) (by omega), Nat.sub_zero,
    Nat.zero_add]

theorem headerKnown_outside {i : Nat} (h : f.transferred 0 sizeofDiskHeader 0 ≤ i) :
    headerKnown f i = none := by
  rw [headerKnown, DeviceFile.knows]
  exact copied_outside (Or.inr (by omega))

/-- The result does not depend on what is left in the buffers. -/
def SeenAlike (bnrOffsets : BnrOffsets) (boot : InfoBuffers) (f : DeviceFile) : Prop :=
  ∀ header small ram header' small' ram',
    Possible bnrOffsets boot f header ram → Possible bnrOffsets boot f header' ram' →
      seen bnrOffsets f header small ram = seen bnrOffsets f header' small' ram'

theorem SameBanner.alike (h : SameBanner bnrOffsets boot f) :
    SeenAlike bnrOffsets boot f := by
  obtain ⟨hread, offset, multi, hoffset, hfinds⟩ := h
  intro header small ram header' small' ram' hpossible hpossible'
  obtain ⟨buffer, hbuffer, heq⟩ :=
    seen_finds small hoffset (hfinds header ram hpossible)
  obtain ⟨buffer', hbuffer', heq'⟩ :=
    seen_finds small' hoffset (hfinds header' ram' hpossible')
  rw [heq, heq']
  refine bannerInfo_congr (fun i hi => ?_)
    ((be32_eq_magic.2 hbuffer).trans (be32_eq_magic.2 hbuffer').symm)
  have hknown : headerKnown f i = some (f.data i) :=
    headerKnown_inside (Nat.lt_of_lt_of_le hi hread)
  rw [hpossible.headerFits i _ hknown, hpossible'.headerFits i _ hknown]

/-- For every header there is a memory. -/
theorem possible_of_header
    (bnrOffsets : BnrOffsets) (boot : InfoBuffers) (h : Fits (headerKnown f) header) :
    ∃ ram, Possible bnrOffsets boot f header ram :=
  ⟨_, h, fits_fill _ fun _ => 0⟩

/-- Where a banner can be found, some rest of the buffers makes the game valid. -/
theorem exists_valid
    (hfinds : FastMayFind bnrOffsets f header ∨ SlowMayFind bnrOffsets f header ram) :
    ∃ small, (seen bnrOffsets f header small ram).valid = true := by
  by_cases hfast : FastMayFind bnrOffsets f header
  · obtain ⟨hne, multi, hmay⟩ := hfast
    refine ⟨magicByte multi, ?_⟩
    rw [seen_fast hne (fill_magicByte hmay)]
    rfl
  · obtain ⟨hsize, hoffset, multi, hmay⟩ := hfinds.resolve_left hfast
    refine ⟨magicByte multi, ?_⟩
    rw [seen_slow hfast hsize hoffset (fill_magicByte hmay)]
    rfl

/-- If the result is alike and valid, the header has been read up to `MaxFSTSize`. -/
theorem SeenAlike.header_read
    (h : SeenAlike bnrOffsets boot f) (hpossible : Possible bnrOffsets boot f header ram)
    (hvalid : (seen bnrOffsets f header small ram).valid = true) :
    0x430 ≤ f.transferred 0 sizeofDiskHeader 0 := by
  by_contra hshort
  obtain ⟨other, hother⟩ : ∃ other, other =
      Function.update header 0x42F (header 0x42F + 1) := ⟨_, rfl⟩
  have hfits : Fits (headerKnown f) other := by
    intro i v hv
    have hi : i ≠ 0x42F := by
      rintro rfl
      rw [headerKnown_outside (by omega)] at hv
      cases hv
    rw [hother, Function.update_of_ne hi]
    exact hpossible.headerFits i v hv
  obtain ⟨ram', hpossible'⟩ := possible_of_header bnrOffsets boot hfits
  have heq := h header small ram other small ram' hpossible hpossible'
  have hvalid' : (seen bnrOffsets f other small ram').valid = true := by
    rw [← heq]
    exact hvalid
  have hsize : headerMaxFstSize header = headerMaxFstSize other := by
    rw [← seen_maxFstSize hvalid, ← seen_maxFstSize hvalid', heq]
  have hsame : ∀ i, i ≠ 0x42F → other i = header i := by
    intro i hi
    rw [hother, Function.update_of_ne hi]
  have hlast : header 0x42F = other 0x42F := by
    have h₀ := (header 0x42F).toNat_lt
    have h₁ := (other 0x42F).toNat_lt
    simp only [headerMaxFstSize, be32, Nat.reduceAdd, hsame 0x42C (by decide),
      hsame 0x42D (by decide), hsame 0x42E (by decide)] at hsize
    exact UInt8.toNat_inj.1 (by omega)
  rw [hother, Function.update_self, ← UInt8.toNat_inj, UInt8.toNat_add] at hlast
  have hlt := (header 0x42F).toNat_lt
  have hone : (1 : UInt8).toNat = 1 := rfl
  omega

/-- A magic that may be there and decides nothing else is known in full. -/
theorem isMagic_of_types
    (hmay : MayBeMagic known multi) (hstart : FromStart known)
    (htype : ∀ multi', MayBeMagic known multi' → multi' = multi) :
    IsMagic known multi := by
  refine hmay.isMagic hstart fun hlast => ?_
  have hother := htype _ (hmay.other hlast)
  cases multi <;> cases hother

/-- If the result is alike and valid, it is the same banner that is found. -/
theorem SeenAlike.finds
    (h : SeenAlike bnrOffsets boot f) (hpossible : Possible bnrOffsets boot f header ram)
    (hvalid : (seen bnrOffsets f header small ram).valid = true)
    (htype : (seen bnrOffsets f header small ram).bnrType = if multi then 1 else 0)
    (hpossible' : Possible bnrOffsets boot f header' ram') :
    FastFinds bnrOffsets f header' (seen bnrOffsets f header small ram).bnrOffset multi ∨
      SlowFinds bnrOffsets f header' ram' (seen bnrOffsets f header small ram).bnrOffset
        multi := by
  by_cases hfast : FastMayFind bnrOffsets f header'
  · left
    obtain ⟨hne, first, hmay⟩ := hfast
    have hseen : ∀ multi', MayBeMagic
        (fastKnown f (getBannerOffsetFast bnrOffsets header')) multi' →
        multi' = multi ∧ (seen bnrOffsets f header small ram).bnrOffset =
          getBannerOffsetFast bnrOffsets header' := by
      intro multi' hmay'
      have hbuffer : ∀ i < 4, fastBuf f (getBannerOffsetFast bnrOffsets header')
          (magicByte multi') i = magicByte multi' i := fill_magicByte hmay'
      have heq := h header small ram header' (magicByte multi') ram' hpossible hpossible'
      rw [seen_fast hne hbuffer] at heq
      rw [heq, bannerInfo_bnrType hbuffer] at htype
      rw [heq, bannerInfo_bnrOffset]
      exact ⟨bnrType_inj htype, rfl⟩
    obtain ⟨hfirst, hoffset⟩ := hseen first hmay
    rw [hfirst] at hmay
    rw [hoffset]
    exact ⟨rfl, isMagic_of_types hmay (fastKnown_fromStart f _) fun multi' hmay' =>
      (hseen multi' hmay').1⟩
  · right
    have heq := h header small ram header' small ram' hpossible hpossible'
    have hvalid' : (seen bnrOffsets f header' small ram').valid = true := by
      rw [← heq]
      exact hvalid
    rcases seen_valid hvalid' with ⟨hmay, _⟩ | ⟨hsize, hne, first, hmagic, _⟩
    · exact absurd hmay hfast
    · have hseen : ∀ multi', MayBeMagic
          (slowKnown f (getBannerOffsetFast bnrOffsets header') (searchFst ram').offset)
          multi' →
          multi' = multi ∧ (seen bnrOffsets f header small ram).bnrOffset =
            (searchFst ram').offset := by
        intro multi' hmay'
        have hbuffer : ∀ i < 4, slowBuf f (getBannerOffsetFast bnrOffsets header')
            (searchFst ram').offset (magicByte multi') i = magicByte multi' i :=
          fill_magicByte hmay'
        have heq' := h header small ram header' (magicByte multi') ram' hpossible hpossible'
        rw [seen_slow hfast hsize hne hbuffer] at heq'
        rw [heq', bannerInfo_bnrType hbuffer] at htype
        rw [heq', bannerInfo_bnrOffset]
        exact ⟨bnrType_inj htype, rfl⟩
      have hmay := mayBeMagic_of_fill hmagic
      obtain ⟨hfirst, hoffset⟩ := hseen first hmay
      rw [hfirst] at hmay
      rw [hoffset]
      exact ⟨hfast, hsize, rfl, isMagic_of_types hmay (slowKnown_fromStart f _ _)
        fun multi' hmay' => (hseen multi' hmay').1⟩

theorem SeenAlike.sameBanner
    (h : SeenAlike bnrOffsets boot f) (hsome : ¬ NoBanner bnrOffsets boot f) :
    SameBanner bnrOffsets boot f := by
  obtain ⟨header, ram, hpossible, hfinds⟩ : ∃ header ram,
      Possible bnrOffsets boot f header ram ∧
        (FastMayFind bnrOffsets f header ∨ SlowMayFind bnrOffsets f header ram) := by
    by_contra hno
    refine hsome fun header ram hpossible => ⟨fun hfast => ?_, fun hslow => ?_⟩
    · exact hno ⟨header, ram, hpossible, Or.inl hfast⟩
    · exact hno ⟨header, ram, hpossible, Or.inr hslow⟩
  obtain ⟨small, hvalid⟩ := exists_valid hfinds
  obtain ⟨multi, htype, hoffset⟩ : ∃ multi : Bool,
      (seen bnrOffsets f header small ram).bnrType = (if multi then 1 else 0) ∧
        (seen bnrOffsets f header small ram).bnrOffset ≠ 0 := by
    rcases seen_valid hvalid with ⟨hmay, multi, hmagic, heq⟩ | ⟨_, hne, multi, hmagic, heq⟩
    · rw [heq, bannerInfo_bnrOffset]
      exact ⟨multi, bannerInfo_bnrType hmagic, hmay.1⟩
    · rw [heq, bannerInfo_bnrOffset]
      exact ⟨multi, bannerInfo_bnrType hmagic, hne⟩
  exact ⟨h.header_read hpossible hvalid, _, multi, hoffset, fun header' ram' hpossible' =>
    h.finds hpossible hvalid htype hpossible'⟩

/-- The result is alike whatever is left in the buffers, just when the file tells it. -/
theorem seenAlike_iff :
    SeenAlike bnrOffsets boot f ↔ NoBanner bnrOffsets boot f ∨ SameBanner bnrOffsets boot f := by
  constructor
  · intro h
    by_cases hnone : NoBanner bnrOffsets boot f
    · exact Or.inl hnone
    · exact Or.inr (h.sameBanner hnone)
  · rintro (hnone | hsame)
    · intro header small ram header' small' ram' hpossible hpossible'
      rw [seen_noBanner hnone hpossible, seen_noBanner hnone hpossible']
    · exact hsame.alike

end SeenLemmas

end Disc
end Cubiboot
