import Cubiboot.Boot.Iso9660
import Cubiboot.Disc.ReadData

/-!
# The boot file of a disc image

`get_dol_iso9660` on the image of a disc, whatever becomes of its reads.  It finds the
first boot record, the catalog that the record points to, and the file that the first
entry of the catalog points to.  Both pointers count sectors, and are multiplied in words:
from sector `2 ^ 21` on another place is read, or returned, than the one that is meant.

Results: `findBootRecord_eq_some`, where the search ends, by induction on the
descriptors that are left; `ReadsCatalog.value`, what a lookup that reads a catalog
returns; `exists_readsCatalog`, that only such a lookup returns a place;
`el_torito_exact_iff`, for which images and reads the place is the one that is meant.
-/

namespace Cubiboot
namespace Boot

open Disc

/-- What becomes of a read: it delivers the bytes of the image, or it fails and leaves
anything in the buffer. -/
inductive IsoOutcome where
  | delivered
  | failed (result : { r : Int // r ≠ 0 }) (left : Nat → UInt8)

def IsoOutcome.result : IsoOutcome → Int
  | .delivered => 0
  | .failed result _ => result

/-- The buffer after a read from a place of the image. -/
def IsoOutcome.bytes (o : IsoOutcome) (image : Nat → UInt8) (place : Nat) : Nat → UInt8 :=
  match o with
  | .delivered => fromPlace image place
  | .failed _ left => left

/-- A disc, and what becomes of the reads of `get_dol_iso9660`. -/
structure IsoDisc where
  image : Nat → UInt8
  magicRead : IsoOutcome
  sectorRead : Nat → IsoOutcome
  catalogRead : IsoOutcome

/-- What the reads before the one of the catalog come to. -/
def IsoDisc.descriptors (d : IsoDisc) : IsoReads where
  magicResult := d.magicRead.result
  magic := d.magicRead.bytes d.image 0x8000
  sectorResult := fun i => (d.sectorRead i).result
  sector := fun i => (d.sectorRead i).bytes d.image (i * isoSectorSize)
  catalogResult := d.catalogRead.result
  catalog := fun _ => 0

/-- `catalog_offset`, with the boot record in the buffer. -/
def catalogOffset (record : Nat → UInt8) : Nat :=
  swapped32 record 71 * isoSectorSize % 0x100000000

/-- What all reads come to: that of the catalog is from `catalog_offset`. -/
def IsoDisc.reads (d : IsoDisc) : IsoReads :=
  match findBootRecord d.descriptors (256 - 16) 16 with
  | none => d.descriptors
  | some i =>
      { d.descriptors with
        catalog := d.catalogRead.bytes d.image (catalogOffset (d.descriptors.sector i)) }

/-- The bytes of a sector. -/
def isoSector (image : Nat → UInt8) (i : Nat) : Nat → UInt8 :=
  fromPlace image (i * isoSectorSize)

/-- A descriptor has `"CD001"`. -/
def IsStandard (descriptor : Nat → UInt8) : Prop :=
  ∀ k < 5, descriptor (1 + k) = standardId k

def IsBootRecord (descriptor : Nat → UInt8) : Prop :=
  descriptor 0 = 0 ∧ IsStandard descriptor

/-- A boot record has `"EL TORITO SPECIFICATION"`, with its end. -/
def IsElTorito (record : Nat → UInt8) : Prop :=
  ∀ k < 24, record (7 + k) = elTorito k

/-- The first boot record from sector 16 on, with no terminator before it. -/
structure FirstBootRecord (image : Nat → UInt8) (i : Nat) : Prop where
  start : 16 ≤ i
  stop : i < 256
  record : IsBootRecord (isoSector image i)
  before : ∀ j, 16 ≤ j → j < i →
    ¬ IsBootRecord (isoSector image j) ∧ isoSector image j 0 ≠ 255

/-- The sector of the catalog, as the boot record in a sector has it. -/
def catalogAddress (image : Nat → UInt8) (i : Nat) : Nat :=
  swapped32 (isoSector image i) 71

/-- The sector of the boot file, in the default entry of a catalog. -/
def loadAddress (image : Nat → UInt8) (place : Nat) : Nat :=
  swapped32 (fromPlace image place) (32 + 8)

/--
What is returned, other than 0, is the place of the boot file of the disc: the one that the
catalog has, which has been read from the place that the first boot record has.
-/
def IsoDisc.Exact (d : IsoDisc) : Prop :=
  getDolIso9660 d.reads ≠ 0 →
    IsStandard (isoSector d.image 16) ∧
      ∃ i, FirstBootRecord d.image i ∧ IsElTorito (isoSector d.image i) ∧
        d.catalogRead = .delivered ∧
        catalogOffset (d.reads.sector i) = isoSectorSize * catalogAddress d.image i ∧
        getDolIso9660 d.reads =
          isoSectorSize * loadAddress d.image (isoSectorSize * catalogAddress d.image i)

/-- The lookup reads the catalog of the boot record in sector `i`. -/
structure ReadsCatalog (d : IsoDisc) (i : Nat) : Prop where
  magicRead : d.magicRead = .delivered
  standard : IsStandard (isoSector d.image 16)
  sectorReads : ∀ j, 16 ≤ j → j ≤ i → d.sectorRead j = .delivered
  first : FirstBootRecord d.image i
  specification : IsElTorito (isoSector d.image i)
  catalogRead : d.catalogRead = .delivered

/-- The addresses of the catalog in a boot record are below sector `2 ^ 21`; or 0 is
returned, since the address that is found is a multiple of `2 ^ 21`. -/
def AddressesFit (image : Nat → UInt8) (i : Nat) : Prop :=
  (catalogAddress image i < 0x200000 ∧
      loadAddress image (isoSectorSize * catalogAddress image i) < 0x200000) ∨
    loadAddress image (isoSectorSize * catalogAddress image i % 0x100000000) % 0x200000 = 0

section Stages

variable {r : IsoReads} {left i j : Nat}

theorem isStandard_iff {descriptor : Nat → UInt8} :
    strncmpEq (fromPlace descriptor 1) standardId 5 = true ↔ IsStandard descriptor :=
  strncmpEq_iff (by decide)

theorem isElTorito_iff {record : Nat → UInt8} :
    strncmpEq (fromPlace record 7) elTorito 24 = true ↔ IsElTorito record :=
  strncmpEq_iff (by decide)

theorem isBootRecord_iff {descriptor : Nat → UInt8} :
    (descriptor 0 = 0 ∧ strncmpEq (fromPlace descriptor 1) standardId 5 = true) ↔
      IsBootRecord descriptor :=
  and_congr_right fun _ => isStandard_iff

/-- From sector `i` on the reads go well, and sector `j` has the first boot record. -/
structure Finds (r : IsoReads) (i j : Nat) : Prop where
  le : i ≤ j
  reads : ∀ k, i ≤ k → k ≤ j → r.sectorResult k = 0
  record : IsBootRecord (r.sector j)
  before : ∀ k, i ≤ k → k < j → ¬ IsBootRecord (r.sector k) ∧ r.sector k 0 ≠ 255

theorem Finds.read (h : Finds r i j) : r.sectorResult i = 0 :=
  h.reads i (Nat.le_refl i) h.le

theorem finds_here (hrecord : IsBootRecord (r.sector i)) (hread : r.sectorResult i = 0) :
    Finds r i j ↔ i = j := by
  constructor
  · intro h
    rcases Nat.eq_or_lt_of_le h.le with heq | hlt
    · exact heq
    · exact absurd hrecord (h.before i (Nat.le_refl i) hlt).1
  · rintro rfl
    refine ⟨Nat.le_refl i, fun k hik hki => ?_, hrecord, fun k hik hki => ?_⟩
    · rw [Nat.le_antisymm hki hik]
      exact hread
    · exact absurd hki (Nat.not_lt.2 hik)

theorem Finds.not_end (h : Finds r i j) : r.sector i 0 ≠ 255 := by
  rcases Nat.eq_or_lt_of_le h.le with rfl | hlt
  · rw [h.record.1]
    decide
  · exact (h.before i (Nat.le_refl i) hlt).2

theorem finds_later
    (hrecord : ¬ IsBootRecord (r.sector i)) (hread : r.sectorResult i = 0)
    (hend : r.sector i 0 ≠ 255) :
    Finds r i j ↔ Finds r (i + 1) j := by
  constructor
  · intro h
    have hne : i ≠ j := by
      rintro rfl
      exact hrecord h.record
    have hle := h.le
    exact ⟨by omega, fun k hik => h.reads k (by omega), h.record,
      fun k hik => h.before k (by omega)⟩
  · intro h
    have hle := h.le
    refine ⟨by omega, fun k hik hkj => ?_, h.record, fun k hik hkj => ?_⟩
    · rcases Nat.eq_or_lt_of_le hik with rfl | hlt
      · exact hread
      · exact h.reads k hlt hkj
    · rcases Nat.eq_or_lt_of_le hik with rfl | hlt
      · exact ⟨hrecord, hend⟩
      · exact h.before k hlt hkj

/-- The loop stops at the first boot record, when it comes to it. -/
theorem findBootRecord_eq_some :
    findBootRecord r left i = some j ↔ j < i + left ∧ Finds r i j := by
  induction left generalizing i with
  | zero =>
      refine iff_of_false (fun h => by cases h) ?_
      rintro ⟨hlt, hfinds⟩
      exact absurd hfinds.le (Nat.not_le.2 hlt)
  | succ left ih =>
      rw [findBootRecord]
      by_cases hread : r.sectorResult i = 0
      · rw [if_neg (not_not.2 hread)]
        by_cases hrecord : IsBootRecord (r.sector i)
        · rw [if_pos (isBootRecord_iff.2 hrecord), finds_here hrecord hread]
          constructor
          · intro h
            obtain rfl := Option.some.inj h
            exact ⟨by omega, rfl⟩
          · rintro ⟨-, rfl⟩
            rfl
        · rw [if_neg fun h => hrecord (isBootRecord_iff.1 h)]
          by_cases hend : r.sector i 0 = 255
          · rw [if_pos hend]
            exact iff_of_false (fun h => by cases h) fun h => h.2.not_end hend
          · rw [if_neg hend, ih, finds_later hrecord hread hend, Nat.add_right_comm, Nat.add_assoc]
      · rw [if_pos hread]
        exact iff_of_false (fun h => by cases h) fun h => hread h.2.read

theorem IsoOutcome.result_eq_zero {o : IsoOutcome} : o.result = 0 ↔ o = .delivered := by
  cases o with
  | delivered => exact iff_of_true rfl rfl
  | failed result left => exact iff_of_false result.2 (fun h => by cases h)

theorem findBootRecord_congr {r' : IsoReads}
    (hresult : r'.sectorResult = r.sectorResult) (hsector : r'.sector = r.sector) :
    findBootRecord r' left i = findBootRecord r left i := by
  induction left generalizing i with
  | zero => rfl
  | succ left ih => rw [findBootRecord, findBootRecord, hresult, hsector, ih]

end Stages

/-- What `dvd_read_data` does to `iso_sector_buf`, wherever that is, is one of the outcomes. -/
theorem isoSector_outcome
    {dvdRead : DvdRead} {image memory staging : Nat → UInt8} {size dst offset : Nat}
    (hdrive : Delivers dvdRead image size) (hoffset : offset % isoSectorSize = 0)
    (hsize : offset + isoSectorSize ≤ size) :
    ∃ fuel r, patchesDvdReadData dvdRead dst isoSectorSize offset fuel memory staging = some r ∧
      ∃ o : IsoOutcome, r.1 = o.result ∧
        ∀ k < isoSectorSize, r.2.memory (dst + k) = o.bytes image offset k := by
  have hfits : FitsStaging isoSectorSize offset := by
    left
    simp only [isoSectorSize] at hoffset
    omega
  obtain ⟨fuel, r, hr, hexact⟩ :=
    readsExactly_of_fits hfits dvdRead image size memory staging hdrive hsize
  refine ⟨fuel, r, hr, ?_⟩
  by_cases hok : r.1 = 0
  · exact ⟨.delivered, hok, hexact.bytes hok⟩
  · exact ⟨.failed ⟨r.1, hok⟩ fun k => r.2.memory (dst + k), rfl, fun _ _ => rfl⟩

section Discs

variable {d : IsoDisc} {i : Nat}

theorem IsoOutcome.bytes_of_result {o : IsoOutcome} (h : o.result = 0) (image : Nat → UInt8)
    (place : Nat) : o.bytes image place = fromPlace image place := by
  rw [IsoOutcome.result_eq_zero.1 h]
  rfl

/-- The catalog is all that is added to the reads before it. -/
theorem reads_eq : ∃ catalog, d.reads = { d.descriptors with catalog := catalog } := by
  rw [IsoDisc.reads]
  split
  · exact ⟨_, rfl⟩
  · exact ⟨_, rfl⟩

theorem findBootRecord_reads :
    findBootRecord d.reads (256 - 16) 16 = findBootRecord d.descriptors (256 - 16) 16 := by
  obtain ⟨catalog, hreads⟩ := reads_eq (d := d)
  rw [hreads]
  exact findBootRecord_congr rfl rfl

theorem descriptors_sector (h : d.sectorRead i = .delivered) :
    d.descriptors.sector i = isoSector d.image i :=
  IsoOutcome.bytes_of_result (IsoOutcome.result_eq_zero.2 h) d.image _

/-- What the loop finds is the first boot record of the image. -/
theorem findBootRecord_descriptors :
    findBootRecord d.descriptors (256 - 16) 16 = some i ↔
      (∀ j, 16 ≤ j → j ≤ i → d.sectorRead j = .delivered) ∧ FirstBootRecord d.image i := by
  rw [findBootRecord_eq_some]
  constructor
  · rintro ⟨hlt, hfinds⟩
    have hread : ∀ j, 16 ≤ j → j ≤ i → d.sectorRead j = .delivered := fun j hj hji =>
      IsoOutcome.result_eq_zero.1 (hfinds.reads j hj hji)
    refine ⟨hread, hfinds.le, by omega, ?_, fun j hj hji => ?_⟩
    · rw [← descriptors_sector (hread i hfinds.le (Nat.le_refl i))]
      exact hfinds.record
    · rw [← descriptors_sector (hread j hj (Nat.le_of_lt hji))]
      exact hfinds.before j hj hji
  · rintro ⟨hread, hfirst⟩
    have hstop := hfirst.stop
    refine ⟨by omega, hfirst.start, fun j hj hji => ?_, ?_, fun j hj hji => ?_⟩
    · exact IsoOutcome.result_eq_zero.2 (hread j hj hji)
    · rw [descriptors_sector (hread i hfirst.start (Nat.le_refl i))]
      exact hfirst.record
    · rw [descriptors_sector (hread j hj (Nat.le_of_lt hji))]
      exact hfirst.before j hj hji

/-- The sector of the boot record, as it was read. -/
theorem ReadsCatalog.sector (h : ReadsCatalog d i) :
    d.reads.sector i = isoSector d.image i := by
  obtain ⟨catalog, hreads⟩ := reads_eq (d := d)
  rw [hreads]
  exact descriptors_sector (h.sectorReads i h.first.start (Nat.le_refl i))

theorem catalogOffset_isoSector (image : Nat → UInt8) (i : Nat) :
    catalogOffset (isoSector image i) = isoSectorSize * catalogAddress image i % 0x100000000 := by
  rw [catalogOffset, catalogAddress, Nat.mul_comm]

/-- A lookup that reads a catalog returns the place that it finds there, as a word. -/
theorem ReadsCatalog.value (h : ReadsCatalog d i) :
    getDolIso9660 d.reads =
      isoSectorSize *
          loadAddress d.image (isoSectorSize * catalogAddress d.image i % 0x100000000) %
        0x100000000 := by
  have hfind : findBootRecord d.descriptors (256 - 16) 16 = some i :=
    findBootRecord_descriptors.2 ⟨h.sectorReads, h.first⟩
  have hsector : d.descriptors.sector i = isoSector d.image i :=
    descriptors_sector (h.sectorReads i h.first.start (Nat.le_refl i))
  have hreads : d.reads =
      { d.descriptors with
        catalog := fromPlace d.image
          (isoSectorSize * catalogAddress d.image i % 0x100000000) } := by
    rw [IsoDisc.reads, hfind, ← catalogOffset_isoSector, ← hsector, h.catalogRead]
    rfl
  have hmagic : d.reads.magicResult = 0 := by
    rw [hreads]
    exact IsoOutcome.result_eq_zero.2 h.magicRead
  have hstandard : strncmpEq (fromPlace d.reads.magic 1) standardId 5 = true := by
    rw [hreads]
    show strncmpEq (fromPlace (d.magicRead.bytes d.image 0x8000) 1) standardId 5 = true
    rw [h.magicRead]
    exact isStandard_iff.2 h.standard
  have htorito : strncmpEq (fromPlace (d.reads.sector i) 7) elTorito 24 = true := by
    rw [h.sector]
    exact isElTorito_iff.2 h.specification
  have hcatalog : d.reads.catalogResult = 0 := by
    rw [hreads]
    exact IsoOutcome.result_eq_zero.2 h.catalogRead
  have hload : swapped32 d.reads.catalog (32 + 8) =
      loadAddress d.image (isoSectorSize * catalogAddress d.image i % 0x100000000) := by
    rw [hreads]
    rfl
  rw [getDolIso9660, if_neg (not_not.2 hmagic), hstandard, if_neg (by decide),
    findBootRecord_reads, hfind]
  show (if strncmpEq (fromPlace (d.reads.sector i) 7) elTorito 24 = false then 0
    else if d.reads.catalogResult ≠ 0 then 0
    else swapped32 d.reads.catalog (32 + 8) * isoSectorSize % 0x100000000) = _
  rw [htorito, if_neg (by decide), if_neg (not_not.2 hcatalog), hload, Nat.mul_comm]

/-- A lookup that returns a place has read a catalog. -/
theorem exists_readsCatalog (h : getDolIso9660 d.reads ≠ 0) : ∃ i, ReadsCatalog d i := by
  obtain ⟨catalog, hreads⟩ := reads_eq (d := d)
  rw [getDolIso9660] at h
  split at h
  · exact absurd rfl h
  · rename_i hmagic
    split at h
    · exact absurd rfl h
    · rename_i hstandard
      split at h
      · exact absurd rfl h
      · rename_i i hfind
        split at h
        · exact absurd rfl h
        · rename_i htorito
          split at h
          · exact absurd rfl h
          · rename_i hcatalog
            rw [findBootRecord_reads] at hfind
            obtain ⟨hsectors, hfirst⟩ := findBootRecord_descriptors.1 hfind
            rw [hreads, not_not] at hmagic hcatalog
            rw [hreads, Bool.not_eq_false] at hstandard htorito
            have hmagicRead := IsoOutcome.result_eq_zero.1 hmagic
            refine ⟨i, hmagicRead, ?_, hsectors, hfirst, ?_,
              IsoOutcome.result_eq_zero.1 hcatalog⟩
            · have hbytes : d.descriptors.magic = isoSector d.image 16 := by
                rw [IsoDisc.descriptors, hmagicRead]
                rfl
              rw [← hbytes]
              exact isStandard_iff.1 hstandard
            · rw [← descriptors_sector (hsectors i hfirst.start (Nat.le_refl i))]
              exact isElTorito_iff.1 htorito

theorem FirstBootRecord.unique {image : Nat → UInt8} {i j : Nat}
    (hi : FirstBootRecord image i) (hj : FirstBootRecord image j) : i = j := by
  rcases Nat.lt_trichotomy i j with hlt | heq | hlt
  · exact absurd hi.record (hj.before i hi.start hlt).1
  · exact heq
  · exact absurd hj.record (hi.before j hj.start hlt).1

/-- Once a catalog is read, its addresses decide. -/
theorem ReadsCatalog.exact_iff (h : ReadsCatalog d i) : d.Exact ↔ AddressesFit d.image i := by
  have hvalue := h.value
  constructor
  · intro hexact
    by_cases hzero : getDolIso9660 d.reads = 0
    · right
      rw [hvalue] at hzero
      simp only [isoSectorSize] at *
      omega
    · left
      obtain ⟨-, j, hfirst, -, -, hcatalog, hplace⟩ := hexact hzero
      obtain rfl := h.first.unique hfirst
      rw [h.sector, catalogOffset_isoSector] at hcatalog
      rw [hcatalog] at hvalue
      rw [hplace] at hvalue
      simp only [isoSectorSize] at *
      omega
  · intro hfit hne
    rcases hfit with ⟨hcatalog, hload⟩ | hmultiple
    · have hoffset : isoSectorSize * catalogAddress d.image i % 0x100000000 =
          isoSectorSize * catalogAddress d.image i := by
        refine Nat.mod_eq_of_lt ?_
        simp only [isoSectorSize]
        omega
      rw [hoffset] at hvalue
      refine ⟨h.standard, i, h.first, h.specification, h.catalogRead, ?_, ?_⟩
      · rw [h.sector, catalogOffset_isoSector, hoffset]
      · rw [hvalue]
        refine Nat.mod_eq_of_lt ?_
        simp only [isoSectorSize] at *
        omega
    · refine absurd ?_ hne
      rw [hvalue]
      simp only [isoSectorSize] at *
      omega

/--
Whatever the image and the reads: a place that is returned is that of the boot file, read
from the catalog of the first boot record, exactly when in no catalog that is read an
address passes the end of a word.
-/
theorem el_torito_exact_iff (d : IsoDisc) :
    d.Exact ↔ ∀ i, ReadsCatalog d i → AddressesFit d.image i := by
  constructor
  · exact fun hexact i h => h.exact_iff.1 hexact
  · intro hfit hne
    obtain ⟨i, h⟩ := exists_readsCatalog hne
    exact h.exact_iff.2 (hfit i h) hne

end Discs

/-- A boot record, up to its pointer to the catalog in sector 20. -/
def sampleRecord : List UInt8 :=
  [0, 0x43, 0x44, 0x30, 0x30, 0x31, 1,
    0x45, 0x4C, 0x20, 0x54, 0x4F, 0x52, 0x49, 0x54, 0x4F, 0x20, 0x53, 0x50, 0x45, 0x43,
    0x49, 0x46, 0x49, 0x43, 0x41, 0x54, 0x49, 0x4F, 0x4E] ++
    List.replicate 41 0 ++ [20, 0, 0, 0]

/-- The record is in sector 16, and the catalog points to sector `0x200001`. -/
def farFileImage (place : Nat) : UInt8 :=
  if place < 0x8000 then 0
  else if place < 41000 then sampleRecord.getD (place - 0x8000) 0
  else [1, 0, 0x20, 0].getD (place - 41000) 0

def farFileDisc : IsoDisc where
  image := farFileImage
  magicRead := .delivered
  sectorRead := fun _ => .delivered
  catalogRead := .delivered

theorem farFile_readsCatalog : ReadsCatalog farFileDisc 16 where
  magicRead := rfl
  standard := show ∀ k < 5, farFileImage (0x8000 + (1 + k)) = standardId k by decide
  sectorReads := fun _ _ _ => rfl
  first :=
    { start := Nat.le_refl 16
      stop := by decide
      record := ⟨rfl, show ∀ k < 5, farFileImage (0x8000 + (1 + k)) = standardId k by decide⟩
      before := fun j hj hlt => absurd hlt (Nat.not_lt.2 hj) }
  specification := show ∀ k < 24, farFileImage (0x8000 + (7 + k)) = elTorito k by decide
  catalogRead := rfl

/-- The place of the file is cut to that of sector 1. -/
theorem far_file_is_cut : getDolIso9660 farFileDisc.reads = 2048 ∧ ¬ farFileDisc.Exact := by
  have hcatalog : catalogAddress farFileDisc.image 16 = 20 := by decide
  have hload : loadAddress farFileDisc.image (isoSectorSize * 20) = 0x200001 := by decide
  have hoffset : isoSectorSize * 20 % 0x100000000 = isoSectorSize * 20 := rfl
  constructor
  · rw [farFile_readsCatalog.value, hcatalog, hoffset, hload]
    rfl
  · intro hexact
    have hfit := farFile_readsCatalog.exact_iff.1 hexact
    rw [AddressesFit, hcatalog, hoffset, hload] at hfit
    exact absurd hfit (by decide)

end Boot
end Cubiboot
