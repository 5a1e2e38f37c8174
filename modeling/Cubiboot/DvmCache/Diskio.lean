import Cubiboot.Foundations.CopyRange
import Mathlib.Logic.Function.Basic

/-!
# Raw device access

`disk_read_raw` and `disk_write_raw` of `diskio.c`, seen from the block cache
above them.  All copying is in whole 512-byte sectors, so buffers, pages and
drives are indexed by sector.

What a driver answers is not decided here: `Storage` carries one outcome for
every raw read and every raw write that will be issued.  A failed read may
leave anything in its destination.  A failed write leaves the sectors alone,
as `ata_write`, `gcode_sd_write` and the IPL-side `tsd_sd_write` do.

Results: `diskReadRaw_ok` and `diskWriteRaw_ok`, what a transfer that succeeds does;
`diskWriteRaw_failed`, that a failed one changes no sector; and `diskWriteRaw_res`, that
on a known drive the outcome alone decides.
-/

namespace Cubiboot
namespace Dvm

open CopyRange

/-- `DVM_SECTOR_SZ`. -/
abbrev dvmSectorSz : Nat := 512

/-- The bytes of one sector. -/
abbrev SectorData := Fin dvmSectorSz → UInt8

/-- `DRESULT`. -/
inductive DResult where
  | resOk
  | resError
  | resWrprt
  | resNotrdy
  | resParerr
deriving DecidableEq, Repr

/-- What the driver does with one raw read. -/
inductive ReadOutcome where
  | delivered
  | failed (left : Nat → SectorData)

/-- The drives and the answers their drivers will give. -/
structure Storage where
  /-- Contents by drive number and sector. -/
  sectors : Nat → Nat → SectorData
  readOutcome : Nat → ReadOutcome
  writeOutcome : Nat → Bool
  /-- Raw reads issued so far. -/
  reads : Nat
  /-- Raw writes issued so far. -/
  writes : Nat

/-- `DEV_SDA`, `DEV_SDB`, `DEV_SDC`. -/
def diskIsSd (pdrv : Nat) : Bool :=
  pdrv == 0 || pdrv == 1 || pdrv == 2

/-- `DEV_ATAA`, `DEV_ATAB`, `DEV_ATAC`. -/
def diskIsAta (pdrv : Nat) : Bool :=
  pdrv == 3 || pdrv == 4 || pdrv == 5

/-- `DEV_GCLDR`. -/
def diskIsGcldr (pdrv : Nat) : Bool :=
  pdrv == 7

/-- The drives that have a driver. -/
def diskIsKnown (pdrv : Nat) : Bool :=
  diskIsSd pdrv || diskIsAta pdrv || diskIsGcldr pdrv

/-- Sectors of a drive from `sector` on. -/
def Storage.sectorsFrom
    (st : Storage) (pdrv sector : Nat) : Nat → SectorData :=
  fun i => st.sectors pdrv (sector + i)

/-- Result, destination and device after a raw read. -/
structure RawRead where
  res : DResult
  buff : Nat → SectorData
  storage : Storage

/-- `disk_read_raw` into place `place` of `buff`. -/
def diskReadRaw
    (st : Storage) (pdrv : Nat)
    (buff : Nat → SectorData) (place sector count : Nat) : RawRead :=
  if diskIsKnown pdrv then
    match st.readOutcome st.reads with
    | .delivered =>
        { res := .resOk
          buff := copyRange buff place count (st.sectorsFrom pdrv sector)
          storage := { st with reads := st.reads + 1 } }
    | .failed left =>
        { res := .resError
          buff := copyRange buff place count left
          storage := { st with reads := st.reads + 1 } }
  else
    { res := .resParerr, buff := buff, storage := st }

/-- Result and device after a raw write. -/
structure RawWrite where
  res : DResult
  storage : Storage

/-- `disk_write_raw` from place `place` of `buff`. -/
def diskWriteRaw
    (st : Storage) (pdrv : Nat)
    (buff : Nat → SectorData) (place sector count : Nat) : RawWrite :=
  if diskIsKnown pdrv then
    if st.writeOutcome st.writes then
      { res := .resOk
        storage :=
          { st with
            sectors :=
              Function.update st.sectors pdrv
                (copyRange (st.sectors pdrv) sector count
                  (fun i => buff (place + i)))
            writes := st.writes + 1 } }
    else
      { res := .resWrprt
        storage := { st with writes := st.writes + 1 } }
  else
    { res := .resParerr, storage := st }

section RawLemmas

variable {st : Storage} {pdrv : Nat}
variable {buff : Nat → SectorData} {place sector count : Nat}

/-- A raw read never changes a drive. -/
@[simp] theorem diskReadRaw_sectors :
    (diskReadRaw st pdrv buff place sector count).storage.sectors =
      st.sectors := by
  unfold diskReadRaw
  split
  · split <;> rfl
  · rfl

@[simp] theorem diskReadRaw_writeOutcome :
    (diskReadRaw st pdrv buff place sector count).storage.writeOutcome =
      st.writeOutcome := by
  unfold diskReadRaw
  split
  · split <;> rfl
  · rfl

@[simp] theorem diskReadRaw_writes :
    (diskReadRaw st pdrv buff place sector count).storage.writes =
      st.writes := by
  unfold diskReadRaw
  split
  · split <;> rfl
  · rfl

/-- A raw read that succeeds is of a known drive and delivers its sectors. -/
theorem diskReadRaw_ok
    (h : (diskReadRaw st pdrv buff place sector count).res = .resOk) :
    diskIsKnown pdrv = true ∧
      (diskReadRaw st pdrv buff place sector count).buff =
        copyRange buff place count (st.sectorsFrom pdrv sector) := by
  unfold diskReadRaw at h ⊢
  split at h
  · rename_i hknown
    rw [if_pos hknown]
    split at h
    · exact ⟨hknown, rfl⟩
    · cases h
  · cases h

@[simp] theorem diskWriteRaw_writeOutcome :
    (diskWriteRaw st pdrv buff place sector count).storage.writeOutcome =
      st.writeOutcome := by
  unfold diskWriteRaw
  split
  · split <;> rfl
  · rfl

/-- A raw write that succeeds puts the buffer on the drive. -/
theorem diskWriteRaw_ok
    (h : (diskWriteRaw st pdrv buff place sector count).res = .resOk) :
    (diskWriteRaw st pdrv buff place sector count).storage.sectors =
      Function.update st.sectors pdrv
        (copyRange (st.sectors pdrv) sector count
          (fun i => buff (place + i))) := by
  unfold diskWriteRaw at h ⊢
  split at h
  · rename_i hknown
    rw [if_pos hknown]
    split at h
    · rename_i hok
      rw [if_pos hok]
    · cases h
  · cases h

/-- A raw write that succeeds is of a known drive. -/
theorem diskWriteRaw_known
    (h : (diskWriteRaw st pdrv buff place sector count).res = .resOk) :
    diskIsKnown pdrv = true := by
  unfold diskWriteRaw at h
  split at h
  · assumption
  · cases h

/-- A raw write that fails changes no sector. -/
theorem diskWriteRaw_failed
    (h : (diskWriteRaw st pdrv buff place sector count).res ≠ .resOk) :
    (diskWriteRaw st pdrv buff place sector count).storage.sectors =
      st.sectors := by
  unfold diskWriteRaw at h ⊢
  split at h
  · rename_i hknown
    rw [if_pos hknown]
    split at h
    · exact absurd rfl h
    · rename_i hno
      rw [if_neg hno]
  · rename_i hknown
    rw [if_neg hknown]

/-- On a known drive the outcome alone decides the result of a raw write. -/
theorem diskWriteRaw_res
    (hknown : diskIsKnown pdrv = true) :
    (diskWriteRaw st pdrv buff place sector count).res = .resOk ↔
      st.writeOutcome st.writes = true := by
  unfold diskWriteRaw
  rw [if_pos hknown]
  split <;> simp_all

/-- A raw write of no sectors changes none. -/
theorem diskWriteRaw_empty :
    (diskWriteRaw st pdrv buff place sector 0).storage.sectors = st.sectors := by
  unfold diskWriteRaw
  split
  · split
    · rw [copyRange_zero, Function.update_eq_self]
    · rfl
  · rfl

theorem diskWriteRaw_writes
    (hknown : diskIsKnown pdrv = true) :
    (diskWriteRaw st pdrv buff place sector count).storage.writes =
      st.writes + 1 := by
  unfold diskWriteRaw
  rw [if_pos hknown]
  split <;> rfl

end RawLemmas

end Dvm
end Cubiboot
