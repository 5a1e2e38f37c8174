import Cubiboot.Drives.Ata
import Cubiboot.Drives.Gcode
import Cubiboot.Drives.Sd
import Cubiboot.DvmCache.Diskio

/-!
# Raw reads

`disk_read_raw` of `diskio.c`, down to the commands that its drivers give.  The
number of a sector has 64 bits; the drivers take 32 of them.

Which driver is called depends on the number of the drive: SD cards in the slots and in
serial port 2, hard disks behind IDE-EXI, and a GC Loader. Each has its own limits (the
addresses of a card in bytes, commands with 28 bits, blocks counted in 32 bits), and the
loop of the driver puts the blocks one after the other into the destination.

Results: `diskReadRaw_own_iff`, for which sectors and counts no drive ever delivers
other sectors than the ones that were asked for; `diskReadRaw_truncates`, a sector
beyond 2 TiB; `ataRead_lost_write`, a drive that misses the write of a register.
-/

namespace Cubiboot
namespace Drives

open Dvm Words

/-- What the drivers have learned about the drives: `addressing_block`, `ata_lba48`. -/
structure DriverFlags where
  addressingBlock : Bool
  ataLba48 : Nat → Bool

/-- What happens on the buses, and what the reads before have left. -/
structure BusEvents where
  fuel : Nat
  sd : SdEvents
  sdState : SdState
  ata : AtaEvents
  ataState : AtaState
  gcode : GcodeEvents
  hasGcode : Int

/-- The channel of `ata_port`. -/
def ataChannel (pdrv : Nat) : Nat :=
  if pdrv = 5 then 0 else pdrv - 3

/-- `RES_OK` or `RES_ERROR`, from the result of a driver. -/
def rawResult (r : Bool × Bytes) : DResult × Bytes :=
  (if r.1 then .resOk else .resError, r.2)

/-- `disk_read_raw` from a drive with this medium, into a buffer at `data`. -/
def diskReadRaw
    (flags : DriverFlags) (card : SdCard) (ev : BusEvents) (pdrv data sector count : Nat)
    (buffer : Bytes) : Option (DResult × Bytes) :=
  if diskIsSd pdrv then
    (tsdSdRead ev.sd card ev.fuel flags.addressingBlock (word sector) count ev.sdState
      buffer).map rawResult
  else if diskIsAta pdrv then
    (ataRead ev.ata card.medium ev.fuel (flags.ataLba48 (ataChannel pdrv)) (word sector)
      count ev.ataState buffer).map rawResult
  else if diskIsGcldr pdrv then
    (gcodeSdRead ev.gcode card.medium ev.fuel ev.hasGcode (word sector) data count
      buffer).map rawResult
  else
    some (.resParerr, buffer)

/--
Whatever the medium and whatever happens, a raw read that reports success has
delivered the sectors it was asked for, if all writes to the registers of a
drive behind IDE-EXI reach it.
-/
def ReadsOwnSectors
    (flags : DriverFlags) (blockAddressed : Bool) (pdrv data sector count : Nat) : Prop :=
  ∀ (medium : Bytes) (ev : BusEvents) (buffer out : Bytes), ev.ata.WritesReach →
    diskReadRaw flags ⟨blockAddressed, medium⟩ ev pdrv data sector count buffer =
        some (.resOk, out) →
      HasBlocks out (sectorsFrom medium sector) count

/-- The sectors that a drive can be asked for. -/
def RawReaches
    (flags : DriverFlags) (blockAddressed : Bool) (pdrv data sector count : Nat) : Prop :=
  if diskIsSd pdrv then
    SdReaches blockAddressed flags.addressingBlock sector count
  else if diskIsAta pdrv then
    AtaReaches (flags.ataLba48 (ataChannel pdrv)) sector count
  else if diskIsGcldr pdrv then
    GcodeReaches data sector count
  else
    True

variable {flags : DriverFlags} {card : SdCard} {ev : BusEvents} {buffer out : Bytes}

/-- A driver's success is the success of the raw read. -/
theorem map_rawResult_ok
    {r : Option (Bool × Bytes)} :
    r.map rawResult = some (.resOk, out) ↔ r = some (true, out) := by
  constructor
  · intro h
    obtain ⟨⟨ok, out'⟩, rfl, heq⟩ := Option.map_eq_some_iff.1 h
    simp only [rawResult, Prod.mk.injEq] at heq
    obtain ⟨hres, rfl⟩ := heq
    cases ok with
    | true => rfl
    | false => cases hres
  · rintro rfl
    rfl

/-- Events in which nothing has happened, but for those of one driver. -/
def quietEvents : BusEvents where
  fuel := 0
  sd := answering
  sdState := sdStart
  ata := ready
  ataState := ⟨0, ready.signature, none, 0, 0⟩
  gcode := loading
  hasGcode := 1

/--
A raw read never delivers another sector exactly where the drive can be asked
for all the sectors of the request.
-/
theorem diskReadRaw_own_iff
    (flags : DriverFlags) (blockAddressed : Bool) (pdrv data sector count : Nat) :
    ReadsOwnSectors flags blockAddressed pdrv data sector count ↔
      RawReaches flags blockAddressed pdrv data sector count := by
  simp only [ReadsOwnSectors, RawReaches, diskReadRaw]
  by_cases hsd : diskIsSd pdrv = true
  · simp only [if_pos hsd, map_rawResult_ok]
    rw [← sd_neverAnother_iff]
    constructor
    · intro h medium events buffer out hr
      exact h medium
        { quietEvents with fuel := events.1, sd := events.2.1, sdState := events.2.2 }
        buffer out ready_writesReach hr
    · intro h medium ev buffer out _ hr
      exact h medium (ev.fuel, ev.sd, ev.sdState) buffer out hr
  · simp only [if_neg hsd]
    by_cases hata : diskIsAta pdrv = true
    · simp only [if_pos hata, map_rawResult_ok]
      rw [← ata_neverAnother_iff]
      constructor
      · intro h medium events buffer out hr
        exact h medium
          { quietEvents with
            fuel := events.1, ata := events.2.1.1, ataState := events.2.2 }
          buffer out events.2.1.2 hr
      · intro h medium ev buffer out hreach hr
        exact h medium (ev.fuel, ⟨ev.ata, hreach⟩, ev.ataState) buffer out hr
    · simp only [if_neg hata]
      by_cases hgc : diskIsGcldr pdrv = true
      · simp only [if_pos hgc, map_rawResult_ok]
        rw [← gcode_neverAnother_iff]
        constructor
        · intro h medium events buffer out hr
          exact h medium
            { quietEvents with
              fuel := events.1, gcode := events.2.1, hasGcode := events.2.2 }
            buffer out ready_writesReach hr
        · intro h medium ev buffer out _ hr
          exact h medium (ev.fuel, ev.gcode, ev.hasGcode) buffer out hr
      · simp only [if_neg hgc, iff_true]
        intro medium ev buffer out _ hr
        cases hr

/-- A drive behind IDE-EXI with 48-bit commands. -/
def bigDrive : DriverFlags where
  addressingBlock := true
  ataLba48 := fun _ => true

/-- Sector `2 ^ 32 + 5` of a drive with 48-bit commands is read as sector 5. -/
theorem diskReadRaw_truncates :
    (∃ out, diskReadRaw bigDrive ⟨true, markedMedium (5 * 512)⟩ quietEvents 3 0
        0x100000005 1 (fun _ => 0) = some (.resOk, out) ∧ out 0 = 1 ∧
      sectorsFrom (markedMedium (5 * 512)) 0x100000005 0 0 = 0) ∧
    ¬ ReadsOwnSectors bigDrive true 3 0 0x100000005 1 := by
  refine ⟨⟨_, rfl, by decide +kernel, by decide +kernel⟩, fun h => ?_⟩
  have hreach := (diskReadRaw_own_iff bigDrive true 3 0 0x100000005 1).1 h
  have hsd : diskIsSd 3 = false := rfl
  have hata : diskIsAta 3 = true := rfl
  simp only [RawReaches, hsd, hata, Bool.false_eq_true, if_false, if_true, AtaReaches,
    bigDrive] at hreach
  omega

/-- A drive for which the write of the low byte of the sector is lost. -/
def losing : AtaEvents :=
  { ready with writeSelect := fun n => n ≠ 3 }

/-- The drive then reads the sector whose number it still has. -/
theorem ataRead_lost_write :
    ∃ out, ataRead losing (markedMedium (7 * 512)) 0 false 5 1
        ⟨0, { ready.signature with lbalo := ⟨7, 0⟩ }, none, 0, 0⟩ (fun _ => 0) =
        some (true, out) ∧ out 0 = 1 :=
  ⟨_, rfl, by decide +kernel⟩

end Drives
end Cubiboot
