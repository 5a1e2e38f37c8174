import Cubiboot.Drives.AtaWaiting
import Cubiboot.Drives.ColdBoot
import Cubiboot.Drives.Gcode
import Cubiboot.Drives.SdWaiting

/-!
# Reads that wait for a device

What the drivers do when a device answers anything at all.  A transfer of the disc
interface ends when the drive says so: the bit of its register is polled, and is given so
many polls, as is the bit of the transfer of a sector by IDE-EXI.  In the native mode of
the EXI drivers the start bit of every transfer is polled as well, and for that there is no
number of polls after which the driver gives up.  Outside of the native mode the transfers
are those of the IPL, of which it is taken here that they return.

Here are the reads of a GC Loader, whose bits all have their number of polls, and the three
kinds of device together.

Results: `gcodeReadsEnd`, that reads of a GC Loader always end; `storageReadsEnd_iff`, for
which devices all reads end within a number of transactions that depends on their count;
`pulled_card_hangs`, a card and a start bit for which they do not.
-/

namespace Cubiboot
namespace Drives

open FuelLoop Words

/-- What a loader answers, and the bit of each transfer. -/
structure LoaderDevice where
  /-- Whether the bit is found set, by inquiry and poll. -/
  inquiryBusy : Nat → Nat → Bool
  inquiryDeint : Nat → Bool
  info : Nat → DvdInfo
  /-- Whether the bit is found set, by transfer and poll. -/
  busy : Nat → Nat → Bool
  deint : Nat → Bool

/-- What becomes of the inquiries of `gcode_sd_init`, to which nothing else matters. -/
def LoaderDevice.attached (d : LoaderDevice) : Attached where
  outcomes := fun n =>
    if polledClear (d.inquiryBusy n) then
      if d.inquiryDeint n then .deviceError (d.info n) else .answer (d.info n)
    else
      .timeout (d.info n)
  initialises := fun _ => false
  hasVolume := fun _ => false
  configFound := fun _ => false

/-- What happens when a loader is read after this. -/
def LoaderDevice.events (d : LoaderDevice) (s : MountState) : GcodeEvents where
  init := (gcodeSdInit d.attached s).1
  completes := fun n => polledClear (d.busy n)
  deint := d.deint

/-- The inquiries of `gcode_sd_init`, with their polls. -/
def gcodeInitTransactions (d : LoaderDevice) (s : MountState) : Nat :=
  transactions (fun n => pollCount (d.inquiryBusy n)) s.fdrv.asked
    ((gcodeSdInit d.attached s).2.fdrv.asked - s.fdrv.asked)

/-- The passes of the loops of `gcode_sd_read`, which make at most a transfer each. -/
def gcodeReadPasses
    (e : GcodeEvents) (medium : Bytes) (fuel : Nat) (hasGcode : Int)
    (sector data count : Nat) (buffer : Bytes) : Option Nat :=
  if hasGcode ≠ 1 ∧ e.init = false then
    some 0
  else if data % 0x20 = 0 then
    some (passes (gcodeChunkBody e medium) fuel ⟨sector, 0, count, 0, buffer⟩)
  else
    (eachBlock (gcodeBounceOne e medium sector) count 0 0 buffer).map fun r => r.2.2

/-- Every read ends after a number of transactions that depends on its count. -/
def GcodeReadsEnd (d : LoaderDevice) : Prop :=
  ∃ bound : Nat → Nat, ∀ medium s sector data count buffer,
    ∃ fuel r passes,
      gcodeSdRead (d.events s) medium fuel s.hasGcode sector data count buffer = some r ∧
      gcodeReadPasses (d.events s) medium fuel s.hasGcode sector data count buffer =
        some passes ∧
        gcodeInitTransactions d s + transactions (fun n => pollCount (d.busy n)) 0 passes ≤
          bound count

section Gcode

variable {a : Attached} {e : GcodeEvents} {medium : Bytes}

theorem gcodeSdInitLoop_asked (left asked : Nat) :
    (gcodeSdInitLoop a left asked).2 ≤ asked + left := by
  induction left generalizing asked with
  | zero =>
      exact Nat.le_refl asked
  | succ left ih =>
      have hrest := ih (asked + 1)
      rw [gcodeSdInitLoop]
      split
      · simp only
        omega
      · omega
      · split
        · simp only
          omega
        · omega

theorem gcodeSdInit_asked (s : MountState) :
    (gcodeSdInit a s).2.fdrv.asked ≤ s.fdrv.asked + gcodeInitAttempts := by
  have hloop := gcodeSdInitLoop_asked (a := a) gcodeInitAttempts s.fdrv.asked
  rw [gcodeSdInit]
  split
  · exact Nat.le_add_right _ _
  · exact hloop

theorem gcodeInitTransactions_le (d : LoaderDevice) (s : MountState) :
    gcodeInitTransactions d s ≤ gcodeInitAttempts * (1 + transferPolls) := by
  have hasked := gcodeSdInit_asked (a := d.attached) s
  have hpolls := transactions_le (fun n => pollCount_le (d.inquiryBusy n)) s.fdrv.asked
    ((gcodeSdInit d.attached s).2.fdrv.asked - s.fdrv.asked)
  exact hpolls.trans (Nat.mul_le_mul_right _ (by omega))

/-- A chunk is not empty, so that the loop over chunks ends. -/
theorem gcodeChunks_end (e : GcodeEvents) (medium : Bytes) (s : ChunkState) :
    ∃ r, run (gcodeChunkBody e medium) (s.count + 1) s = some r := by
  refine run_total (fun _ => True) ChunkState.count ?_ trivial (Nat.lt_succ_self s.count)
  intro s _
  by_cases hpos : s.count > 0
  · obtain ⟨hchunk, hle⟩ := gcodeChunk_le hpos
    simp only [gcodeChunkBody, if_pos hpos]
    split
    · exact Or.inl ⟨_, rfl⟩
    · exact Or.inr ⟨_, rfl, trivial, by simp only; omega⟩
  · refine Or.inl ⟨(true, s.buffer), ?_⟩
    simp only [gcodeChunkBody, if_neg hpos]

theorem gcodeBounceOne_cost
    (e : GcodeEvents) (medium : Bytes) (sector i transfer : Nat) :
    ∃ block transfer', gcodeBounceOne e medium sector i transfer = some (block, transfer') ∧
      transfer' ≤ transfer + 1 := by
  simp only [gcodeBounceOne]
  split
  · exact ⟨none, _, rfl, Nat.le_refl _⟩
  · exact ⟨some _, _, rfl, Nat.le_refl _⟩

theorem gcodeSdRead_ends
    (e : GcodeEvents) (medium : Bytes) (hasGcode : Int) (sector data count : Nat) (buffer : Bytes) :
    ∃ r passes, gcodeSdRead e medium (count + 1) hasGcode sector data count buffer = some r ∧
      gcodeReadPasses e medium (count + 1) hasGcode sector data count buffer = some passes ∧
        passes ≤ count + 1 := by
  simp only [gcodeSdRead, gcodeReadPasses]
  split
  · exact ⟨_, 0, rfl, rfl, Nat.zero_le _⟩
  · split
    · obtain ⟨r, hr⟩ :=
        gcodeChunks_end e medium ⟨sector, 0, count, 0, buffer⟩
      exact ⟨r, _, hr, rfl, passes_le _ _⟩
    · obtain ⟨ok, out, transfer, hloop, hcost⟩ :=
        eachBlock_within (fun n (t t' : Nat) => t' ≤ t + n) (fun _ => Nat.le_refl _)
          (fun h h' => by omega) (fun h hle => by omega)
          (gcodeBounceOne_cost e medium sector) count 0 0 buffer
      rw [hloop]
      exact ⟨(ok, out), transfer, rfl, rfl, by omega⟩

/-- Whatever a loader answers, a read of it ends. -/
theorem gcodeReadsEnd (d : LoaderDevice) : GcodeReadsEnd d := by
  refine ⟨fun count => gcodeInitAttempts * (1 + transferPolls) +
      (count + 1) * (1 + transferPolls), fun medium s sector data count buffer => ?_⟩
  obtain ⟨r, passes, hr, hpasses, hle⟩ :=
    gcodeSdRead_ends (d.events s) medium s.hasGcode sector data count buffer
  refine ⟨count + 1, r, passes, hr, hpasses, Nat.add_le_add (gcodeInitTransactions_le d s) ?_⟩
  have hpolls := transactions_le (fun n => pollCount_le (d.busy n)) 0 passes
  exact hpolls.trans (Nat.mul_le_mul_right _ hle)

end Gcode

/-- What the devices answer. -/
structure Storage where
  ata : AtaDevice
  loader : LoaderDevice
  card : SdEvents

/--
The drivers give up on every device but for a start bit of the native mode that stays set,
and a card that takes the command and then keeps its token back.  Reads end after a number
of transactions that depends on their count exactly when every start bit is found clear by
some number of polls, and the token, or an error, comes within some number of bytes.
-/
theorem storageReadsEnd_iff (d : Storage) :
    (AtaReadsEnd d.ata ∧ GcodeReadsEnd d.loader ∧ SdReadsEnd d.card) ↔
      (∃ k, d.ata.events.StartBitsClear k) ∧
        (tsdSelect d.card = true →
          (∃ k, d.card.StartBitsClear k) ∧ ∃ k, TokensWithin d.card k) := by
  constructor
  · rintro ⟨hata, _, hcard⟩
    exact ⟨clear_of_ataReadsEnd hata, tokens_of_sdReadsEnd hcard⟩
  · rintro ⟨⟨k, hata⟩, hcard⟩
    exact ⟨ataReadsEnd_of_clear hata, gcodeReadsEnd d.loader, sdReadsEnd_of_tokens hcard⟩

/-- A card that is pulled once it has accepted a command: the bus reads as ones. -/
def pulledCard : SdEvents where
  native := false
  select := true
  transfer := fun _ => true
  reply := fun n => if n = 2 then 0 else 0xFF
  noise := fun _ => 0xFF
  startBit := fun _ _ => false

theorem pulledCard_accepts : Accepted pulledCard 0 0 :=
  ⟨rfl, by decide, fun i hi => absurd hi (Nat.not_lt_zero i), rfl, rfl⟩

theorem pulledCard_no_token (k : Nat) : ¬ TokensWithin pulledCard k := by
  intro h
  obtain ⟨i, _, hat⟩ := h 0 0 pulledCard_accepts
  have hlater : 0 + 3 + 0 + i ≠ 2 := by omega
  rcases hat with hfails | htoken
  · cases hfails
  · simp only [pulledCard, if_neg hlater] at htoken
    exact absurd htoken (by decide)

/-- A drive in native mode whose start bit stays set. -/
def stuckDrive : AtaDevice where
  native := true
  readSelect := fun _ => true
  writeSelect := fun _ => true
  status := fun _ => 0xFF
  busy := fun _ _ => false
  data := fun _ _ => 0xFF
  signature := ⟨0, ⟨1, 1⟩, ⟨1, 1⟩, ⟨0, 0⟩, ⟨0, 0⟩⟩
  startBit := fun _ _ => true

theorem stuckDrive_no_clear (k : Nat) : ¬ stuckDrive.events.StartBitsClear k := by
  intro h
  obtain ⟨p, _, hclear⟩ := h rfl 0
  cases hclear

/-- Slot A, with nothing in the other slots. -/
def pulledStorage : Storage where
  ata := { stuckDrive with native := false, startBit := fun _ _ => false }
  loader := ⟨fun _ _ => true, fun _ => true, fun _ => ⟨0, ⟨0, 0, 0⟩⟩, fun _ _ => true,
    fun _ => true⟩
  card := pulledCard

/-- A card that is pulled is read for ever, and so is a drive with a start bit that is stuck. -/
theorem pulled_card_hangs :
    ¬ (AtaReadsEnd pulledStorage.ata ∧ GcodeReadsEnd pulledStorage.loader ∧
      SdReadsEnd pulledStorage.card) ∧
      AtaReadsEnd pulledStorage.ata ∧ GcodeReadsEnd pulledStorage.loader ∧
        ¬ AtaReadsEnd stuckDrive := by
  refine ⟨?_, ataReadsEnd_of_clear (k := 0) fun hnative => ?_, gcodeReadsEnd _, fun h => ?_⟩
  · rintro ⟨_, _, hcard⟩
    obtain ⟨_, k, htokens⟩ := tokens_of_sdReadsEnd hcard rfl
    exact pulledCard_no_token k htokens
  · cases hnative
  · obtain ⟨k, hclears⟩ := clear_of_ataReadsEnd h
    exact stuckDrive_no_clear k hclears

end Drives
end Cubiboot
