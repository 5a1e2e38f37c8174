import Cubiboot.Drives.Blocks
import Cubiboot.Foundations.FuelLoop

/-!
# The GC Loader

`gcode.c`: blocks of the card in a GC Loader, read over the disc interface.  A
command has the number of the first block, which the loader counts in 32 bits,
and a length in bytes.

A read is cut into chunks where the destination is aligned, and into single blocks,
which go through a buffer of the driver's own, where it is not. What the loader answers
to a command, and whether its transfer ends, is left to the events of a run.

Results: `gcodeChunkBody_inv`, one chunk; `gcodeSdRead_blocks`, that the blocks which
are read are those of the commands; `gcode_neverAnother_iff`, which sectors can be asked
for so that no other is delivered.
-/

namespace Cubiboot
namespace Drives

open CopyRange FuelLoop Words

/-- `GCODE_MAX_XFER`. -/
abbrev gcodeMaxXfer : Nat := 64 * 1024

/-- What happens while a loader is read. -/
structure GcodeEvents where
  /-- `gcode_sd_init`, if it is called. -/
  init : Bool
  /-- The transfer with this number ends in time. -/
  completes : Nat → Bool
  /-- The drive reports an error for the transfer with this number. -/
  deint : Nat → Bool

/-- The bytes that the loader sends from a block on. -/
def loaderBytes (medium : Bytes) (lba : Nat) : Bytes :=
  fun k => medium (word (lba + k / blockSize) * blockSize + k % blockSize)

variable (e : GcodeEvents) (medium : Bytes)

/-- `gcode_read_aligned` to a place of a buffer. -/
def gcodeReadAligned
    (transfer sector place bytes : Nat) (buffer : Bytes) : Bool × Bytes :=
  if e.completes transfer then
    (!e.deint transfer, copyRange buffer place bytes (loaderBytes medium sector))
  else
    (false, buffer)

/-- The variables of the loop over chunks: `data` is the offset from its first value. -/
structure ChunkState where
  sector : Nat
  data : Nat
  count : Nat
  transfers : Nat
  buffer : Bytes

/-- `chunk`. -/
def gcodeChunk (count : Nat) : Nat :=
  if word (count * blockSize) > gcodeMaxXfer then gcodeMaxXfer / blockSize else count

/-- One pass of the loop over chunks. -/
def gcodeChunkBody (s : ChunkState) : Option (ChunkState ⊕ Bool × Bytes) :=
  if s.count > 0 then
    let chunk := gcodeChunk s.count
    match gcodeReadAligned e medium s.transfers s.sector s.data (word (chunk * blockSize))
        s.buffer with
    | (false, buffer) => some (.inr (false, buffer))
    | (true, buffer) =>
        some
          (.inl
            { sector := word (s.sector + chunk)
              data := word (s.data + chunk * blockSize)
              count := s.count - chunk
              transfers := s.transfers + 1
              buffer := buffer })
  else
    some (.inr (true, s.buffer))

/-- One pass of the loop through `bounce`: the state is the number of the transfer. -/
def gcodeBounceOne (sector : Nat) : ReadOne Nat :=
  fun i transfer =>
    match gcodeReadAligned e medium transfer (word (sector + i)) 0 blockSize fun _ => 0 with
    | (false, _) => some (none, transfer + 1)
    | (true, bounce) => some (some bounce, transfer + 1)

/-- `gcode_sd_read` into a buffer at `data`. -/
def gcodeSdRead
    (fuel : Nat) (hasGcode : Int) (sector data count : Nat) (buffer : Bytes) :
    Option (Bool × Bytes) :=
  if hasGcode ≠ 1 ∧ e.init = false then
    some (false, buffer)
  else if data % 0x20 = 0 then
    run (gcodeChunkBody e medium) fuel ⟨sector, 0, count, 0, buffer⟩
  else
    (eachBlock (gcodeBounceOne e medium sector) count 0 0 buffer).map fun r => (r.1, r.2.1)

variable {e : GcodeEvents} {medium : Bytes} {sector count data : Nat}
variable {buffer out : Bytes} {hasGcode : Int}

/-- The block that the loader has under a number. -/
def loaderBlock (medium : Bytes) (sector : Nat) : Nat → Bytes :=
  fun i => blockAt medium (word (sector + i) * blockSize)

theorem gcodeReadAligned_ok
    {transfer place bytes : Nat}
    (h : gcodeReadAligned e medium transfer sector place bytes buffer = (true, out)) :
    out = copyRange buffer place bytes (loaderBytes medium sector) := by
  simp only [gcodeReadAligned] at h
  split at h
  · exact (congrArg Prod.snd h).symm
  · cases h

/-- Several more blocks. -/
theorem HasBlocks.append
    {content : Nat → Bytes} {i n : Nat} {blocks : Bytes} (h : HasBlocks buffer content i)
    (hroom : i + n ≤ blocksOfMemory)
    (hblocks : ∀ k < n, ∀ j < blockSize, blocks (k * blockSize + j) = content (i + k) j) :
    HasBlocks (copyRange buffer (i * blockSize) (n * blockSize) blocks) content (i + n) := by
  intro k hk j hj
  have hplace := word_block (show k < blocksOfMemory by omega)
  rw [hplace]
  by_cases hold : k < i
  · have hbefore := h k hold j hj
    rw [hplace] at hbefore
    rw [copyRange_outside (Or.inl (by simp only [blockSize] at *; omega))]
    exact hbefore
  · have hnew := hblocks (k - i) (by omega) j hj
    have hindex : k * blockSize + j - i * blockSize = (k - i) * blockSize + j := by
      simp only [blockSize] at *
      omega
    have hnumber : i + (k - i) = k := by omega
    rw [copyRange_inside (by simp only [blockSize] at *; omega)
      (by simp only [blockSize] at *; omega), hindex, hnew, hnumber]

theorem gcodeChunk_le
    (hpos : 0 < count) : 0 < gcodeChunk count ∧ gcodeChunk count ≤ count := by
  simp only [gcodeChunk]
  by_cases hbig : word (count * blockSize) > gcodeMaxXfer
  · rw [if_pos hbig]
    simp only [gcodeMaxXfer, blockSize, word] at *
    omega
  · rw [if_neg hbig]
    exact ⟨hpos, Nat.le_refl count⟩

theorem gcodeChunk_eq
    (hpos : 0 < count) (hsmall : count < blocksOfMemory) :
    word (gcodeChunk count * blockSize) = gcodeChunk count * blockSize := by
  have hle := gcodeChunk_le hpos
  exact word_block (by omega)

/-- What holds between two chunks. -/
structure ChunkInv (medium : Bytes) (sector count : Nat) (s : ChunkState) : Prop where
  done : ∃ done, done + s.count = count ∧ s.data = word (done * blockSize) ∧
    s.sector = word (sector + done) ∧ HasBlocks s.buffer (loaderBlock medium sector) done

theorem gcodeChunkBody_inv
    (hsmall : count < blocksOfMemory) {s s' : ChunkState}
    (h : ChunkInv medium sector count s)
    (hstep : gcodeChunkBody e medium s = some (.inl s')) :
    ChunkInv medium sector count s' := by
  obtain ⟨done, htotal, hdata, hsector, hblocks⟩ := h.done
  simp only [gcodeChunkBody] at hstep
  split at hstep
  · rename_i hpos
    obtain ⟨hchunk, hle⟩ := gcodeChunk_le hpos
    have hbytes := gcodeChunk_eq hpos (by omega)
    have hplace := word_block (show done < blocksOfMemory by omega)
    split at hstep
    · cases hstep
    · rename_i out hread
      have hout := gcodeReadAligned_ok hread
      rw [hbytes, hdata, hplace] at hout
      cases hstep
      refine ⟨done + gcodeChunk s.count, ?_, ?_, ?_, ?_⟩
      · simp only
        omega
      · simp only [hdata, word, blockSize]
        omega
      · simp only [hsector, word]
        omega
      · simp only
        rw [hout]
        refine hblocks.append (by omega) fun k hk j hj => ?_
        have hdiv : (k * blockSize + j) / blockSize = k := by
          simp only [blockSize] at *
          omega
        have hmod : (k * blockSize + j) % blockSize = j := by
          simp only [blockSize] at *
          omega
        have hlba : word (s.sector + k) = word (sector + (done + k)) := by
          simp only [hsector, word]
          omega
        simp only [loaderBytes, loaderBlock, blockAt, hdiv, hmod, hlba]
  · cases hstep

theorem gcodeChunks_blocks
    (hsmall : count < blocksOfMemory) {fuel : Nat}
    (hr : run (gcodeChunkBody e medium) fuel ⟨word sector, 0, count, 0, buffer⟩ =
      some (true, out)) :
    HasBlocks out (loaderBlock medium sector) count := by
  have hstart : ChunkInv medium sector count ⟨word sector, 0, count, 0, buffer⟩ :=
    ⟨0, Nat.zero_add count, rfl, rfl, fun i hi => absurd hi (Nat.not_lt_zero i)⟩
  refine run_sound (ChunkInv medium sector count)
    (fun r : Bool × Bytes =>
      r.1 = true → HasBlocks r.2 (loaderBlock medium sector) count)
    (fun _ _ h hstep => gcodeChunkBody_inv hsmall h hstep) ?_ hstart hr rfl
  intro s r h hstep hok
  obtain ⟨done, htotal, _, _, hblocks⟩ := h.done
  simp only [gcodeChunkBody] at hstep
  split at hstep
  · split at hstep
    · cases hstep
      cases hok
    · cases hstep
  · rename_i hdone
    cases hstep
    have hall : done = count := by omega
    rw [← hall]
    exact hblocks

theorem gcodeSdRead_blocks
    (hroom : count ≤ blocksOfMemory) (hplace : data % 0x20 = 0 → count < blocksOfMemory)
    {fuel : Nat}
    (hr : gcodeSdRead e medium fuel hasGcode (word sector) data count buffer =
      some (true, out)) :
    HasBlocks out (loaderBlock medium sector) count := by
  simp only [gcodeSdRead] at hr
  split at hr
  · cases hr
  · split at hr
    · rename_i haligned
      exact gcodeChunks_blocks (hplace haligned) hr
    · obtain ⟨⟨ok, out', s'⟩, hloop, heq⟩ := Option.map_eq_some_iff.1 hr
      simp only [Prod.mk.injEq] at heq
      obtain ⟨rfl, rfl⟩ := heq
      have hone : ∀ i (s : Nat) block s', True →
          gcodeBounceOne e medium (word sector) i s = some (some block, s') →
          True ∧ ∀ j < blockSize, block j = loaderBlock medium sector i j := by
        intro i s block s' _ hone
        simp only [gcodeBounceOne] at hone
        split at hone
        · cases hone
        · rename_i bounce hread
          have hbounce := gcodeReadAligned_ok hread
          cases hone
          refine ⟨trivial, fun j hj => ?_⟩
          rw [hbounce, copyRange_inside (Nat.zero_le j) (by omega)]
          have hdiv : j / blockSize = 0 := Nat.div_eq_of_lt hj
          have hmod : j % blockSize = j := Nat.mod_eq_of_lt hj
          have hlba : word (word (word sector + i) + 0) = word (sector + i) := by
            simp only [word]
            omega
          simp only [loaderBytes, loaderBlock, blockAt, Nat.sub_zero, hdiv, hmod, hlba]
      have hblocks := (eachBlock_sound (fun _ (_ : Nat) => True) hone trivial
        (fun i hi => absurd hi (Nat.not_lt_zero i)) (by omega) hloop).1
      rw [Nat.zero_add] at hblocks
      exact hblocks

/-- A loader without errors. -/
def loading : GcodeEvents where
  init := true
  completes := fun _ => true
  deint := fun _ => false

theorem gcodeSdRead_loading
    (medium : Bytes) (sector data count : Nat) (buffer : Bytes) :
    ∃ fuel out, gcodeSdRead loading medium fuel 1 sector data count buffer =
      some (true, out) := by
  simp only [gcodeSdRead]
  by_cases haligned : data % 0x20 = 0
  · have hbody : ∀ s : ChunkState, True →
        (∃ r, gcodeChunkBody loading medium s = some (.inr r) ∧ r.1 = true) ∨
          ∃ s', gcodeChunkBody loading medium s = some (.inl s') ∧ True ∧
            s'.count < s.count := by
      intro s _
      by_cases hpos : s.count > 0
      · obtain ⟨hchunk, hle⟩ := gcodeChunk_le hpos
        right
        simp only [gcodeChunkBody, if_pos hpos, gcodeReadAligned, loading, if_true,
          Bool.not_false]
        exact ⟨_, rfl, trivial, by simp only; omega⟩
      · left
        simp only [gcodeChunkBody, if_neg hpos]
        exact ⟨_, rfl, rfl⟩
    obtain ⟨r, hr, hok⟩ := run_meets (fun _ : ChunkState => True)
      (fun r : Bool × Bytes => r.1 = true) ChunkState.count hbody
      (s := ⟨sector, 0, count, 0, buffer⟩) trivial (Nat.lt_succ_self count)
    obtain ⟨ok, out⟩ := r
    cases hok
    refine ⟨count + 1, out, ?_⟩
    rw [if_neg (by decide), if_pos haligned]
    exact hr
  · have hone : ∀ i (s : Nat), True →
        ∃ block s', gcodeBounceOne loading medium sector i s = some (some block, s') ∧
          True := by
      intro i s _
      simp only [gcodeBounceOne, gcodeReadAligned, loading, if_true, Bool.not_false]
      exact ⟨_, _, rfl, trivial⟩
    obtain ⟨out, s', hloop, _⟩ :=
      eachBlock_total (fun _ (_ : Nat) => True) hone count buffer (i := 0) (s := 0) trivial
    refine ⟨0, out, ?_⟩
    rw [if_neg (by decide), if_neg haligned, hloop]
    rfl

/-- A read of a loader into a buffer at `data`, whatever happens. -/
def gcodeRun (data sector count : Nat) : ReadRun (Nat × GcodeEvents × Int) :=
  fun medium events buffer =>
    gcodeSdRead events.2.1 medium events.1 events.2.2 (word sector) data count buffer

/--
The sectors that can be read.  For an aligned buffer the length of 4 GiB wraps
to nothing.
-/
def GcodeReaches (data sector count : Nat) : Prop :=
  count = 0 ∨
    count ≤ blocksOfMemory ∧ (data % 0x20 = 0 → count ≠ blocksOfMemory) ∧
      sector + count ≤ 0x100000000

theorem gcodeRun_live (data sector count : Nat) (medium : Bytes) :
    ∃ events buffer out, gcodeRun data sector count medium events buffer =
      some (true, out) := by
  obtain ⟨fuel, out, hr⟩ :=
    gcodeSdRead_loading medium (word sector) data count fun _ => 0
  exact ⟨(fuel, loading, 1), _, out, hr⟩

/-- A read of 4 GiB into an aligned buffer does not read anything. -/
theorem gcodeSdRead_nothing
    (medium : Bytes) (sector : Nat) (buffer : Bytes) (haligned : data % 0x20 = 0)
    (hwrap : word (count * blockSize) = 0) (hpos : count > 0) :
    gcodeSdRead loading medium 2 1 sector data count buffer = some (true, buffer) := by
  have hchunk : gcodeChunk count = count := by
    simp only [gcodeChunk, hwrap]
    exact if_neg (by decide)
  have hpresent : ¬ ((1 : Int) ≠ 1 ∧ loading.init = false) := fun hc => hc.1 rfl
  rw [gcodeSdRead, if_neg hpresent, if_pos haligned]
  simp only [run, gcodeChunkBody, if_pos hpos, hchunk, hwrap, gcodeReadAligned, loading,
    if_true, Bool.not_false, copyRange_zero, Nat.sub_self, Nat.lt_irrefl, gt_iff_lt,
    if_false]

theorem gcode_reads_nothing
    (haligned : data % 0x20 = 0) (hwrap : word (count * blockSize) = 0)
    (hpos : count > 0) :
    ¬ NeverAnother (gcodeRun data sector count) sector count := by
  intro h
  have hr := gcodeSdRead_nothing (markedMedium ((sector + 0) * blockSize)) (word sector)
    (fun _ => 0) haligned hwrap hpos
  have hfirst := h _ (2, loading, 1) _ _ hr 0 hpos 0 (by decide)
  rw [sectorsFrom_marked] at hfirst
  exact absurd hfirst (by decide)

theorem gcode_neverAnother_iff (data sector count : Nat) :
    NeverAnother (gcodeRun data sector count) sector count ↔
      GcodeReaches data sector count := by
  by_cases hwhole : data % 0x20 = 0 ∧ count = blocksOfMemory
  · obtain ⟨haligned, rfl⟩ := hwhole
    refine iff_of_false (gcode_reads_nothing haligned (by decide) (by decide)) ?_
    rintro (hc | ⟨_, hne, _⟩)
    · exact absurd hc (by decide)
    · exact hne haligned rfl
  · have hiff := neverAnother_iff (gcodeRun data sector count)
      (fun i => word (sector + i) * blockSize) sector count
      (fun hroom medium events buffer out hr =>
        gcodeSdRead_blocks hroom
          (fun haligned => Nat.lt_of_le_of_ne hroom fun hc => hwhole ⟨haligned, hc⟩) hr)
      (gcodeRun_live data sector count)
    rw [hiff]
    simp only [GcodeReaches]
    constructor
    · rintro ⟨hroom, hall⟩
      by_cases hzero : count = 0
      · exact Or.inl hzero
      · have hend := hall (count - 1) (by omega)
        refine Or.inr ⟨hroom, fun haligned hc => hwhole ⟨haligned, hc⟩, ?_⟩
        simp only [word, blockSize] at hend
        omega
    · rintro (hzero | ⟨hroom, _, hlimit⟩)
      · rw [hzero]
        exact ⟨Nat.zero_le _, fun i hi => absurd hi (Nat.not_lt_zero i)⟩
      · refine ⟨hroom, fun i hi => ?_⟩
        rw [word_of_lt (by omega)]

end Drives
end Cubiboot
