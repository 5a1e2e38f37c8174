import Cubiboot.Drives.Gcode

/-!
# The two ways to read a GC Loader

`gcode_sd_read` reads chunks into an aligned buffer, and block after block through
`bounce` into another one.  On a device that transfers what it can read of the card,
both come to the same.

A loader is taken to carry out a transfer exactly where it can read all the blocks of
it. So a chunk with one block that it cannot read fails as a whole. `gcodeTransfers` has
the transfers that a read makes, each with the bytes it asks for.

Results: `chunks_status` and `bounce_status`, when the two loops succeed;
`gcodeSdRead_status`, that a read succeeds exactly where all its sectors can be read;
`gcodeTransfers_bytes`, that no transfer is longer than 64 KiB; and `gcode_paths_agree`,
that the status and the bytes of a read do not depend on how its destination is aligned.
-/

namespace Cubiboot
namespace Drives

open CopyRange FuelLoop Words

/-- A call of `gcode_read_aligned`. -/
structure GcodeTransfer where
  number : Nat
  sector : Nat
  bytes : Nat
deriving DecidableEq

section Transfers

variable (e : GcodeEvents) (medium : Bytes)

/-- The transfers of the loop over chunks. -/
def chunkTransfers : Nat → ChunkState → List GcodeTransfer
  | 0, _ => []
  | fuel + 1, s =>
      if s.count > 0 then
        ⟨s.transfers, s.sector, word (gcodeChunk s.count * blockSize)⟩ ::
          match gcodeChunkBody e medium s with
          | some (.inl s') => chunkTransfers fuel s'
          | _ => []
      else
        []

/-- The transfers of the loop through `bounce`. -/
def bounceTransfers (sector : Nat) : Nat → Nat → Nat → List GcodeTransfer
  | 0, _, _ => []
  | left + 1, i, transfer =>
      ⟨transfer, word (sector + i), blockSize⟩ ::
        match gcodeBounceOne e medium sector i transfer with
        | some (some _, transfer') => bounceTransfers sector left (i + 1) transfer'
        | _ => []

/-- The transfers of `gcode_sd_read`. -/
def gcodeTransfers
    (fuel : Nat) (hasGcode : Int) (sector data count : Nat) (buffer : Bytes) :
    List GcodeTransfer :=
  if hasGcode ≠ 1 ∧ e.init = false then
    []
  else if data % 0x20 = 0 then
    chunkTransfers e medium fuel ⟨sector, 0, count, 0, buffer⟩
  else
    bounceTransfers e medium sector count 0 0

end Transfers

/-- Every transfer succeeds when the sectors that it covers are readable, and only then. -/
def TransfersReadable
    (readable : Nat → Prop) (e : GcodeEvents) (transfers : List GcodeTransfer) : Prop :=
  ∀ t ∈ transfers, (e.completes t.number = true ∧ e.deint t.number = false) ↔
    ∀ i < t.bytes / blockSize, readable (word (t.sector + i))

variable {e : GcodeEvents} {medium : Bytes} {readable : Nat → Prop}
variable {sector count data fuel : Nat} {buffer out : Bytes} {hasGcode : Int}

theorem gcodeReadAligned_fst
    (e : GcodeEvents) (medium : Bytes) (transfer sector place bytes : Nat) (buffer : Bytes) :
    (gcodeReadAligned e medium transfer sector place bytes buffer).1 = true ↔
      e.completes transfer = true ∧ e.deint transfer = false := by
  rw [gcodeReadAligned]
  split
  · rename_i hends
    simp [hends]
  · rename_i hends
    simp [hends]

/-- A chunk is not more than a transfer may have. -/
theorem gcodeChunk_bytes (count : Nat) :
    word (gcodeChunk count * blockSize) ≤ gcodeMaxXfer := by
  rw [gcodeChunk]
  split
  · decide
  · rename_i hsmall
    exact Nat.le_of_not_lt hsmall

/-- What one pass does: it is through, or it reads a chunk and goes on if it can. -/
theorem gcodeChunkBody_cases (e : GcodeEvents) (medium : Bytes) (s : ChunkState) :
    (s.count = 0 ∧ gcodeChunkBody e medium s = some (.inr (true, s.buffer))) ∨
      0 < s.count ∧
        (((e.completes s.transfers = true ∧ e.deint s.transfers = false) ∧
            ∃ s', gcodeChunkBody e medium s = some (.inl s') ∧
              s'.count = s.count - gcodeChunk s.count) ∨
          (¬ (e.completes s.transfers = true ∧ e.deint s.transfers = false) ∧
            ∃ out, gcodeChunkBody e medium s = some (.inr (false, out)))) := by
  rw [gcodeChunkBody]
  split
  · rename_i hpos
    refine Or.inr ⟨hpos, ?_⟩
    have hfst := gcodeReadAligned_fst e medium s.transfers s.sector s.data
      (word (gcodeChunk s.count * blockSize)) s.buffer
    dsimp only
    rcases hread : gcodeReadAligned e medium s.transfers s.sector s.data
      (word (gcodeChunk s.count * blockSize)) s.buffer with ⟨ok, out⟩
    rw [hread] at hfst
    cases ok with
    | false => exact Or.inr ⟨fun hok => Bool.false_ne_true (hfst.2 hok), out, rfl⟩
    | true => exact Or.inl ⟨hfst.1 rfl, _, rfl, rfl⟩
  · rename_i hzero
    exact Or.inl ⟨by omega, rfl⟩

theorem chunkTransfers_bytes {s : ChunkState} :
    ∀ t ∈ chunkTransfers e medium fuel s, t.bytes ≤ gcodeMaxXfer := by
  induction fuel generalizing s with
  | zero =>
      intro t ht
      cases ht
  | succ fuel ih =>
      intro t ht
      rw [chunkTransfers] at ht
      split at ht
      · rcases List.mem_cons.1 ht with rfl | ht
        · exact gcodeChunk_bytes s.count
        · split at ht
          · exact ih t ht
          · cases ht
      · cases ht

/-- The loop over chunks succeeds when all sectors that are left are readable. -/
theorem chunks_status
    (hbytes : count * blockSize < 0x100000000) (hend : sector + count ≤ 0x100000000)
    {s : ChunkState} (h : ChunkInv medium sector count s) (hfuel : s.count < fuel)
    (hread : ∀ i < count - s.count, readable (sector + i))
    (hdevice : TransfersReadable readable e (chunkTransfers e medium fuel s)) :
    ∃ ok out, run (gcodeChunkBody e medium) fuel s = some (ok, out) ∧
      (ok = true ↔ ∀ i < count, readable (sector + i)) := by
  induction fuel generalizing s with
  | zero =>
      omega
  | succ fuel ih =>
      obtain ⟨done, htotal, _, hsector, _⟩ := h.done
      have hdone : count - s.count = done := by omega
      rw [hdone] at hread
      rw [run]
      rcases gcodeChunkBody_cases e medium s with ⟨hzero, hbody⟩ | ⟨hpos, hpass⟩
      · rw [hbody]
        exact ⟨true, s.buffer, rfl, iff_of_true rfl fun i hi => hread i (by omega)⟩
      · rw [chunkTransfers, if_pos hpos] at hdevice
        obtain ⟨hchunk, hle⟩ := gcodeChunk_le hpos
        have hhere := hdevice _ List.mem_cons_self
        have hsize := gcodeChunk_eq hpos (by simp only [blockSize, blocksOfMemory] at *; omega)
        -- The transfer covers the sectors from `done` on.
        have hcovers : (∀ i < word (gcodeChunk s.count * blockSize) / blockSize,
              readable (word (s.sector + i))) ↔
            ∀ i < gcodeChunk s.count, readable (sector + (done + i)) := by
          rw [hsize, Nat.mul_div_cancel _ (by decide)]
          refine forall₂_congr fun i hi => ?_
          have hlba : word (s.sector + i) = sector + (done + i) := by
            rw [hsector]
            simp only [word]
            omega
          rw [hlba]
        rw [hcovers] at hhere
        rcases hpass with ⟨hok, s', hbody, hcount⟩ | ⟨hfailed, out, hbody⟩
        · rw [hbody] at hdevice ⊢
          have hnow := hhere.1 hok
          refine ih (gcodeChunkBody_inv (by simp only [blockSize, blocksOfMemory] at *; omega)
            h hbody) (by omega) (fun i hi => ?_) fun t ht => hdevice t (List.mem_cons_of_mem _ ht)
          by_cases hold : i < done
          · exact hread i hold
          · have hnew := hnow (i - done) (by omega)
            rw [Nat.add_sub_cancel' (Nat.le_of_not_lt hold)] at hnew
            exact hnew
        · rw [hbody]
          refine ⟨false, out, rfl, iff_of_false Bool.false_ne_true fun hall => ?_⟩
          exact hfailed (hhere.2 fun i hi => hall (done + i) (by omega))

/-- One block is read, or is not readable. -/
theorem gcodeBounceOne_cases (e : GcodeEvents) (medium : Bytes) (sector i transfer : Nat) :
    ((e.completes transfer = true ∧ e.deint transfer = false) ∧
        ∃ block, gcodeBounceOne e medium sector i transfer = some (some block, transfer + 1)) ∨
      ¬ (e.completes transfer = true ∧ e.deint transfer = false) ∧
        gcodeBounceOne e medium sector i transfer = some (none, transfer + 1) := by
  have hfst := gcodeReadAligned_fst e medium transfer (word (sector + i)) 0 blockSize fun _ => 0
  rw [gcodeBounceOne]
  rcases hread : gcodeReadAligned e medium transfer (word (sector + i)) 0 blockSize fun _ => 0
    with ⟨ok, bounce⟩
  rw [hread] at hfst
  cases ok with
  | false => exact Or.inr ⟨fun hok => Bool.false_ne_true (hfst.2 hok), rfl⟩
  | true => exact Or.inl ⟨hfst.1 rfl, bounce, rfl⟩

theorem bounceTransfers_bytes {left i transfer : Nat} :
    ∀ t ∈ bounceTransfers e medium sector left i transfer, t.bytes ≤ gcodeMaxXfer := by
  induction left generalizing i transfer with
  | zero =>
      intro t ht
      cases ht
  | succ left ih =>
      intro t ht
      rw [bounceTransfers] at ht
      rcases List.mem_cons.1 ht with rfl | ht
      · show blockSize ≤ gcodeMaxXfer
        decide
      · split at ht
        · exact ih t ht
        · cases ht

/-- The loop succeeds when all sectors that are left are readable. -/
theorem bounce_status {left i transfer : Nat} (buffer : Bytes)
    (hend : sector + i + left ≤ 0x100000000)
    (hdevice : TransfersReadable readable e (bounceTransfers e medium sector left i transfer)) :
    ∃ ok out transfer', eachBlock (gcodeBounceOne e medium sector) left i transfer buffer =
        some (ok, out, transfer') ∧
      (ok = true ↔ ∀ k < left, readable (sector + (i + k))) := by
  induction left generalizing i transfer buffer with
  | zero =>
      exact ⟨true, buffer, transfer, rfl, iff_of_true rfl fun k hk => absurd hk (Nat.not_lt_zero k)⟩
  | succ left ih =>
      rw [bounceTransfers] at hdevice
      have hhere := hdevice _ List.mem_cons_self
      have hlba : word (word (sector + i) + 0) = sector + i := by
        simp only [word]
        omega
      have hcovers : (∀ k < blockSize / blockSize, readable (word (word (sector + i) + k))) ↔
          readable (sector + i) := by
        rw [Nat.div_self (by decide)]
        constructor
        · intro hall
          rw [← hlba]
          exact hall 0 Nat.one_pos
        · intro hfirst k hk
          rw [Nat.lt_one_iff.1 hk, hlba]
          exact hfirst
      rw [hcovers] at hhere
      rw [eachBlock]
      rcases gcodeBounceOne_cases e medium sector i transfer with ⟨hok, block, hone⟩ | ⟨hno, hone⟩
      · rw [hone] at hdevice ⊢
        obtain ⟨ok, out, transfer', hrest, hall⟩ :=
          ih (copyRange buffer (word (i * blockSize)) blockSize block) (by omega)
            fun t ht => hdevice t (List.mem_cons_of_mem _ ht)
        refine ⟨ok, out, transfer', hrest, hall.trans ⟨fun hlater k hk => ?_, fun h k hk => ?_⟩⟩
        · cases k with
          | zero => exact hhere.1 hok
          | succ k =>
              have hk' := hlater k (by omega)
              rw [Nat.add_right_comm, Nat.add_assoc] at hk'
              exact hk'
        · rw [Nat.add_right_comm, Nat.add_assoc]
          exact h (k + 1) (by omega)
      · rw [hone]
        refine ⟨false, buffer, transfer + 1, rfl, iff_of_false Bool.false_ne_true fun hall => ?_⟩
        exact hno (hhere.2 (hall 0 (Nat.succ_pos left)))

/-- A read that can be made reads all of its sectors, or one of them is not readable. -/
theorem gcodeSdRead_status
    (hsector : sector < 0x100000000) (hbytes : count * blockSize < 0x100000000)
    (hend : sector + count ≤ 0x100000000) (hpresent : ¬ (hasGcode ≠ 1 ∧ e.init = false))
    (hfuel : count < fuel)
    (hdevice : TransfersReadable readable e
      (gcodeTransfers e medium fuel hasGcode sector data count buffer)) :
    ∃ ok out, gcodeSdRead e medium fuel hasGcode sector data count buffer = some (ok, out) ∧
      (ok = true ↔ ∀ i < count, readable (sector + i)) := by
  rw [gcodeTransfers, if_neg hpresent] at hdevice
  rw [gcodeSdRead, if_neg hpresent]
  split
  · rename_i haligned
    rw [if_pos haligned] at hdevice
    have hstart : ChunkInv medium sector count ⟨sector, 0, count, 0, buffer⟩ := by
      refine ⟨0, Nat.zero_add count, rfl, ?_, fun i hi => absurd hi (Nat.not_lt_zero i)⟩
      exact (word_of_lt hsector).symm
    exact chunks_status hbytes hend hstart hfuel (fun i hi => by simp at hi) hdevice
  · rename_i hunaligned
    rw [if_neg hunaligned] at hdevice
    obtain ⟨ok, out, transfer', hloop, hall⟩ := bounce_status buffer (by omega) hdevice
    refine ⟨ok, out, by rw [hloop]; rfl, ?_⟩
    simpa only [Nat.zero_add] using hall

theorem gcodeTransfers_bytes :
    ∀ t ∈ gcodeTransfers e medium fuel hasGcode sector data count buffer,
      t.bytes ≤ gcodeMaxXfer := by
  intro t ht
  rw [gcodeTransfers] at ht
  split at ht
  · cases ht
  · split at ht
    · exact chunkTransfers_bytes t ht
    · exact bounceTransfers_bytes t ht

/-- What a read that succeeds delivers. -/
theorem gcodeSdRead_bytes
    (hsector : sector < 0x100000000) (hbytes : count * blockSize < 0x100000000)
    (hend : sector + count ≤ 0x100000000)
    (hr : gcodeSdRead e medium fuel hasGcode sector data count buffer = some (true, out)) :
    ∀ k < count * blockSize, out k = medium (sector * blockSize + k) := by
  have hroom : count < blocksOfMemory := by
    simp only [blockSize, blocksOfMemory] at *
    omega
  rw [← word_of_lt hsector] at hr
  have hblocks := gcodeSdRead_blocks (Nat.le_of_lt hroom) (fun _ => hroom) hr
  intro k hk
  have hi : k / blockSize < count := Nat.div_lt_of_lt_mul (by rwa [Nat.mul_comm] at hk)
  have hbyte := hblocks (k / blockSize) hi (k % blockSize) (Nat.mod_lt k (by decide))
  have hsplit := Nat.div_add_mod k blockSize
  have hlba : word (sector + k / blockSize) = sector + k / blockSize := word_of_lt (by omega)
  have hplace : k / blockSize * blockSize + k % blockSize = k := by
    rw [Nat.mul_comm]
    exact hsplit
  have haddress : (sector + k / blockSize) * blockSize + k % blockSize =
      sector * blockSize + k := by
    rw [Nat.add_mul, Nat.add_assoc, hplace]
  rw [word_block (by omega), hplace] at hbyte
  rw [hbyte, loaderBlock, blockAt, hlba, haddress]

/--
On a loader that transfers what it can read, reads into two buffers, one of them aligned
or not, have the same status and deliver the same bytes: those of the sectors.  They
succeed if and only if the loader is there and the sectors can be read.  No transfer is
longer than 64 KiB.
-/
theorem gcode_paths_agree
    (medium : Bytes) (readable : Nat → Prop) (sector count : Nat)
    (hsector : sector < 0x100000000) (hbytes : count * blockSize < 0x100000000)
    (hend : sector + count ≤ 0x100000000)
    (hasGcode : Int) (e e' : GcodeEvents) (hinit : e.init = e'.init)
    (data data' : Nat) (buffer buffer' : Bytes) (fuel : Nat) (hfuel : count < fuel)
    (hdevice : TransfersReadable readable e
      (gcodeTransfers e medium fuel hasGcode sector data count buffer))
    (hdevice' : TransfersReadable readable e'
      (gcodeTransfers e' medium fuel hasGcode sector data' count buffer')) :
    ∃ ok out out',
      gcodeSdRead e medium fuel hasGcode sector data count buffer = some (ok, out) ∧
      gcodeSdRead e' medium fuel hasGcode sector data' count buffer' = some (ok, out') ∧
      (ok = true ↔ (hasGcode = 1 ∨ e.init = true) ∧ ∀ i < count, readable (sector + i)) ∧
      (ok = true → ∀ k < count * blockSize,
        out k = medium (sector * blockSize + k) ∧ out' k = medium (sector * blockSize + k)) ∧
      ∀ t ∈ gcodeTransfers e medium fuel hasGcode sector data count buffer ++
          gcodeTransfers e' medium fuel hasGcode sector data' count buffer',
        t.bytes ≤ gcodeMaxXfer := by
  have hlimit : ∀ t ∈ gcodeTransfers e medium fuel hasGcode sector data count buffer ++
      gcodeTransfers e' medium fuel hasGcode sector data' count buffer',
      t.bytes ≤ gcodeMaxXfer := by
    intro t ht
    rcases List.mem_append.1 ht with ht | ht
    · exact gcodeTransfers_bytes t ht
    · exact gcodeTransfers_bytes t ht
  have hpresence : (hasGcode = 1 ∨ e.init = true) ↔ ¬ (hasGcode ≠ 1 ∧ e.init = false) := by
    rw [not_and_or, not_not, Bool.not_eq_false]
  rw [hpresence]
  by_cases habsent : hasGcode ≠ 1 ∧ e.init = false
  · have habsent' : hasGcode ≠ 1 ∧ e'.init = false := hinit ▸ habsent
    refine ⟨false, buffer, buffer', ?_, ?_, iff_of_false Bool.false_ne_true fun h => h.1 habsent,
      fun hok => absurd hok Bool.false_ne_true, hlimit⟩
    · rw [gcodeSdRead, if_pos habsent]
    · rw [gcodeSdRead, if_pos habsent']
  · have hpresent' : ¬ (hasGcode ≠ 1 ∧ e'.init = false) := hinit ▸ habsent
    obtain ⟨ok, out, hr, hall⟩ :=
      gcodeSdRead_status hsector hbytes hend habsent hfuel hdevice
    obtain ⟨ok', out', hr', hall'⟩ :=
      gcodeSdRead_status hsector hbytes hend hpresent' hfuel hdevice'
    have hsame : ok = ok' := Bool.eq_iff_iff.2 (hall.trans hall'.symm)
    subst hsame
    refine ⟨ok, out, out', hr, hr', hall.trans (and_iff_right habsent).symm, ?_, hlimit⟩
    rintro rfl k hk
    exact ⟨gcodeSdRead_bytes hsector hbytes hend hr k hk,
      gcodeSdRead_bytes hsector hbytes hend hr' k hk⟩

/-- 200 sectors at addresses 0 and 1: two chunks, and as many blocks as sectors. -/
theorem two_chunks_agree :
    ∃ out out',
      gcodeSdRead loading (markedMedium 8192) 201 1 16 0 200 (fun _ => 0) = some (true, out) ∧
      gcodeSdRead loading (markedMedium 8192) 201 1 16 1 200 (fun _ => 0) = some (true, out') ∧
      ∀ k < 200 * blockSize, out k = markedMedium 8192 (16 * blockSize + k) ∧ out' k = out k := by
  obtain ⟨ok, out, out', hr, hr', hstatus, hall, -⟩ :=
    gcode_paths_agree (markedMedium 8192) (fun _ => True) 16 200 (by decide) (by decide)
      (by decide) 1 loading loading rfl 0 1 (fun _ => 0) (fun _ => 0) 201 (by decide)
      (fun _ _ => ⟨fun _ _ _ => trivial, fun _ => ⟨rfl, rfl⟩⟩)
      fun _ _ => ⟨fun _ _ _ => trivial, fun _ => ⟨rfl, rfl⟩⟩
  obtain rfl : ok = true := hstatus.2 ⟨Or.inl rfl, fun _ _ => trivial⟩
  refine ⟨out, out', hr, hr', fun k hk => ?_⟩
  obtain ⟨hout, hout'⟩ := hall rfl k hk
  exact ⟨hout, hout'.trans hout.symm⟩

end Drives
end Cubiboot
