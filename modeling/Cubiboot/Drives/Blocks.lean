import Cubiboot.Foundations.CopyRange
import Cubiboot.Foundations.Words

/-!
# Reading blocks one by one

The drivers read block after block of 512 bytes.  A buffer is indexed by the
offset from its start, which is a word of 32 bits: the places of the blocks
repeat after 4 GiB.

`eachBlock one` is the loop of a driver around the reading of one block.
`one` may fail to return, fail, or deliver a block.  `neverAnother_iff` says
when a driver never delivers another sector than the one it was asked for, from
the addresses that its blocks are read from.

Results: `eachBlock_sound`, the rule of the loop; `eachBlock_total`, that it succeeds
where each block can be read; `HasBlocks.snoc`, one block more; and `neverAnother_iff`.
-/

namespace Cubiboot
namespace Drives

open CopyRange Words

universe u v

/-- The bytes of a buffer or of a drive. -/
abbrev Bytes := Nat → UInt8

/-- The bytes of a block. -/
abbrev blockSize : Nat := 512

/-- The number of blocks in 4 GiB. -/
abbrev blocksOfMemory : Nat := 0x800000

variable {σ : Type u} {ε : Type v}

/-- What reading a block may come to: nothing at all, a failure, or the block. -/
abbrev ReadOne (σ : Type u) := Nat → σ → Option (Option Bytes × σ)

/-- Read so many blocks from number `i` on. -/
def eachBlock (one : ReadOne σ) : Nat → Nat → σ → Bytes → Option (Bool × Bytes × σ)
  | 0, _, s, buffer => some (true, buffer, s)
  | left + 1, i, s, buffer =>
      match one i s with
      | none => none
      | some (none, s) => some (false, buffer, s)
      | some (some block, s) =>
          eachBlock one left (i + 1) s
            (copyRange buffer (word (i * blockSize)) blockSize block)

/-- The buffer has these blocks at its start. -/
def HasBlocks (buffer : Bytes) (content : Nat → Bytes) (count : Nat) : Prop :=
  ∀ i < count, ∀ j < blockSize, buffer (word (i * blockSize) + j) = content i j

variable {one : ReadOne σ} {count left : Nat} {s s' : σ} {buffer out : Bytes}
variable {content : Nat → Bytes}

theorem word_block
    {i : Nat} (hi : i < blocksOfMemory) : word (i * blockSize) = i * blockSize :=
  word_of_lt (by simp only [blocksOfMemory, blockSize] at *; omega)

/-- One more block. -/
theorem HasBlocks.snoc
    {i : Nat} {block : Bytes} (h : HasBlocks buffer content i)
    (hi : i < blocksOfMemory) (hblock : ∀ j < blockSize, block j = content i j) :
    HasBlocks (copyRange buffer (word (i * blockSize)) blockSize block) content (i + 1) := by
  intro k hk j hj
  rw [word_block hi, word_block (by omega)]
  by_cases hlast : k = i
  · subst hlast
    rw [copyRange_inside (by omega) (by omega), Nat.add_sub_cancel_left]
    exact hblock j hj
  · have hbefore : k * blockSize + j < i * blockSize := by
      simp only [blockSize] at *
      omega
    rw [copyRange_outside (Or.inl hbefore)]
    have hold := h k (by omega) j hj
    rw [word_block (by omega)] at hold
    exact hold

/--
The rule of the loop: if `Inv i` holds before block `i` is read, and then
delivers what it should, the buffer has all the blocks when the loop succeeds.
-/
theorem eachBlock_sound
    (Inv : Nat → σ → Prop)
    (hone : ∀ i s block s', Inv i s → one i s = some (some block, s') →
      Inv (i + 1) s' ∧ ∀ j < blockSize, block j = content i j)
    {i : Nat} (hs : Inv i s) (hbuffer : HasBlocks buffer content i)
    (hroom : i + left ≤ blocksOfMemory)
    (hr : eachBlock one left i s buffer = some (true, out, s')) :
    HasBlocks out content (i + left) ∧ Inv (i + left) s' := by
  induction left generalizing i s buffer with
  | zero =>
      simp only [eachBlock, Option.some.injEq, Prod.mk.injEq, true_and] at hr
      obtain ⟨rfl, rfl⟩ := hr
      exact ⟨hbuffer, hs⟩
  | succ left ih =>
      rw [eachBlock] at hr
      split at hr
      · cases hr
      · simp at hr
      · rename_i block s'' hblock
        obtain ⟨hnext, hcontent⟩ := hone i s block s'' hs hblock
        have hrest := ih hnext (hbuffer.snoc (by omega) hcontent) (by omega) hr
        rw [Nat.add_right_comm, Nat.add_assoc] at hrest
        exact hrest

/-- A loop in which every block can be read succeeds. -/
theorem eachBlock_total
    (Inv : Nat → σ → Prop)
    (hone : ∀ i s, Inv i s → ∃ block s', one i s = some (some block, s') ∧ Inv (i + 1) s')
    (left : Nat) (buffer : Bytes) {i : Nat} (hs : Inv i s) :
    ∃ out s', eachBlock one left i s buffer = some (true, out, s') ∧
      Inv (i + left) s' := by
  induction left generalizing i s buffer with
  | zero =>
      exact ⟨buffer, s, rfl, hs⟩
  | succ left ih =>
      obtain ⟨block, s', hblock, hnext⟩ := hone i s hs
      obtain ⟨out, s'', hr, hend⟩ :=
        ih (copyRange buffer (word (i * blockSize)) blockSize block) hnext
      refine ⟨out, s'', ?_, ?_⟩
      · rw [eachBlock, hblock]
        exact hr
      · rw [Nat.add_right_comm, Nat.add_assoc] at hend
        exact hend

/-- The block of a drive at a byte address. -/
def blockAt (medium : Bytes) (address : Nat) : Bytes :=
  fun j => medium (address + j)

/-- The blocks of a drive from a sector on. -/
def sectorsFrom (medium : Bytes) (sector : Nat) : Nat → Bytes :=
  fun i => blockAt medium ((sector + i) * blockSize)

/-- What a driver makes of a drive, whatever happens (`ε`), and of a buffer. -/
abbrev ReadRun (ε : Type v) := Bytes → ε → Bytes → Option (Bool × Bytes)

/-- A read that succeeds has delivered the sectors that it was asked for. -/
def NeverAnother (run : ReadRun ε) (sector count : Nat) : Prop :=
  ∀ medium events buffer out, run medium events buffer = some (true, out) →
    HasBlocks out (sectorsFrom medium sector) count

variable {run : ReadRun ε} {sector : Nat} {address : Nat → Nat}

/-- A drive with a single byte that is not zero. -/
def markedMedium (a : Nat) : Bytes := fun b => if b = a then 1 else 0

theorem sectorsFrom_marked (sector i : Nat) :
    sectorsFrom (markedMedium ((sector + i) * blockSize)) sector i 0 = 1 :=
  if_pos (Nat.add_zero _)

/-- Two blocks are the same on every drive only if they are one. -/
theorem address_of_blocks
    {a b : Nat} (h : blockAt (markedMedium b) a 0 = blockAt (markedMedium b) b 0) :
    a = b := by
  simp only [blockAt, markedMedium, Nat.add_zero, if_true] at h
  by_contra hne
  rw [if_neg hne] at h
  exact absurd h (by decide)

/-- Where there are more blocks than fit into 4 GiB, two of them share a place. -/
theorem not_neverAnother_of_wrap
    (hlive : ∀ medium, ∃ events buffer out, run medium events buffer = some (true, out))
    (hmany : blocksOfMemory < count) : ¬ NeverAnother run sector count := by
  intro h
  obtain ⟨events, buffer, out, hr⟩ := hlive (markedMedium (sector * blockSize))
  have hblocks := h _ events buffer out hr
  have hfirst := hblocks 0 (by omega) 0 (by decide)
  have hlast := hblocks blocksOfMemory hmany 0 (by decide)
  have hplace : word (blocksOfMemory * blockSize) = word (0 * blockSize) := by decide
  rw [hplace, hfirst] at hlast
  simp only [sectorsFrom, Nat.add_zero] at hlast
  have heq := address_of_blocks hlast.symm
  simp only [blocksOfMemory, blockSize] at heq
  omega

/--
A driver that reads its blocks from these addresses never delivers another
sector exactly when they are those of the sectors.
-/
theorem neverAnother_iff
    (run : ReadRun ε) (address : Nat → Nat) (sector count : Nat)
    (hsound : count ≤ blocksOfMemory → ∀ medium events buffer out,
      run medium events buffer = some (true, out) →
        HasBlocks out (fun i => blockAt medium (address i)) count)
    (hlive : ∀ medium, ∃ events buffer out, run medium events buffer = some (true, out)) :
    NeverAnother run sector count ↔
      count ≤ blocksOfMemory ∧ ∀ i < count, address i = (sector + i) * blockSize := by
  constructor
  · intro h
    have hroom : count ≤ blocksOfMemory := by
      by_contra hmany
      exact not_neverAnother_of_wrap hlive (by omega) h
    refine ⟨hroom, fun i hi => ?_⟩
    obtain ⟨events, buffer, out, hr⟩ := hlive (markedMedium ((sector + i) * blockSize))
    have hwanted := h _ events buffer out hr i hi 0 (by decide)
    have hread := hsound hroom _ events buffer out hr i hi 0 (by decide)
    refine address_of_blocks ?_
    exact hread.symm.trans hwanted
  · rintro ⟨hroom, haddress⟩ medium events buffer out hr i hi j hj
    rw [hsound hroom medium events buffer out hr i hi j hj]
    simp only [sectorsFrom, haddress i hi]

end Drives
end Cubiboot
