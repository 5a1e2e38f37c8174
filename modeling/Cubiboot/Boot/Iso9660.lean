import Mathlib.Tactic.Common

/-!
# The boot file of an ISO 9660 disc

`get_dol_iso9660` of `iso9660.c`.  The numbers on the disc have their low byte
first, and the sums and products are words.

The volume descriptors are the sectors from 16 to 255.  The search for a boot record ends
at the first descriptor that is one and has the standard identifier, at the one that marks
the end, and at a read that fails.  The reads are given by their results and their bytes,
those of the descriptors by their sector, and a read that fails may leave anything.

Results: `strncmpEq_iff`, that a comparison with one of the two identifiers compares all
of its bytes.
-/

namespace Cubiboot
namespace Boot

/-- `ISO_SECTOR_SIZE`. -/
abbrev isoSectorSize : Nat := 2048

/-- What the reads of `get_dol_iso9660` come to, the descriptors by their sector. -/
structure IsoReads where
  magicResult : Int
  magic : Nat → UInt8
  sectorResult : Nat → Int
  sector : Nat → Nat → UInt8
  catalogResult : Int
  catalog : Nat → UInt8

/-- `strncmp(a, b, n) == 0`. -/
def strncmpEq (a b : Nat → UInt8) : Nat → Bool
  | 0 => true
  | n + 1 =>
      if a 0 ≠ b 0 then false
      else if a 0 = 0 then true
      else strncmpEq (fun i => a (i + 1)) (fun i => b (i + 1)) n

/-- Against a string without an earlier end, all `n` bytes are compared. -/
theorem strncmpEq_iff {a b : Nat → UInt8} {n : Nat} (hb : ∀ j < n - 1, b j ≠ 0) :
    strncmpEq a b n = true ↔ ∀ k < n, a k = b k := by
  induction n generalizing a b with
  | zero => simp [strncmpEq]
  | succ n ih =>
      have hrest : strncmpEq (fun i => a (i + 1)) (fun i => b (i + 1)) n = true ↔
          ∀ k < n, a (k + 1) = b (k + 1) :=
        ih fun j hj => hb (j + 1) (by omega)
      by_cases hfirst : a 0 = b 0
      · by_cases hend : a 0 = 0
        · -- the end of `b` is at its last place
          obtain rfl : n = 0 := by
            by_contra hmore
            exact hb 0 (by omega) (hfirst.symm.trans hend)
          rw [strncmpEq, if_neg (not_not.2 hfirst), if_pos hend]
          refine iff_of_true rfl fun k hk => ?_
          rw [Nat.lt_one_iff.1 hk]
          exact hfirst
        · rw [strncmpEq, if_neg (not_not.2 hfirst), if_neg hend, hrest]
          constructor
          · intro h k hk
            cases k with
            | zero => exact hfirst
            | succ k => exact h k (Nat.lt_of_succ_lt_succ hk)
          · exact fun h k hk => h (k + 1) (Nat.succ_lt_succ hk)
      · rw [strncmpEq, if_pos hfirst]
        exact iff_of_false Bool.false_ne_true fun h => hfirst (h 0 (Nat.succ_pos n))

/-- A string of the source. -/
def literal (bytes : List UInt8) : Nat → UInt8 :=
  fun i => bytes.getD i 0

/-- `"CD001"`. -/
def standardId : Nat → UInt8 :=
  literal [0x43, 0x44, 0x30, 0x30, 0x31]

/-- `"EL TORITO SPECIFICATION"`. -/
def elTorito : Nat → UInt8 :=
  literal
    [0x45, 0x4C, 0x20, 0x54, 0x4F, 0x52, 0x49, 0x54, 0x4F, 0x20, 0x53, 0x50, 0x45, 0x43,
      0x49, 0x46, 0x49, 0x43, 0x41, 0x54, 0x49, 0x4F, 0x4E]

/-- The bytes from a place on. -/
def fromPlace (bytes : Nat → UInt8) (place : Nat) : Nat → UInt8 :=
  fun i => bytes (place + i)

/-- A number of four bytes, after `__builtin_bswap32`. -/
def swapped32 (bytes : Nat → UInt8) (place : Nat) : Nat :=
  (bytes place).toNat + (bytes (place + 1)).toNat * 0x100 +
    (bytes (place + 2)).toNat * 0x10000 + (bytes (place + 3)).toNat * 0x1000000

/-- The loop over the descriptors from sector `i` on: the sector of the boot record. -/
def findBootRecord (r : IsoReads) : Nat → Nat → Option Nat
  | 0, _ => none
  | left + 1, i =>
      if r.sectorResult i ≠ 0 then
        none
      else if r.sector i 0 = 0 ∧ strncmpEq (fromPlace (r.sector i) 1) standardId 5 = true then
        some i
      else if r.sector i 0 = 255 then
        none
      else
        findBootRecord r left (i + 1)

/-- `get_dol_iso9660`. -/
def getDolIso9660 (r : IsoReads) : Nat :=
  if r.magicResult ≠ 0 then
    0
  else if strncmpEq (fromPlace r.magic 1) standardId 5 = false then
    0
  else
    match findBootRecord r (256 - 16) 16 with
    | none => 0
    | some i =>
        if strncmpEq (fromPlace (r.sector i) 7) elTorito 24 = false then
          0
        else if r.catalogResult ≠ 0 then
          0
        else
          swapped32 r.catalog (32 + 8) * isoSectorSize % 0x100000000

end Boot
end Cubiboot
