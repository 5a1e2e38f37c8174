import Mathlib.Data.BitVec
import Cubiboot.Foundations.BitStream

/-!
# Cyclic redundancy codes

The remainder of a string of bits by a polynomial, the lowest coefficient in the highest
bit.  Taking the remainder one bit on is linear, and it loses nothing where the polynomial
has its highest bit, so two strings that differ in one run of bits no longer than the
polynomial have different remainders.

Results: `steps_add` and `steps_split`, several steps at once, and the step of a table
that takes the low bits of a number on their own; `feed_append` and `feed_toBits`, how
strings and the bits of a number are taken; `crc_burst`, two strings that differ in a
short run.
-/

namespace Cubiboot
namespace CyclicCode

open BitStream

variable {w : Nat} {poly a b c : BitVec w} {n : Nat}

/-- The remainder one bit on. -/
def step (poly c : BitVec w) : BitVec w :=
  if c.getLsbD 0 then (c >>> 1) ^^^ poly else c >>> 1

/-- The remainder some bits on. -/
def steps (poly : BitVec w) : Nat → BitVec w → BitVec w
  | 0, c => c
  | n + 1, c => steps poly n (step poly c)

/-- A bit is taken into the remainder. -/
def feedBit (poly c : BitVec w) (b : Bool) : BitVec w :=
  step poly (c ^^^ BitVec.ofNat w b.toNat)

/-- The remainder after some bits. -/
def feed (poly c : BitVec w) (bits : List Bool) : BitVec w :=
  bits.foldl (feedBit poly) c

/-- The code of a string of bits. -/
def crc (poly : BitVec w) (bits : List Bool) : BitVec w :=
  feed poly (BitVec.allOnes w) bits ^^^ BitVec.allOnes w

theorem step_xor : step poly (a ^^^ b) = step poly a ^^^ step poly b := by
  have hcancel : (a >>> 1) ^^^ (b >>> 1) = (a >>> 1) ^^^ poly ^^^ ((b >>> 1) ^^^ poly) := by
    rw [BitVec.xor_assoc, BitVec.xor_comm poly, BitVec.xor_assoc, BitVec.xor_self,
      BitVec.xor_zero]
  simp only [step, BitVec.getLsbD_xor, BitVec.ushiftRight_xor_distrib]
  cases a.getLsbD 0 <;> cases b.getLsbD 0
  · rfl
  · exact BitVec.xor_assoc _ _ _
  · show (a >>> 1) ^^^ (b >>> 1) ^^^ poly = (a >>> 1) ^^^ poly ^^^ (b >>> 1)
    rw [BitVec.xor_assoc, BitVec.xor_comm (b >>> 1), BitVec.xor_assoc]
  · exact hcancel

theorem steps_xor : steps poly n (a ^^^ b) = steps poly n a ^^^ steps poly n b := by
  induction n generalizing a b with
  | zero => rfl
  | succ n ih => rw [steps, step_xor, ih, ← steps, ← steps]

theorem steps_add (n m : Nat) (c : BitVec w) :
    steps poly (n + m) c = steps poly m (steps poly n c) := by
  induction n generalizing c with
  | zero => rw [Nat.zero_add, steps]
  | succ n ih => rw [Nat.add_right_comm, steps, ih, steps]

/-- Where the low bits are clear, a step is a shift. -/
theorem step_shiftLeft (hn : 0 < n) : step poly (c <<< n) = c <<< n >>> 1 := by
  have hlow : (c <<< n).getLsbD 0 = false := by
    rw [BitVec.getLsbD_shiftLeft]
    simp [hn]
  rw [step, hlow]
  rfl

theorem steps_clear (h : ∀ i < n, c.getLsbD i = false) : steps poly n c = c >>> n := by
  induction n generalizing c with
  | zero => exact (BitVec.ushiftRight_zero c).symm
  | succ n ih =>
      have hstep : step poly c = c >>> 1 := by
        rw [step, h 0 (Nat.succ_pos n)]
        rfl
      rw [steps, hstep, ih fun i hi => ?_, ← BitVec.shiftRight_add, Nat.add_comm]
      rw [BitVec.getLsbD_ushiftRight]
      exact h (1 + i) (by omega)

/-- The low bits of a number are taken on their own. -/
theorem steps_split :
    steps poly n c = steps poly n ((c.setWidth n).setWidth w) ^^^ (c >>> n) := by
  have hsplit : c = (c.setWidth n).setWidth w ^^^ (c >>> n) <<< n := by
    refine BitVec.eq_of_getLsbD_eq fun i hi => ?_
    rw [BitVec.getLsbD_xor, BitVec.getLsbD_setWidth, BitVec.getLsbD_setWidth,
      BitVec.getLsbD_shiftLeft, BitVec.getLsbD_ushiftRight]
    by_cases hlow : i < n
    · simp [hi, hlow]
    · simp [hi, hlow, Nat.add_sub_cancel' (Nat.not_lt.1 hlow)]
  have hhigh : steps poly n ((c >>> n) <<< n) = c >>> n := by
    rw [steps_clear fun i hi => by rw [BitVec.getLsbD_shiftLeft]; simp [hi]]
    refine BitVec.eq_of_getLsbD_eq fun i hi => ?_
    rw [BitVec.getLsbD_ushiftRight, BitVec.getLsbD_shiftLeft, BitVec.getLsbD_ushiftRight,
      Nat.add_sub_cancel_left]
    by_cases htop : n + i < w
    · simp [htop]
    · simp [htop, BitVec.getLsbD_of_ge c (n + i) (Nat.not_lt.1 htop)]
  calc steps poly n c
      = steps poly n ((c.setWidth n).setWidth w ^^^ (c >>> n) <<< n) := by rw [← hsplit]
    _ = _ := by rw [steps_xor, hhigh]

theorem xor_eq_zero_iff : a ^^^ b = 0#w ↔ a = b := by
  constructor
  · intro h
    rw [← BitVec.xor_zero (x := a), ← BitVec.xor_self (x := b), ← BitVec.xor_assoc, h,
      BitVec.zero_xor]
  · rintro rfl
    exact BitVec.xor_self

theorem step_eq_zero (hpoly : poly.msb = true) (h : step poly c = 0#w) : c = 0#w := by
  rw [step] at h
  split at h
  · have hmsb := congrArg BitVec.msb (xor_eq_zero_iff.1 h)
    rw [hpoly, BitVec.msb_ushiftRight] at hmsb
    simp at hmsb
  · rename_i hlow
    refine BitVec.eq_of_getLsbD_eq fun i hi => ?_
    cases i with
    | zero => simpa using hlow
    | succ i =>
        have hbit := congrArg (fun x => x.getLsbD i) h
        simp only [BitVec.getLsbD_ushiftRight] at hbit
        rw [Nat.add_comm, hbit]
        simp

theorem step_injective (hpoly : poly.msb = true) (h : step poly a = step poly b) : a = b := by
  rw [← xor_eq_zero_iff, ← step_xor] at h
  exact xor_eq_zero_iff.1 (step_eq_zero hpoly h)

theorem steps_injective (hpoly : poly.msb = true) (h : steps poly n a = steps poly n b) :
    a = b := by
  induction n generalizing a b with
  | zero => exact h
  | succ n ih => exact step_injective hpoly (ih h)

theorem xor_left_cancel (h : c ^^^ a = c ^^^ b) : a = b := by
  have h' := congrArg (c ^^^ ·) h
  simp only [← BitVec.xor_assoc, BitVec.xor_self, BitVec.zero_xor] at h'
  exact h'

theorem xor_right_cancel (h : a ^^^ c = b ^^^ c) : a = b := by
  rw [BitVec.xor_comm a, BitVec.xor_comm b] at h
  exact xor_left_cancel h

theorem feed_injective (hpoly : poly.msb = true) {bits : List Bool}
    (h : feed poly a bits = feed poly b bits) : a = b := by
  induction bits generalizing a b with
  | nil => exact h
  | cons bit bits ih => exact xor_right_cancel (step_injective hpoly (ih h))

theorem feed_append {bits more : List Bool} :
    feed poly c (bits ++ more) = feed poly (feed poly c bits) more :=
  List.foldl_append

/-- The bits of a number are taken as its steps. -/
theorem feed_toBits {v : Nat} (hn : n ≤ w) (hv : v < 2 ^ n) :
    feed poly c (toBits n v) = steps poly n (c ^^^ BitVec.ofNat w v) := by
  induction n generalizing c v with
  | zero =>
      obtain rfl : v = 0 := by
        rw [Nat.pow_zero] at hv
        omega
      exact BitVec.xor_zero.symm
  | succ n ih =>
      have hhalf : v / 2 < 2 ^ n := by
        rw [Nat.pow_succ] at hv
        omega
      have hlow : (decide (v % 2 = 1)).toNat = v % 2 := by
        rcases Nat.mod_two_eq_zero_or_one v with h | h <;> simp [h]
      have hsplit : BitVec.ofNat w v = BitVec.ofNat w (v % 2) ^^^ BitVec.ofNat w (v / 2) <<< 1 := by
        refine BitVec.eq_of_getLsbD_eq fun i hi => ?_
        rw [BitVec.getLsbD_xor, BitVec.getLsbD_shiftLeft, BitVec.getLsbD_ofNat,
          BitVec.getLsbD_ofNat, BitVec.getLsbD_ofNat]
        cases i with
        | zero => simp [hi, Nat.testBit_zero]
        | succ i =>
            have hsmall : (v % 2).testBit (i + 1) = false :=
              Nat.testBit_lt_two_pow (Nat.lt_of_lt_of_le (Nat.mod_lt _ Nat.two_pos)
                (Nat.le_self_pow (Nat.succ_ne_zero i) 2))
            simp [hi, hsmall, Nat.lt_of_succ_lt hi, Nat.testBit_succ]
      have hshift : BitVec.ofNat w (v / 2) <<< 1 >>> 1 = BitVec.ofNat w (v / 2) := by
        refine BitVec.eq_of_getLsbD_eq fun i hi => ?_
        rw [BitVec.getLsbD_ushiftRight, BitVec.getLsbD_shiftLeft, BitVec.getLsbD_ofNat,
          Nat.add_sub_cancel_left, BitVec.getLsbD_ofNat]
        by_cases htop : 1 + i < w
        · simp [htop, hi]
        · have hzero : (v / 2).testBit i = false :=
            Nat.testBit_lt_two_pow (hhalf.trans_le (Nat.pow_le_pow_right Nat.two_pos (by omega)))
          simp [hzero]
      rw [toBits, feed, List.foldl_cons, ← feed, ih (Nat.le_of_succ_le hn) hhalf, steps, hsplit,
        ← BitVec.xor_assoc, step_xor, step_shiftLeft Nat.one_pos, hshift, feedBit, hlow]

/--
Two strings that differ in one run of bits that is no longer than the polynomial have
different codes.
-/
theorem crc_burst (hpoly : poly.msb = true) (before after : List Bool) {x y : List Bool}
    (hlen : x.length = y.length) (hshort : x.length ≤ w) (hne : x ≠ y) :
    crc poly (before ++ (x ++ after)) ≠ crc poly (before ++ (y ++ after)) := by
  intro h
  have hfeed := xor_right_cancel h
  rw [feed_append, feed_append, feed_append, feed_append] at hfeed
  have hmid := feed_injective hpoly hfeed
  have hlt : ∀ z : List Bool, z.length ≤ w → ofBits z < 2 ^ w := fun z hz =>
    (ofBits_lt z).trans_le (Nat.pow_le_pow_right Nat.two_pos hz)
  rw [← toBits_ofBits x, ← toBits_ofBits y, feed_toBits hshort (ofBits_lt x),
    feed_toBits (hlen ▸ hshort) (ofBits_lt y), ← hlen] at hmid
  have hnum := congrArg BitVec.toNat (xor_left_cancel (steps_injective hpoly hmid))
  rw [BitVec.toNat_ofNat, BitVec.toNat_ofNat, Nat.mod_eq_of_lt (hlt x hshort),
    Nat.mod_eq_of_lt (hlt y (hlen ▸ hshort))] at hnum
  have hxy := congrArg (toBits x.length) hnum
  rw [toBits_ofBits, hlen, toBits_ofBits] at hxy
  exact hne hxy

end CyclicCode
end Cubiboot
