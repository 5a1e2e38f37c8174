import Mathlib.Data.List.Basic
import Mathlib.Data.Nat.Bitwise

/-!
# Bits of numbers and bytes

`toBits w n` are the `w` low bits of `n`, the least significant first, and `ofBits` is the
number of such a list.  The bits of a string of bytes are those of each byte in turn.

Results: `toBits_add` and `toBits_join`, a number taken apart into two and put together
again; `toBits_ofBits`, the two directions; `bitsOf_append`, the bits of strings one
after the other; `toBits_inj`, `bitsOf_inj` and `leBytes_inj`, that the bits determine
the number or the bytes they come from; and `bitsOf_leBytes`, that a number written low
byte first has the bits of the number.
-/

namespace Cubiboot
namespace BitStream

/-- The `w` low bits of a number, the least significant first. -/
def toBits : Nat → Nat → List Bool
  | 0, _ => []
  | w + 1, n => decide (n % 2 = 1) :: toBits w (n / 2)

/-- The number of a list of bits. -/
def ofBits : List Bool → Nat
  | [] => 0
  | b :: bs => b.toNat + 2 * ofBits bs

@[simp]
theorem toBits_length (w n : Nat) : (toBits w n).length = w := by
  induction w generalizing n with
  | zero => rfl
  | succ w ih => rw [toBits, List.length_cons, ih]

theorem ofBits_toBits (w n : Nat) : ofBits (toBits w n) = n % 2 ^ w := by
  induction w generalizing n with
  | zero => rw [Nat.pow_zero, Nat.mod_one, toBits, ofBits]
  | succ w ih =>
      rw [toBits, ofBits, ih, Nat.pow_succ, Nat.mul_comm (2 ^ w) 2, Nat.mod_mul]
      rcases Nat.mod_two_eq_zero_or_one n with h | h <;> simp [h]

theorem toBits_ofBits (bs : List Bool) : toBits bs.length (ofBits bs) = bs := by
  induction bs with
  | nil => rfl
  | cons b bs ih =>
      rw [List.length_cons, toBits, ofBits]
      have hmod : (b.toNat + 2 * ofBits bs) % 2 = b.toNat := by
        cases b <;> simp
      have hdiv : (b.toNat + 2 * ofBits bs) / 2 = ofBits bs := by
        cases b
        · simp
        · show (1 + 2 * ofBits bs) / 2 = ofBits bs
          omega
      rw [hmod, hdiv, ih]
      cases b <;> rfl

theorem ofBits_lt (bs : List Bool) : ofBits bs < 2 ^ bs.length := by
  have h := ofBits_toBits bs.length (ofBits bs)
  rw [toBits_ofBits] at h
  rw [h]
  exact Nat.mod_lt _ (Nat.two_pow_pos _)

/-- Bits of a number after the first ones. -/
theorem toBits_add (w v n : Nat) : toBits (w + v) n = toBits w n ++ toBits v (n / 2 ^ w) := by
  induction w generalizing n with
  | zero => rw [Nat.zero_add, Nat.pow_zero, Nat.div_one, toBits, List.nil_append]
  | succ w ih =>
      rw [Nat.add_right_comm, toBits, ih, toBits, List.cons_append, Nat.div_div_eq_div_mul,
        Nat.pow_succ, Nat.mul_comm 2]

theorem toBits_mod (w n : Nat) : toBits w (n % 2 ^ w) = toBits w n := by
  have h := toBits_ofBits (toBits w n)
  rw [toBits_length, ofBits_toBits] at h
  exact h

/-- The bits of a number put together from two. -/
theorem toBits_join {w v a b : Nat} (ha : a < 2 ^ w) :
    toBits (w + v) (a + b * 2 ^ w) = toBits w a ++ toBits v b := by
  rw [toBits_add, ← toBits_mod w (a + b * 2 ^ w), Nat.add_mul_mod_self_right, toBits_mod,
    Nat.add_mul_div_right _ _ (Nat.two_pow_pos w), Nat.div_eq_of_lt ha, Nat.zero_add]

theorem toBits_inj {w a b : Nat} (ha : a < 2 ^ w) (hb : b < 2 ^ w)
    (h : toBits w a = toBits w b) : a = b := by
  rw [← Nat.mod_eq_of_lt ha, ← Nat.mod_eq_of_lt hb, ← ofBits_toBits, ← ofBits_toBits, h]

/-- The bits of bytes, those of each byte from the least significant on. -/
def bitsOf (bs : List UInt8) : List Bool :=
  bs.flatMap fun b => toBits 8 b.toNat

@[simp]
theorem bitsOf_nil : bitsOf [] = [] :=
  rfl

theorem bitsOf_cons (b : UInt8) (bs : List UInt8) :
    bitsOf (b :: bs) = toBits 8 b.toNat ++ bitsOf bs :=
  rfl

theorem bitsOf_append (as bs : List UInt8) : bitsOf (as ++ bs) = bitsOf as ++ bitsOf bs :=
  List.flatMap_append

@[simp]
theorem bitsOf_length (bs : List UInt8) : (bitsOf bs).length = 8 * bs.length := by
  induction bs with
  | nil => rfl
  | cons b bs ih =>
      rw [bitsOf_cons, List.length_append, toBits_length, ih, List.length_cons]
      omega

theorem bitsOf_inj {as bs : List UInt8} (h : bitsOf as = bitsOf bs) : as = bs := by
  induction as generalizing bs with
  | nil =>
      have hlen := congrArg List.length h
      rw [bitsOf_length, bitsOf_length] at hlen
      exact (List.length_eq_zero_iff.1 (by simpa using hlen.symm)).symm
  | cons a as ih =>
      cases bs with
      | nil =>
          have hlen := congrArg List.length h
          simp at hlen
      | cons b bs =>
          rw [bitsOf_cons, bitsOf_cons] at h
          obtain ⟨hhead, htail⟩ := List.append_inj h (by simp)
          have hab : a.toNat = b.toNat := toBits_inj a.toNat_lt b.toNat_lt hhead
          rw [UInt8.toNat_inj.1 hab, ih htail]

/-- Whole bytes at the front of a string. -/
theorem bitsOf_prefix {as bs : List UInt8} {rest : List Bool} (h : bitsOf bs = bitsOf as ++ rest) :
    ∃ cs, bs = as ++ cs ∧ rest = bitsOf cs := by
  have hlen : as.length ≤ bs.length := by
    have hl := congrArg List.length h
    rw [List.length_append, bitsOf_length, bitsOf_length] at hl
    omega
  have hsplit := List.take_append_drop as.length bs
  rw [← hsplit, bitsOf_append] at h
  obtain ⟨hhead, htail⟩ := List.append_inj h (by simp [hlen])
  refine ⟨bs.drop as.length, ?_, htail.symm⟩
  calc bs = bs.take as.length ++ bs.drop as.length := hsplit.symm
    _ = as ++ bs.drop as.length := congrArg (· ++ bs.drop as.length) (bitsOf_inj hhead)

/-- The low bytes of a number, the least significant first. -/
def leBytes : Nat → Nat → List UInt8
  | 0, _ => []
  | w + 1, n => UInt8.ofNat n :: leBytes w (n / 2 ^ 8)

@[simp]
theorem leBytes_length (w n : Nat) : (leBytes w n).length = w := by
  induction w generalizing n with
  | zero => rfl
  | succ w ih => rw [leBytes, List.length_cons, ih]

theorem bitsOf_leBytes (w n : Nat) : bitsOf (leBytes w n) = toBits (8 * w) n := by
  induction w generalizing n with
  | zero => rfl
  | succ w ih =>
      have hlow : (UInt8.ofNat n).toNat = n % 2 ^ 8 := rfl
      rw [leBytes, bitsOf_cons, ih, hlow, toBits_mod, Nat.mul_succ, Nat.add_comm, toBits_add]

theorem leBytes_inj {w a b : Nat} (ha : a < 2 ^ (8 * w)) (hb : b < 2 ^ (8 * w))
    (h : leBytes w a = leBytes w b) : a = b := by
  have hbits := congrArg bitsOf h
  rw [bitsOf_leBytes, bitsOf_leBytes] at hbits
  exact toBits_inj ha hb hbits

end BitStream
end Cubiboot
