import Mathlib.Algebra.Group.Nat.Defs
import Mathlib.Data.Nat.Bitwise
import Mathlib.Tactic.Common

/-!
# Words of 32 bits

A word is a natural number below `0x100000000`; sums and differences are reduced
to it by `word` and `wordSub`.  `andNot x m` is `x & ~m`.  For a mask of low bits
it rounds down to a multiple of a power of two (`andNot_pred_pow`).

Results: `word_of_lt`, `word_lt` and `wordSub_of_le`, when nothing is cut off;
`andNot_pred_pow`; and `roundUp_pow`, the usual way to round up, which gives an aligned
number at or above the one it is given, by less than a unit.
-/

namespace Cubiboot
namespace Words

/-- Reduce to 32 bits. -/
def word (x : Nat) : Nat :=
  x % 0x100000000

/-- `x - y`. -/
def wordSub (x y : Nat) : Nat :=
  word (x + (0x100000000 - y))

/-- `x & ~m`. -/
def andNot (x m : Nat) : Nat :=
  x &&& (0xFFFFFFFF - m)

variable {x y k : Nat}

theorem word_of_lt (h : x < 0x100000000) : word x = x :=
  Nat.mod_eq_of_lt h

theorem word_lt : word x < 0x100000000 :=
  Nat.mod_lt _ (by decide)

theorem wordSub_of_le (hle : y ≤ x) (hx : x < 0x100000000) :
    wordSub x y = x - y := by
  simp only [wordSub, word]
  omega

/-- Clearing the low bits rounds down. -/
theorem andNot_pred_pow
    (hk : k ≤ 32) (hx : x < 0x100000000) :
    andNot x (2 ^ k - 1) = x / 2 ^ k * 2 ^ k := by
  have hpos : 0 < 2 ^ k := Nat.two_pow_pos k
  have hle : 2 ^ k ≤ 2 ^ 32 := Nat.pow_le_pow_right (by decide) hk
  have hmask : 0xFFFFFFFF - (2 ^ k - 1) = 2 ^ k * (2 ^ (32 - k) - 1) := by
    rw [Nat.mul_sub, ← Nat.pow_add, Nat.add_sub_cancel' hk]
    omega
  have hx' : x < 2 ^ 32 := by simpa using hx
  rw [andNot, hmask]
  refine Nat.eq_of_testBit_eq fun i => ?_
  rw [Nat.testBit_and, Nat.mul_comm (2 ^ k), Nat.testBit_mul_two_pow,
    Nat.testBit_mul_two_pow, Nat.testBit_two_pow_sub_one, Nat.testBit_div_two_pow]
  by_cases hki : k ≤ i
  · have hi : i - k + k = i := Nat.sub_add_cancel hki
    rw [hi]
    by_cases hi32 : i < 32
    · have hlt : i - k < 32 - k := by omega
      simp [hki, hlt]
    · have hbit : x.testBit i = false :=
        Nat.testBit_lt_two_pow
          (Nat.lt_of_lt_of_le hx' (Nat.pow_le_pow_right (by decide) (by omega)))
      simp [hbit]
  · simp [hki]

/-- Rounding up to a power of two: at or above, by less than one unit, and aligned. -/
theorem roundUp_pow
    (hlt : x + 2 ^ k < 0x100000000) :
    let y := andNot (wordSub (word (x + 2 ^ k)) 1) (wordSub (2 ^ k) 1)
    x ≤ y ∧ y < x + 2 ^ k ∧ y % 2 ^ k = 0 := by
  have hpos : 0 < 2 ^ k := Nat.two_pow_pos k
  have hk : k ≤ 32 := by
    by_contra hk
    have hle : 2 ^ 32 ≤ 2 ^ k := Nat.pow_le_pow_right (by decide) (by omega)
    omega
  rw [word_of_lt hlt, wordSub_of_le (by omega) hlt, wordSub_of_le (by omega) (by omega),
    andNot_pred_pow hk (by omega)]
  have hdiv := Nat.div_add_mod (x + 2 ^ k - 1) (2 ^ k)
  have hmod := Nat.mod_lt (x + 2 ^ k - 1) hpos
  rw [Nat.mul_comm] at hdiv
  refine ⟨by omega, by omega, Nat.mul_mod_left _ _⟩

end Words
end Cubiboot
