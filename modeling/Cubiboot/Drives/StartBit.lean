import Cubiboot.Drives.Blocks

/-!
# The start bit of EXI

In their native mode the drivers of SD cards and of IDE-EXI run EXI by its registers.
They set the start bit of a transfer and read the register until the bit is clear, with
nothing that would end the loop for them: a bit that stays set keeps them there for ever.
The mode is for the time after the IPL, and with it its EXI driver, has been cleared from
memory; before that the drivers call the functions of the IPL, which return.

A device is given by what the register reads as, transfer by transfer and poll by poll.
The loop runs on fuel, and `none` says that it has not ended by then.

Results: `awaitStartBit_some`, that a loop that ends has found the bit clear, and after
how many polls; `awaitStartBit_of`, that it ends where the bit is found clear in time.
-/

namespace Cubiboot
namespace Drives

/--
`while (EXI[chn][3] & 1);`, from poll `i` on: how many polls there have been, or `none` for
a loop that goes on.
-/
def awaitStartBit (busy : Nat → Bool) : Nat → Nat → Option Nat
  | 0, _ => none
  | fuel + 1, i => if busy i then awaitStartBit busy fuel (i + 1) else some (i + 1)

/-- The bit is found clear by one of the first polls. -/
def ClearsWithin (busy : Nat → Bool) (k : Nat) : Prop :=
  ∃ p < k, busy p = false

variable {busy : Nat → Bool} {fuel i n k : Nat}

theorem ClearsWithin.mono (h : ClearsWithin busy k) (hle : k ≤ n) : ClearsWithin busy n := by
  obtain ⟨p, hp, hclear⟩ := h
  exact ⟨p, Nat.lt_of_lt_of_le hp hle, hclear⟩

theorem awaitStartBit_some (h : awaitStartBit busy fuel i = some n) :
    ∃ p, n = p + 1 ∧ i ≤ p ∧ p < i + fuel ∧ busy p = false := by
  induction fuel generalizing i with
  | zero =>
      cases h
  | succ fuel ih =>
      rw [awaitStartBit] at h
      split at h
      · obtain ⟨p, hn, hle, hlt, hclear⟩ := ih h
        exact ⟨p, hn, by omega, by omega, hclear⟩
      · rename_i hclear
        cases h
        exact ⟨i, rfl, Nat.le_refl i, by omega, Bool.eq_false_iff.2 hclear⟩

theorem awaitStartBit_of {p : Nat} (hp : p < fuel) (hclear : busy (i + p) = false) :
    ∃ n, awaitStartBit busy fuel i = some n := by
  induction fuel generalizing i p with
  | zero =>
      exact absurd hp (Nat.not_lt_zero p)
  | succ fuel ih =>
      rw [awaitStartBit]
      split
      · rename_i hbusy
        cases p with
        | zero =>
            rw [Nat.add_zero, hbusy] at hclear
            cases hclear
        | succ p =>
            refine ih (p := p) (by omega) ?_
            rw [Nat.add_assoc, Nat.add_comm 1]
            exact hclear
      · exact ⟨i + 1, rfl⟩

/-- The polls of a loop that has ended are within its fuel. -/
theorem awaitStartBit_le (h : awaitStartBit busy fuel 0 = some n) : n ≤ fuel := by
  obtain ⟨p, rfl, _, hlt, _⟩ := awaitStartBit_some h
  omega

theorem ClearsWithin.awaitStartBit (h : ClearsWithin busy fuel) :
    ∃ n, awaitStartBit busy fuel 0 = some n := by
  obtain ⟨p, hp, hclear⟩ := h
  refine awaitStartBit_of hp ?_
  rw [Nat.zero_add]
  exact hclear

theorem clearsWithin_of_await (h : awaitStartBit busy fuel 0 = some n) : ClearsWithin busy n := by
  obtain ⟨p, rfl, _, _, hclear⟩ := awaitStartBit_some h
  exact ⟨p, Nat.lt_succ_self p, hclear⟩

end Drives
end Cubiboot
