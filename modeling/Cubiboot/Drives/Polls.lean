import Cubiboot.Drives.Blocks

/-!
# Polls and transactions

The bit of a transfer is polled until the device clears it, and the driver gives it so
many polls: `pollWhile` is that loop, on what the register reads as, poll by poll.
`transactions` counts accesses together with the polls of their bits, whatever the
accesses are, so that a bound for the accesses of a read gives one for its transactions.

The drivers read block after block.  What a read has spent is a relation between the
states before and after it that adds up, and a bound for one block then gives one for all
of them.

Results: `pollCount_le`, that no bit takes more polls than it is given;
`transactions_le`, that each access has a bounded share in the transactions;
`eachBlock_within`, by induction on the blocks, the cost of a read whose blocks all come to
an end; and `eachBlock_single`, that a read of one block which ends has come to the end of
that block.
-/

namespace Cubiboot
namespace Drives

open Words

universe u

/-- `timeout` of the loops that poll the bit of a transfer. -/
abbrev transferPolls : Nat := 1000000

/-- `while (busy && --timeout)`: what is left, and the number of the next poll. -/
def pollWhile (busy : Nat → Bool) : Nat → Nat → Nat × Nat
  | 0, i => (0, i)
  | timeout + 1, i =>
      if busy i then pollWhile busy timeout (i + 1) else (timeout + 1, i + 1)

/-- The bit is found clear before the timeout. -/
def polledClear (busy : Nat → Bool) : Bool :=
  (pollWhile busy transferPolls 0).1 ≠ 0

/-- The number of polls. -/
def pollCount (busy : Nat → Bool) : Nat :=
  (pollWhile busy transferPolls 0).2

/-- The accesses from one on, each with its polls. -/
def transactions (polls : Nat → Nat) (start : Nat) : Nat → Nat
  | 0 => 0
  | n + 1 => transactions polls start n + 1 + polls (start + n)

variable {σ : Type u} {one : ReadOne σ} {bound : Nat}

theorem pollWhile_polls (busy : Nat → Bool) (timeout i : Nat) :
    (pollWhile busy timeout i).2 ≤ i + timeout := by
  induction timeout generalizing i with
  | zero =>
      exact Nat.le_refl i
  | succ timeout ih =>
      rw [pollWhile]
      split
      · have hrest := ih (i + 1)
        omega
      · simp only
        omega

theorem pollCount_le (busy : Nat → Bool) : pollCount busy ≤ transferPolls := by
  have hpolls := pollWhile_polls busy transferPolls 0
  rw [Nat.zero_add] at hpolls
  exact hpolls

theorem transactions_le
    {polls : Nat → Nat} {most : Nat} (hpolls : ∀ n, polls n ≤ most) (start n : Nat) :
    transactions polls start n ≤ n * (1 + most) := by
  induction n with
  | zero =>
      exact Nat.zero_le _
  | succ n ih =>
      have hlast := hpolls (start + n)
      rw [transactions, Nat.succ_mul]
      omega

/--
The rule for the cost of a loop over blocks that all come to an end: `Within n` is any
relation for a cost of at most `n`.
-/
theorem eachBlock_within
    (Within : Nat → σ → σ → Prop) (hrefl : ∀ s, Within 0 s s)
    (htrans : ∀ {n m s s' s''}, Within n s s' → Within m s' s'' → Within (n + m) s s'')
    (hmono : ∀ {n m s s'}, Within n s s' → n ≤ m → Within m s s')
    (hone : ∀ i s, ∃ block s', one i s = some (block, s') ∧ Within bound s s')
    (left i : Nat) (s : σ) (buffer : Bytes) :
    ∃ ok out s', eachBlock one left i s buffer = some (ok, out, s') ∧
      Within (left * bound) s s' := by
  induction left generalizing i s buffer with
  | zero =>
      refine ⟨true, buffer, s, rfl, ?_⟩
      rw [Nat.zero_mul]
      exact hrefl s
  | succ left ih =>
      obtain ⟨block, s', hblock, hcost⟩ := hone i s
      have hsize : (left + 1) * bound = bound + left * bound := by
        rw [Nat.succ_mul, Nat.add_comm]
      rw [hsize]
      cases block with
      | none =>
          refine ⟨false, buffer, s', ?_, hmono hcost (Nat.le_add_right _ _)⟩
          rw [eachBlock, hblock]
      | some block =>
          obtain ⟨ok, out, s'', hrest, hmore⟩ := ih (i + 1) s'
            (CopyRange.copyRange buffer (word (i * blockSize)) blockSize block)
          refine ⟨ok, out, s'', ?_, htrans hcost hmore⟩
          rw [eachBlock, hblock]
          exact hrest

/-- A loop over one block ends where the reading of the block does. -/
theorem eachBlock_single {i : Nat} {s s' : σ} {buffer out : Bytes} {ok : Bool}
    (h : eachBlock one 1 i s buffer = some (ok, out, s')) :
    ∃ block, one i s = some (block, s') := by
  rw [eachBlock] at h
  split at h
  · cases h
  · rename_i s₁ hone
    cases h
    exact ⟨none, hone⟩
  · rename_i block s₁ hone
    cases h
    exact ⟨some block, hone⟩

end Drives
end Cubiboot
