import Mathlib.Tactic.Common

/-!
# Copies between indexed stores

`copyRange dst place count src` is `dst` with its cells `place`, …,
`place + count - 1` taken from the first cells of `src`.  A `memcpy`, a DMA
transfer and a device transfer are all of this form, whatever the cells hold.

Results: `copyRange_inside` and `copyRange_outside`, the cells of the range and the
others; `copyRange_append`, two copies that follow each other; and the simplification of
a copy of no cells.
-/

namespace Cubiboot
namespace CopyRange

universe u

variable {β : Type u}

/-- `dst` with `count` cells from `place` on taken from `src`. -/
def copyRange (dst : Nat → β) (place count : Nat) (src : Nat → β) : Nat → β :=
  fun i => if place ≤ i ∧ i < place + count then src (i - place) else dst i

variable {dst src : Nat → β} {place count i : Nat}

theorem copyRange_inside
    (h₁ : place ≤ i) (h₂ : i < place + count) :
    copyRange dst place count src i = src (i - place) := by
  simp [copyRange, h₁, h₂]

theorem copyRange_outside
    (h : i < place ∨ place + count ≤ i) :
    copyRange dst place count src i = dst i := by
  have hno : ¬ (place ≤ i ∧ i < place + count) := by omega
  simp [copyRange, hno]

@[simp] theorem copyRange_zero :
    copyRange dst place 0 src = dst := by
  funext i
  exact copyRange_outside (by omega)

/-- Two copies from one source that follow each other. -/
theorem copyRange_append
    {len : Nat} :
    copyRange (copyRange dst place count src) (place + count) len
        (fun i => src (count + i)) =
      copyRange dst place (count + len) src := by
  funext i
  by_cases h₁ : place + count ≤ i ∧ i < place + count + len
  · rw [copyRange_inside h₁.1 h₁.2, copyRange_inside (by omega) (by omega)]
    congr 1
    omega
  · rw [copyRange_outside (by omega)]
    by_cases h₂ : place ≤ i ∧ i < place + count
    · rw [copyRange_inside h₂.1 h₂.2, copyRange_inside (by omega) (by omega)]
    · rw [copyRange_outside (by omega), copyRange_outside (by omega)]

end CopyRange
end Cubiboot
