import Cubiboot.Foundations.CopyRange

/-!
# Partly known stores

What is known of a store: the value of some cells, and nothing of the others.
`Fits known store` says that the store has the known values, and `fill known store`
puts them there.  A transfer makes the cells known that it fills.

Results: `fill_known` and `fill_unknown`, the cells of a store that is filled in;
`fits_fill` and `fill_of_fits`, that a store fits just what it agrees with;
`fill_overlay`, that what is known later counts; and `copyRange_eq_fill`, that a copy
fills in the cells it covers.
-/

namespace Cubiboot
namespace Partly

open CopyRange

universe u

variable {β : Type u}

/-- The known cells of a store. -/
abbrev Known (β : Type u) := Nat → Option β

/-- A store with the known values. -/
def Fits (known : Known β) (store : Nat → β) : Prop :=
  ∀ i v, known i = some v → store i = v

/-- A store with the known values put in. -/
def fill (known : Known β) (store : Nat → β) : Nat → β :=
  fun i => (known i).getD (store i)

/-- What is known when `later` has been put over `earlier`. -/
def overlay (later earlier : Known β) : Known β :=
  fun i => (later i).or (earlier i)

/-- The cells that `copyRange dst place count src` fills. -/
def copied (place count : Nat) (src : Nat → β) : Known β :=
  fun i => if place ≤ i ∧ i < place + count then some (src (i - place)) else none

variable {known later earlier : Known β} {store : Nat → β} {i place count : Nat}
  {src : Nat → β}

theorem fits_fill (known : Known β) (store : Nat → β) : Fits known (fill known store) := by
  intro i v h
  rw [fill, h]
  rfl

theorem fill_of_fits (h : Fits known store) : fill known store = store := by
  funext i
  rw [fill]
  cases hi : known i with
  | none => rfl
  | some v => exact (h i v hi).symm

theorem fill_unknown (h : known i = none) : fill known store i = store i := by
  rw [fill, h]
  rfl

theorem fill_known {v : β} (h : known i = some v) : fill known store i = v := by
  rw [fill, h]
  rfl

/-- What has been put in last is there. -/
theorem fill_overlay : fill (overlay later earlier) store = fill later (fill earlier store) := by
  funext i
  simp only [fill, overlay]
  cases later i <;> rfl

theorem copyRange_eq_fill (store : Nat → β) :
    copyRange store place count src = fill (copied place count src) store := by
  funext i
  simp only [copyRange, fill, copied]
  split <;> rfl

theorem copied_inside (h₁ : place ≤ i) (h₂ : i < place + count) :
    copied place count src i = some (src (i - place)) := by
  rw [copied, if_pos ⟨h₁, h₂⟩]

theorem copied_outside (h : i < place ∨ place + count ≤ i) :
    copied place count src i = none := by
  rw [copied, if_neg (by omega)]

end Partly
end Cubiboot
