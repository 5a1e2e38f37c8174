import Cubiboot.Foundations.CopyRange

/-!
# Regions placed in an indexed store

A region has a place, a number of cells and their content.  `Placed regions before
after` says that a store has every region, and is otherwise as it was: what a program
that writes regions one after another comes to when they are apart (`Placed.append`).

Results: `Placed.cons` and `Placed.append`, region after region; `placed_copyRange`,
that a copy places one; `placed_copiedAll`, that copies which are apart are all there in
the end; and `copiedAll_outside`, the cells that no region covers.
-/

namespace Cubiboot
namespace Placement

open CopyRange

universe u

variable {β : Type u}

/-- Cells and their content. -/
structure Region (β : Type u) where
  place : Nat
  count : Nat
  content : Nat → β

/-- A cell of a region. -/
def Region.Covers (r : Region β) (a : Nat) : Prop :=
  r.place ≤ a ∧ a < r.place + r.count

instance (r : Region β) (a : Nat) : Decidable (r.Covers a) :=
  inferInstanceAs (Decidable (_ ∧ _))

/-- A store, with the region copied to it. -/
def Region.copied (r : Region β) (store : Nat → β) : Nat → β :=
  copyRange store r.place r.count r.content

/-- A store, with regions copied to it one after another. -/
def copiedAll (regions : List (Region β)) (store : Nat → β) : Nat → β :=
  regions.foldl (fun store r => r.copied store) store

/-- No cell is in both. -/
def Region.Apart (r s : Region β) : Prop :=
  r.place + r.count ≤ s.place ∨ s.place + s.count ≤ r.place

instance (r s : Region β) : Decidable (r.Apart s) :=
  inferInstanceAs (Decidable (_ ∨ _))

/-- A store has the regions, and is otherwise what it was. -/
structure Placed (regions : List (Region β)) (before after : Nat → β) : Prop where
  inside : ∀ r ∈ regions, ∀ i < r.count, after (r.place + i) = r.content i
  outside : ∀ a, (∀ r ∈ regions, ¬ r.Covers a) → after a = before a

variable {r s : Region β} {regions : List (Region β)} {before middle after other : Nat → β}

theorem Placed.nil : Placed [] before before :=
  ⟨fun _ hr => absurd hr List.not_mem_nil, fun _ _ => rfl⟩

theorem placed_copyRange (r : Region β) (before : Nat → β) :
    Placed [r] before (copyRange before r.place r.count r.content) := by
  constructor
  · intro s hs i hi
    rw [List.mem_singleton] at hs
    subst hs
    rw [copyRange_inside (Nat.le_add_right _ _) (by omega), Nat.add_sub_cancel_left]
  · intro a ha
    have hno := ha r (List.mem_singleton_self r)
    refine copyRange_outside ?_
    rw [Region.Covers] at hno
    omega

theorem Region.Apart.not_covers (h : r.Apart s) {i : Nat} (hi : i < r.count) :
    ¬ s.Covers (r.place + i) := by
  rw [Region.Apart] at h
  rw [Region.Covers]
  omega

/-- What is placed first stays, when the rest is apart from it. -/
theorem Placed.append
    {later : List (Region β)} (hfirst : Placed regions before middle)
    (hrest : Placed later middle after) (hapart : ∀ r ∈ regions, ∀ s ∈ later, r.Apart s) :
    Placed (regions ++ later) before after := by
  constructor
  · intro s hs i hi
    rcases List.mem_append.1 hs with hs | hs
    · rw [hrest.outside _ fun t ht => (hapart s hs t ht).not_covers hi]
      exact hfirst.inside s hs i hi
    · exact hrest.inside s hs i hi
  · intro a ha
    rw [hrest.outside a fun s hs => ha s (List.mem_append_right _ hs)]
    exact hfirst.outside a fun s hs => ha s (List.mem_append_left _ hs)

theorem Placed.cons
    (hfirst : Placed [r] before middle) (hrest : Placed regions middle after)
    (hapart : ∀ s ∈ regions, r.Apart s) : Placed (r :: regions) before after := by
  refine hfirst.append hrest fun s hs => ?_
  rw [List.mem_singleton] at hs
  rw [hs]
  exact hapart

/-- Cells in none of the regions stay. -/
theorem copiedAll_outside {a : Nat} (h : ∀ r ∈ regions, ¬ r.Covers a) :
    copiedAll regions before a = before a := by
  induction regions generalizing before with
  | nil => rfl
  | cons r regions ih =>
      have hrest : copiedAll regions (r.copied before) a = r.copied before a :=
        ih fun s hs => h s (List.mem_cons_of_mem _ hs)
      have hfirst := (placed_copyRange r before).outside a fun s hs => by
        rw [List.mem_singleton.1 hs]
        exact h r List.mem_cons_self
      exact hrest.trans hfirst

/-- Regions that are apart are all there after they have been copied. -/
theorem placed_copiedAll (h : regions.Pairwise Region.Apart) (before : Nat → β) :
    Placed regions before (copiedAll regions before) := by
  induction h generalizing before with
  | nil => exact .nil
  | cons hapart _ ih => exact (placed_copyRange _ before).cons (ih _) hapart

end Placement
end Cubiboot
