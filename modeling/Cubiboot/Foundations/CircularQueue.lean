import Mathlib.Data.List.Basic

/-!
# Queues in circular arrays

`Holds slots first used queued` says that the `used` slots from `first` on, round the
end of the array, hold `queued` in order.

A queue of this kind has two numbers, the index of its first slot and the number of
those that are used; the slot behind the last one, and the one after the first, are
found by a remainder. What the slots that are not used have in them does not matter.

Results: `Holds.push`, that an element put into the slot behind the queue is the last of
it, as long as there is room; `Holds.pop`, that the first slot has the first element,
and that the queue without it starts one slot further on.
-/

namespace Cubiboot
namespace CircularQueue

universe u

variable {α : Type u} {slots queued : List α} {first used : Nat} {x : α}

/-- The slots from `first` on hold the queue. -/
structure Holds (slots : List α) (first used : Nat) (queued : List α) : Prop where
  count : used = queued.length
  room : used ≤ slots.length
  slot : ∀ i < queued.length, slots[(first + i) % slots.length]? = queued[i]?

theorem Holds.nil (slots : List α) (first : Nat) : Holds slots first 0 [] where
  count := rfl
  room := Nat.zero_le _
  slot := fun _ hi => absurd hi (Nat.not_lt_zero _)

/-- Slots at different distances from the first are different. -/
theorem slot_ne {n i j : Nat} (first : Nat) (hi : i < j) (hj : j < n) :
    (first + i) % n ≠ (first + j) % n := by
  intro heq
  have hmod : (j - i) % n = 0 := by
    have hsub := Nat.sub_mod_eq_zero_of_mod_eq heq.symm
    rwa [Nat.add_sub_add_left] at hsub
  rw [Nat.mod_eq_of_lt (by omega)] at hmod
  omega

/-- The slot after the queue takes another element. -/
theorem Holds.push (h : Holds slots first used queued) (hroom : used < slots.length) (x : α) :
    Holds (slots.set ((first + used) % slots.length) x) first (used + 1) (queued ++ [x]) where
  count := by rw [List.length_append, List.length_singleton, h.count]
  room := by
    rw [List.length_set]
    exact hroom
  slot := by
    intro i hi
    have hcount := h.count
    rw [List.length_append, List.length_singleton] at hi
    rw [List.length_set]
    by_cases hlast : i = used
    · subst hlast
      have hlt := Nat.mod_lt (first + i) (Nat.zero_lt_of_lt hroom)
      rw [List.getElem?_set_self hlt, hcount, List.getElem?_concat_length]
    · have hlt : i < used := by omega
      rw [List.getElem?_set_ne (slot_ne first hlt hroom).symm, h.slot i (by omega),
        List.getElem?_append_left (by omega)]

/-- The first slot has the first element, and the queue goes on after it. -/
theorem Holds.pop (h : Holds slots first used (x :: queued)) (hfirst : first < slots.length) :
    slots[first]? = some x ∧
      Holds slots ((first + 1) % slots.length) (used - 1) queued where
  left := by
    have hslot := h.slot 0 (Nat.zero_lt_succ _)
    rwa [Nat.add_zero, Nat.mod_eq_of_lt hfirst] at hslot
  right := by
    have hcount := h.count
    have hroom := h.room
    rw [List.length_cons] at hcount
    refine ⟨by omega, by omega, fun i hi => ?_⟩
    have hslot := h.slot (i + 1) (Nat.succ_lt_succ hi)
    rw [List.getElem?_cons_succ] at hslot
    rw [Nat.mod_add_mod, Nat.add_assoc, Nat.add_comm 1 i]
    exact hslot

end CircularQueue
end Cubiboot
