import Mathlib.Data.List.Nodup
import Mathlib.Data.List.Perm.Basic

/-!
# Least recently used lists

The keys that a cache of some capacity holds, the one that was used last first.
`touch` moves a key to the front.  `fill` puts a new one there, and `room` is what it
makes room with: when all places are taken, the key that was used least recently goes.

Results: `touch_append`, where the key is moved from; `touch_perm`, that nothing else is
lost or added; `mem_fill`, what is in the list after a key has been put in; and
`room_of_lt` with `room_of_full`, when a key has to go.
-/

namespace Cubiboot
namespace LruList

universe u

variable {α : Type u}

/-- The keys when there is a place for one more. -/
def room (capacity : Nat) (keys : List α) : List α :=
  if keys.length < capacity then keys else keys.dropLast

/-- A new key is used. -/
def fill (capacity : Nat) (a : α) (keys : List α) : List α :=
  a :: room capacity keys

/-- A key is used again. -/
def touch [DecidableEq α] (a : α) (keys : List α) : List α :=
  a :: keys.erase a

variable {capacity : Nat} {a b : α} {keys : List α}

theorem room_of_lt (h : keys.length < capacity) : room capacity keys = keys :=
  if_pos h

theorem room_of_full (h : capacity ≤ keys.length) : room capacity keys = keys.dropLast :=
  if_neg (Nat.not_lt.2 h)

theorem room_sublist : (room capacity keys).Sublist keys := by
  rw [room]
  split
  · exact List.Sublist.refl _
  · exact List.dropLast_sublist _

theorem mem_fill (h : b ∈ fill capacity a keys) : b = a ∨ b ∈ keys :=
  (List.mem_cons.1 h).imp_right fun hb => room_sublist.subset hb

section Touch

variable [DecidableEq α]

theorem touch_perm (h : a ∈ keys) : (touch a keys).Perm keys :=
  (List.perm_cons_erase h).symm

/-- The key is moved to the front, past those that were used after it. -/
theorem touch_append {before after : List α} (h : a ∉ before) :
    touch a (before ++ a :: after) = a :: (before ++ after) := by
  rw [touch, List.erase_append_right _ h, List.erase_cons_head]

end Touch

end LruList
end Cubiboot
