import Mathlib.Data.List.Nodup
import Mathlib.Logic.Function.Basic

/-!
# Rings that keep the latest

A history has what has been put in, the latest first.  `Keeps slot history` says that
`n` slots hold the first `n` of it, when each is put into the slot after the one
before and the first slot comes after the last.

`put` is that of a map which keeps the last `n` insertions: a key that it still has
is not inserted again.

Results: `Keeps.push`, one more element; `Keeps.mem_take`, that the slots have the
latest elements and nothing else; `Keeps.unique`, that no key is in two slots; and
`put_nodup`, that a map of this kind never has a key twice.
-/

namespace Cubiboot
namespace FifoRing

universe u v

variable {α : Type u} {n : Nat}

/-- The slots hold the first `n` of the history, each in its place. -/
def Keeps (slot : Fin n → Option α) (history : List α) : Prop :=
  ∀ i : Fin n, slot i =
    if i.val < history.length then history[(history.length - 1 - i.val) % n]? else none

/-- No slot of an empty ring holds anything. -/
theorem Keeps.nil : Keeps (fun _ : Fin n => (none : Option α)) [] := by
  intro i
  rfl

/-- How far back a slot reaches grows by one, unless it is the next slot. -/
theorem age_succ {i m : Nat} (him : i < m) (hne : i ≠ m % n) (hin : i < n) :
    (m - i) % n = (m - 1 - i) % n + 1 := by
  obtain ⟨age, hage⟩ : ∃ age, age = m - 1 - i := ⟨_, rfl⟩
  have hmi : m - i = age + 1 := by omega
  rw [hmi, ← hage]
  have hlt := Nat.mod_lt age (Nat.zero_lt_of_lt hin)
  by_cases hlast : age % n + 1 = n
  · have hround : m = i + n * (age / n + 1) := by
      have hdiv := Nat.mod_add_div age n
      rw [Nat.mul_add, Nat.mul_one]
      omega
    exact absurd (by rw [hround, Nat.add_mul_mod_self_left, Nat.mod_eq_of_lt hin]) hne
  · rw [← Nat.mod_add_mod, Nat.mod_eq_of_lt (by omega)]

/-- What is put into the next slot is kept with the others. -/
theorem Keeps.push {slot : Fin n → Option α} {history : List α} {next : Fin n}
    (h : Keeps slot history) (hnext : next.val = history.length % n) (x : α) :
    Keeps (Function.update slot next (some x)) (x :: history) := by
  intro i
  rw [List.length_cons, Nat.add_sub_cancel]
  by_cases hi : i = next
  · subst hi
    have hle : i.val ≤ history.length := by
      rw [hnext]
      exact Nat.mod_le _ _
    have hage : (history.length - i.val) % n = 0 := by
      rw [hnext]
      exact Nat.sub_mod_eq_zero_of_mod_eq (Nat.mod_mod _ _).symm
    rw [Function.update_self, if_pos (by omega), hage]
    rfl
  · have hne : i.val ≠ history.length % n := by
      rw [← hnext]
      exact fun heq => hi (Fin.ext heq)
    rw [Function.update_of_ne hi, h i]
    by_cases hlt : i.val < history.length
    · rw [if_pos hlt, if_pos (by omega), age_succ hlt hne i.isLt]
      rfl
    · have heq : ¬ i.val < history.length + 1 := by
        intro hlast
        have hlen : i.val = history.length := by omega
        rw [← hlen, Nat.mod_eq_of_lt i.isLt] at hne
        exact hne rfl
      rw [if_neg hlt, if_neg heq]

/-- The slots hold what is first in the history, and nothing else. -/
theorem Keeps.mem_take {slot : Fin n → Option α} {history : List α}
    (h : Keeps slot history) (x : α) :
    x ∈ history.take n ↔ ∃ i, slot i = some x := by
  constructor
  · intro hx
    obtain ⟨age, hage, hget⟩ := List.mem_iff_getElem.1 hx
    rw [List.length_take] at hage
    rw [List.getElem_take] at hget
    have hn : 0 < n := by omega
    -- The slot that was next when this was put in.
    have hslot : (history.length - 1 - age) % n < n := Nat.mod_lt _ hn
    refine ⟨⟨(history.length - 1 - age) % n, hslot⟩, ?_⟩
    have hle := Nat.mod_le (history.length - 1 - age) n
    have hback : (history.length - 1 - (history.length - 1 - age) % n) % n = age := by
      have hdiv := Nat.mod_add_div (history.length - 1 - age) n
      have hsum : history.length - 1 - (history.length - 1 - age) % n =
          age + n * ((history.length - 1 - age) / n) := by
        omega
      rw [hsum, Nat.add_mul_mod_self_left, Nat.mod_eq_of_lt (by omega)]
    rw [h, if_pos (by show (history.length - 1 - age) % n < _; omega), hback,
      List.getElem?_eq_getElem (by omega), hget]
  · rintro ⟨i, hi⟩
    rw [h i] at hi
    split at hi
    · have hage := Nat.mod_lt (history.length - 1 - i.val) (Nat.zero_lt_of_lt i.isLt)
      refine List.mem_iff_getElem?.2 ⟨(history.length - 1 - i.val) % n, ?_⟩
      rw [List.getElem?_take_of_lt hage, hi]
    · cases hi

variable {κ : Type u} {β : Type v}

/-- No two slots hold the same key, when the history does not repeat it. -/
theorem Keeps.unique {slot : Fin n → Option (κ × β)} {history : List (κ × β)}
    (h : Keeps slot history) (hnodup : ((history.take n).map Prod.fst).Nodup)
    {i j : Fin n} {x y : κ × β} (hi : slot i = some x) (hj : slot j = some y)
    (hkey : x.1 = y.1) : i = j := by
  have hages : ∀ {i : Fin n} {x : κ × β}, slot i = some x →
      i.val < history.length ∧
        ((history.take n).map Prod.fst)[(history.length - 1 - i.val) % n]? = some x.1 := by
    intro i x hi
    rw [h i] at hi
    split at hi
    · rename_i hlt
      have hage := Nat.mod_lt (history.length - 1 - i.val) (Nat.zero_lt_of_lt i.isLt)
      refine ⟨hlt, ?_⟩
      rw [List.getElem?_map, List.getElem?_take_of_lt hage, hi]
      rfl
    · cases hi
  obtain ⟨hilt, hiage⟩ := hages hi
  obtain ⟨hjlt, hjage⟩ := hages hj
  rw [hkey, ← hjage] at hiage
  have hsame : (history.length - 1 - i.val) % n = (history.length - 1 - j.val) % n := by
    have hlen : (history.length - 1 - i.val) % n < ((history.take n).map Prod.fst).length := by
      by_contra hno
      rw [List.getElem?_eq_none (Nat.le_of_not_lt hno), hjage] at hiage
      cases hiage
    exact (List.getElem?_inj hlen hnodup).1 hiage
  -- Slots that reach equally far back are a multiple of `n` apart.
  have hij := Nat.sub_mod_eq_zero_of_mod_eq hsame
  have hji := Nat.sub_mod_eq_zero_of_mod_eq hsame.symm
  rw [Nat.mod_eq_of_lt (by omega)] at hij hji
  exact Fin.ext (by omega)

variable [DecidableEq κ]

/-- The history after a put: a key that is among the last `n` is not inserted. -/
def put (n : Nat) (history : List (κ × β)) (key : κ) (value : β) : List (κ × β) :=
  if key ∈ (history.take n).map Prod.fst then history else (key, value) :: history

/-- No key is twice among the last `n`. -/
theorem put_nodup {history : List (κ × β)} (key : κ) (value : β)
    (h : ((history.take n).map Prod.fst).Nodup) :
    (((put n history key value).take n).map Prod.fst).Nodup := by
  rw [put]
  split
  · exact h
  · rename_i hnew
    cases n with
    | zero =>
        simp
    | succ n =>
        have hsub : (history.take n).Sublist (history.take (n + 1)) :=
          (List.take_prefix_take_left (Nat.le_succ n)).sublist
        rw [List.take_succ_cons, List.map_cons, List.nodup_cons]
        exact ⟨fun hmem => hnew ((hsub.map Prod.fst).subset hmem), h.sublist (hsub.map Prod.fst)⟩

end FifoRing
end Cubiboot
