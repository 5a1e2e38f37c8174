import Mathlib.Data.List.Basic

/-!
# Strings in arrays

A string that an array of known size has room for, with its terminator.  `strcpy`
and `strcat` have a result when the array has room for it, and none when they
would write past its end.  `strcpyFrom` copies what is found in a store, which
need not be terminated.

Results: `strcpy_eq_some` and `strcat_eq_some`, what a copy gives when it has a result;
`exists_stored`, that it has one when there is room for the string with its terminator;
`exists_strcpyFrom`, that a copy out of a store has one when the store is terminated
early enough.
-/

namespace Cubiboot
namespace CString

universe u

variable {β : Type u} {n : Nat}

/-- The string in an array of `n` elements, without its terminator. -/
abbrev Stored (β : Type u) (n : Nat) := { s : List β // s.length < n }

/-- `strcpy` of a string to an array of `n` elements. -/
def strcpy (n : Nat) (src : List β) : Option (Stored β n) :=
  if h : src.length < n then some ⟨src, h⟩ else none

/-- `strcat`. -/
def strcat (dst : Stored β n) (src : List β) : Option (Stored β n) :=
  strcpy n (dst.1 ++ src)

/-- A string that is ended after `k` elements. -/
def Stored.cut (s : Stored β n) (k : Nat) : Stored β n :=
  ⟨s.1.take k, Nat.lt_of_le_of_lt (List.length_take_le' k s.1) s.2⟩

theorem strcpy_eq_some {src : List β} {dst : Stored β n} :
    strcpy n src = some dst ↔ dst.1 = src := by
  rw [strcpy]
  constructor
  · intro h
    split at h
    · cases h
      rfl
    · cases h
  · rintro rfl
    rw [dif_pos dst.2]

theorem strcat_eq_some {dst dst' : Stored β n} {src : List β} :
    strcat dst src = some dst' ↔ dst'.1 = dst.1 ++ src :=
  strcpy_eq_some

/-- A copy has a result when there is room for the string and its terminator. -/
theorem exists_stored {src : List β} :
    (∃ dst : Stored β n, dst.1 = src) ↔ src.length < n := by
  constructor
  · rintro ⟨dst, rfl⟩
    exact dst.2
  · intro h
    exact ⟨⟨src, h⟩, rfl⟩

section Stores

variable [DecidableEq β] {nul : β}

/-- The string at the start of a store, when its terminator is within `n` elements. -/
def stringWithin (nul : β) : Nat → (Nat → β) → Option (List β)
  | 0, _ => none
  | n + 1, store =>
      if store 0 = nul then
        some []
      else
        (stringWithin nul n fun i => store (i + 1)).map (store 0 :: ·)

/-- `strcpy` of what a store holds to an array of `n` elements. -/
def strcpyFrom (nul : β) (n : Nat) (store : Nat → β) : Option (Stored β n) :=
  (stringWithin nul n store).bind (strcpy n)

theorem stringWithin_length {store : Nat → β} {s : List β}
    (h : stringWithin nul n store = some s) : s.length < n := by
  induction n generalizing store s with
  | zero =>
      cases h
  | succ n ih =>
      rw [stringWithin] at h
      split at h
      · cases h
        exact Nat.succ_pos n
      · obtain ⟨rest, hrest, rfl⟩ := Option.map_eq_some_iff.1 h
        exact Nat.succ_lt_succ (ih hrest)

theorem exists_stringWithin {store : Nat → β} :
    (∃ s, stringWithin nul n store = some s) ↔ ∃ i < n, store i = nul := by
  induction n generalizing store with
  | zero =>
      constructor
      · rintro ⟨s, hs⟩
        cases hs
      · rintro ⟨i, hi, _⟩
        exact absurd hi (Nat.not_lt_zero i)
  | succ n ih =>
      rw [stringWithin]
      split
      · rename_i hzero
        exact iff_of_true ⟨[], rfl⟩ ⟨0, Nat.succ_pos n, hzero⟩
      · rename_i hzero
        have hrest := @ih fun i => store (i + 1)
        constructor
        · rintro ⟨s, hs⟩
          obtain ⟨rest, hs, _⟩ := Option.map_eq_some_iff.1 hs
          obtain ⟨i, hi, hend⟩ := hrest.1 ⟨rest, hs⟩
          exact ⟨i + 1, Nat.succ_lt_succ hi, hend⟩
        · rintro ⟨i, hi, hend⟩
          cases i with
          | zero =>
              exact absurd hend hzero
          | succ i =>
              obtain ⟨rest, hs⟩ := hrest.2 ⟨i, Nat.lt_of_succ_lt_succ hi, hend⟩
              exact ⟨store 0 :: rest, by rw [hs]; rfl⟩

/-- What a store holds fits when it is terminated within the array. -/
theorem exists_strcpyFrom {store : Nat → β} :
    (∃ dst, strcpyFrom nul n store = some dst) ↔ ∃ i < n, store i = nul := by
  rw [← exists_stringWithin]
  constructor
  · rintro ⟨dst, h⟩
    obtain ⟨s, hs, _⟩ := Option.bind_eq_some_iff.1 h
    exact ⟨s, hs⟩
  · rintro ⟨s, hs⟩
    refine ⟨⟨s, stringWithin_length hs⟩, ?_⟩
    rw [strcpyFrom, hs, Option.bind_some, strcpy_eq_some]

end Stores

end CString
end Cubiboot
