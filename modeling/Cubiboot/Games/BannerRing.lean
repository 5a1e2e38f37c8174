import Cubiboot.Foundations.Runs
import Cubiboot.Games.BannerCache
import Mathlib.Data.Finset.Card
import Mathlib.Data.Fintype.Fin

/-!
# How full the ring is

Slots become valid one after the other from slot 0 on, and once all of them are
they stay so.  How many are valid after a number of puts therefore depends only
on how many were valid before and on which of the keys were new.

Results: `BnrCache.Used.filled`, that every history of puts and transfers fills the ring
from its start; `BnrCache.Filled.puts`, how many slots are valid after a list of puts,
by the number of new keys among theirs; `BnrCache.Filled.validCount_eq`, that this is
the number which a count of the valid slots gives.
-/

namespace Cubiboot
namespace Games

open Runs

/-- The cache after `bnr_cache_init`: no slot is valid. -/
def EmptyCache (c : BnrCache) : Prop :=
  (∀ i, c.entry i = ⟨0, 0, false⟩) ∧ c.nextIndex.val = 0

/-- A put, or a transfer to auxiliary RAM that is not the cache's own. -/
inductive CacheStep (c : BnrCache) : BnrCache → Prop where
  | put (key : UInt32) (bnr : Nat → BnrByte) : CacheStep c (bnrCachePut c key bnr)
  | transfer (aram : Nat → BnrByte) : CacheStep c { c with aram := aram }

/-- The caches that some history of puts and transfers has led to. -/
def BnrCache.Used (c : BnrCache) : Prop :=
  Reachable EmptyCache CacheStep c

/-- The number of valid slots. -/
def BnrCache.validCount (c : BnrCache) : Nat :=
  (Finset.univ.filter fun i => (c.entry i).valid = true).card

/-- Those of the keys that are not in the cache. -/
def BnrCache.newKeys (c : BnrCache) (keys : List UInt32) : Finset UInt32 :=
  keys.toFinset.filter fun key => c.lookup key = none

/-- A number of puts. -/
def BnrCache.puts
    (c : BnrCache) (l : List (UInt32 × (Nat → BnrByte))) : BnrCache :=
  l.foldl (fun c p => bnrCachePut c p.1 p.2) c

/-- The slots below `n` are valid, each in its place, and `n` is next. -/
structure BnrCache.Filled (c : BnrCache) (n : Nat) : Prop where
  le : n ≤ bnrCacheSize
  valid : ∀ i, (c.entry i).valid = true ↔ i.val < n
  placed : c.Placed
  next : n < bnrCacheSize → c.nextIndex.val = n

variable {c c' : BnrCache} {n : Nat}

theorem BnrCache.Filled.validCount_eq
    (h : c.Filled n) : c.validCount = n := by
  have hfilter : (Finset.univ.filter fun i => (c.entry i).valid = true) =
      Finset.univ.filter fun i : Fin bnrCacheSize => i.val < n := by
    ext i
    simp [h.valid i]
  calc
    c.validCount =
        (Finset.univ.filter fun i : Fin bnrCacheSize => i.val < n).card := by
      simp only [BnrCache.validCount, hfilter]
    _ = min bnrCacheSize n := Fin.card_filter_val_lt
    _ = n := min_eq_right h.le

theorem EmptyCache.filled (h : EmptyCache c) : c.Filled 0 := by
  obtain ⟨hentry, hnext⟩ := h
  constructor
  · exact Nat.zero_le _
  · intro i
    simp [hentry i]
  · intro i hi
    simp [hentry i] at hi
  · exact fun _ => hnext

/-- A put of a key that was not there fills the next slot. -/
theorem BnrCache.Filled.put_fresh
    {key : UInt32} (h : c.Filled n) (hnone : c.lookup key = none)
    (bnr : Nat → BnrByte) :
    (bnrCachePut c key bnr).Filled (min bnrCacheSize (n + 1)) := by
  have hplaced := h.placed.put key bnr
  have hsize := c.nextIndex.isLt
  constructor
  · exact min_le_left _ _
  · intro i
    have hi := i.isLt
    have hvalid := h.valid i
    rw [bnrCachePut_fresh hnone]
    by_cases hin : i = c.nextIndex
    · rw [hin]
      simp only [Function.update_self, true_iff]
      by_cases hfull : n < bnrCacheSize
      · have := h.next hfull
        omega
      · omega
    · simp only [Function.update_of_ne hin]
      rw [hvalid]
      have hne : i.val ≠ c.nextIndex.val := fun heq => hin (Fin.ext heq)
      by_cases hfull : n < bnrCacheSize
      · have := h.next hfull
        omega
      · omega
  · exact hplaced
  · intro hlt
    have hlast : n + 1 < bnrCacheSize := by omega
    have hnext := h.next (by omega)
    rw [bnrCachePut_fresh hnone]
    show (c.nextIndex + 1).val = _
    rw [Fin.val_add_one_of_lt' (by rw [hnext]; exact hlast), hnext]
    omega

/-- The keys after a put, while there are slots that are not valid. -/
theorem lookup_put_fresh
    {key : UInt32} (h : c.Filled n) (hfull : n < bnrCacheSize)
    (hnone : c.lookup key = none) (bnr : Nat → BnrByte) (q : UInt32) :
    (bnrCachePut c key bnr).lookup q = none ↔
      q ≠ key ∧ c.lookup q = none := by
  have hnext := h.next hfull
  rw [bnrCachePut_fresh hnone, lookup_none, lookup_none]
  constructor
  · intro hall
    constructor
    · have hkey := hall c.nextIndex (by simp)
      simp only [Function.update_self] at hkey
      exact fun heq => hkey heq.symm
    · intro i hi
      have hin : i ≠ c.nextIndex := by
        rintro rfl
        have hlt := (h.valid _).1 hi
        omega
      have hkey := hall i
      simp only [Function.update_of_ne hin] at hkey
      exact hkey hi
  · rintro ⟨hne, hall⟩ i hi
    by_cases hin : i = c.nextIndex
    · rw [hin]
      simp only [Function.update_self]
      exact fun heq => hne heq.symm
    · simp only [Function.update_of_ne hin] at hi ⊢
      exact hall i hi

theorem newKeys_cons_present
    {key : UInt32} {i : Fin bnrCacheSize} (h : c.lookup key = some i)
    (keys : List UInt32) :
    c.newKeys (key :: keys) = c.newKeys keys := by
  simp [BnrCache.newKeys, Finset.filter_insert, h]

/-- A new key counts once, however often it is put. -/
theorem newKeys_cons_fresh
    {key : UInt32} (h : c.Filled n) (hfull : n < bnrCacheSize)
    (hnone : c.lookup key = none) (bnr : Nat → BnrByte) (keys : List UInt32) :
    (c.newKeys (key :: keys)).card =
      ((bnrCachePut c key bnr).newKeys keys).card + 1 := by
  have hinsert : c.newKeys (key :: keys) =
      insert key ((bnrCachePut c key bnr).newKeys keys) := by
    ext q
    by_cases hq : q = key
    · simp [BnrCache.newKeys, hq, hnone]
    · simp [BnrCache.newKeys, lookup_put_fresh h hfull hnone, hq]
  have hnot : key ∉ (bnrCachePut c key bnr).newKeys keys := by
    simp [BnrCache.newKeys, lookup_put_fresh h hfull hnone]
  rw [hinsert, Finset.card_insert_of_notMem hnot]

@[simp] theorem puts_nil (c : BnrCache) : c.puts [] = c := rfl

@[simp] theorem puts_cons
    (c : BnrCache) (key : UInt32) (bnr : Nat → BnrByte)
    (l : List (UInt32 × (Nat → BnrByte))) :
    c.puts ((key, bnr) :: l) = (bnrCachePut c key bnr).puts l := by
  simp only [BnrCache.puts, List.foldl_cons]

theorem puts_append
    (c : BnrCache) (l l' : List (UInt32 × (Nat → BnrByte))) :
    c.puts (l ++ l') = (c.puts l).puts l' := by
  simp only [BnrCache.puts, List.foldl_append]

/-- How many slots are valid after a number of puts. -/
theorem BnrCache.Filled.puts
    (h : c.Filled n) (l : List (UInt32 × (Nat → BnrByte))) :
    (c.puts l).Filled
      (min bnrCacheSize (n + (c.newKeys (l.map Prod.fst)).card)) := by
  induction l generalizing c n with
  | nil =>
      have hn : min bnrCacheSize n = n := min_eq_right h.le
      simpa [BnrCache.puts, BnrCache.newKeys, hn] using h
  | cons p l ih =>
      obtain ⟨key, bnr⟩ := p
      rw [List.map_cons]
      cases hlook : c.lookup key with
      | some i =>
          rw [newKeys_cons_present hlook]
          have hrest := ih h
          rw [puts_cons, bnrCachePut_present hlook]
          exact hrest
      | none =>
          have hrest := ih (h.put_fresh hlook bnr)
          have hle := h.le
          have hcount : min bnrCacheSize
              (n + (c.newKeys (key :: l.map Prod.fst)).card) =
              min bnrCacheSize (min bnrCacheSize (n + 1) +
                ((bnrCachePut c key bnr).newKeys (l.map Prod.fst)).card) := by
            -- a full ring stays full, whatever is evicted from it
            by_cases hfull : n < bnrCacheSize
            · rw [newKeys_cons_fresh h hfull hlook bnr]
              omega
            · omega
          rw [hcount, puts_cons]
          exact hrest

/-- Every history fills the ring from its start. -/
theorem BnrCache.Used.filled
    (h : c.Used) : ∃ n, c.Filled n := by
  have hreach : Reachable EmptyCache CacheStep c := h
  have hstart : ∀ c, EmptyCache c → ∃ n, c.Filled n :=
    fun c hc => ⟨0, EmptyCache.filled hc⟩
  have hstep : ∀ c c', (∃ n, c.Filled n) → CacheStep c c' → ∃ n, c'.Filled n := by
    rintro c c' ⟨n, hn⟩ hstep
    cases hstep with
    | put key bnr =>
        cases hlook : c.lookup key with
        | some i =>
            rw [bnrCachePut_present hlook]
            exact ⟨n, hn⟩
        | none => exact ⟨_, hn.put_fresh hlook bnr⟩
    | transfer aram => exact ⟨n, hn.le, hn.valid, hn.placed, hn.next⟩
  exact hreach.invariant hstart hstep

end Games
end Cubiboot
