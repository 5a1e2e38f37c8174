import Mathlib.Data.Fintype.Card
import Mathlib.Logic.Function.Basic
import Mathlib.Tactic.Common

/-!
# Pools of slots

Clients hold slots of a pool that keeps one mark per slot.  `Accounts holds used`
says that no slot is held twice and that the marked slots are the held ones.
Taking a free slot and giving a held one back keep the accounts.  A slot is free as
long as there are fewer clients than slots.

Results: `Accounts.acquire` and `Accounts.release`, the two steps; `Accounts.free`, that
nobody holds a slot without a mark; `Accounts.exists_free`, the count of the clients.
-/

namespace Cubiboot
namespace SlotPool

universe u v

variable {ι : Type u} {κ : Type v}

/-- No slot is held twice, and the marked slots are the held ones. -/
structure Accounts (holds : ι → Option κ) (used : κ → Bool) : Prop where
  exclusive : ∀ i j k, holds i = some k → holds j = some k → i = j
  counted : ∀ k, used k = true ↔ ∃ i, holds i = some k

variable {holds : ι → Option κ} {used : κ → Bool} {i : ι} {k : κ}

/-- Nobody holds a free slot. -/
theorem Accounts.free
    (h : Accounts holds used) (hk : used k = false) (j : ι) :
    holds j ≠ some k := by
  intro hj
  rw [(h.counted k).2 ⟨j, hj⟩] at hk
  cases hk

/-- Fewer clients than slots leave a slot free. -/
theorem Accounts.exists_free
    [Fintype κ] (h : Accounts holds used) (clients : Finset ι)
    (hclients : ∀ i k, holds i = some k → i ∈ clients)
    (hcard : clients.card < Fintype.card κ) :
    ∃ k, used k = false := by
  by_contra hno
  have hused : ∀ k, ∃ i, holds i = some k := by
    intro k
    refine (h.counted k).1 ?_
    by_contra hk
    exact hno ⟨k, Bool.eq_false_of_not_eq_true hk⟩
  choose client hclient using hused
  have hle : (Finset.univ : Finset κ).card ≤ clients.card := by
    refine Finset.card_le_card_of_injOn client (fun k _ => ?_) fun k _ k' _ heq => ?_
    · exact hclients _ k (hclient k)
    · have hk := hclient k
      rw [heq, hclient k'] at hk
      exact (Option.some.inj hk).symm
  rw [Finset.card_univ] at hle
  omega

variable [DecidableEq ι] [DecidableEq κ]

/-- A client takes a free slot. -/
theorem Accounts.acquire
    (h : Accounts holds used) (hi : holds i = none) (hk : used k = false) :
    Accounts (Function.update holds i (some k)) (Function.update used k true) where
  exclusive := by
    intro a b c ha hb
    by_cases hai : a = i
    · by_cases hbi : b = i
      · rw [hai, hbi]
      · rw [hai, Function.update_self] at ha
        rw [Function.update_of_ne hbi, ← ha] at hb
        exact absurd hb (h.free hk b)
    · rw [Function.update_of_ne hai] at ha
      by_cases hbi : b = i
      · rw [hbi, Function.update_self] at hb
        rw [← hb] at ha
        exact absurd ha (h.free hk a)
      · rw [Function.update_of_ne hbi] at hb
        exact h.exclusive a b c ha hb
  counted := by
    intro c
    by_cases hck : c = k
    · rw [hck, Function.update_self]
      exact ⟨fun _ => ⟨i, Function.update_self ..⟩, fun _ => rfl⟩
    · rw [Function.update_of_ne hck, h.counted]
      constructor
      · rintro ⟨j, hj⟩
        have hji : j ≠ i := by
          rintro rfl
          rw [hi] at hj
          cases hj
        exact ⟨j, by rw [Function.update_of_ne hji, hj]⟩
      · rintro ⟨j, hj⟩
        by_cases hji : j = i
        · rw [hji, Function.update_self] at hj
          exact absurd (Option.some.inj hj).symm hck
        · rw [Function.update_of_ne hji] at hj
          exact ⟨j, hj⟩

/-- A client gives back the slot it holds. -/
theorem Accounts.release
    (h : Accounts holds used) (hi : holds i = some k) :
    Accounts (Function.update holds i none) (Function.update used k false) where
  exclusive := by
    intro a b c ha hb
    have hai : a ≠ i := by
      rintro rfl
      rw [Function.update_self] at ha
      cases ha
    have hbi : b ≠ i := by
      rintro rfl
      rw [Function.update_self] at hb
      cases hb
    rw [Function.update_of_ne hai] at ha
    rw [Function.update_of_ne hbi] at hb
    exact h.exclusive a b c ha hb
  counted := by
    intro c
    by_cases hck : c = k
    · rw [hck, Function.update_self]
      refine ⟨fun hno => absurd hno (by simp), ?_⟩
      rintro ⟨j, hj⟩
      by_cases hji : j = i
      · rw [hji, Function.update_self] at hj
        cases hj
      · rw [Function.update_of_ne hji] at hj
        exact absurd (h.exclusive j i k hj hi) hji
    · rw [Function.update_of_ne hck, h.counted]
      constructor
      · rintro ⟨j, hj⟩
        have hji : j ≠ i := by
          rintro rfl
          rw [hi] at hj
          exact hck (Option.some.inj hj).symm
        exact ⟨j, by rw [Function.update_of_ne hji, hj]⟩
      · rintro ⟨j, hj⟩
        by_cases hji : j = i
        · rw [hji, Function.update_self] at hj
          cases hj
        · rw [Function.update_of_ne hji] at hj
          exact ⟨j, hj⟩

end SlotPool
end Cubiboot
