import Mathlib.Data.List.Pairwise
import Mathlib.Order.Nat

/-!
# Sorting an array in place, part by part

`Rearranged p xs ys` says that the elements of the part `p` of an array have been
rearranged and the others left alone.  `SortedBut r xs p ps` says that `p` is sorted by
`r` apart from what is still to be sorted within each of the parts `ps`;
`SortedBut.replace` is the rule for a part that is rearranged and leaves parts of its own.

Results: `trans`, that parts rearranged twice are rearranged; `all`, that what holds of
the elements of a part still does; and the same for elements that change places in pairs
and for blocks of them, with which a partition of an array is described.
-/

namespace Cubiboot
namespace Sorting

universe u

variable {α : Type u}

/-- The `count` elements from `base` on. -/
structure Part where
  base : Nat
  count : Nat
deriving DecidableEq

namespace Part

/-- The end of a part. -/
def stop (p : Part) : Nat :=
  p.base + p.count

/-- An index is in the part. -/
def Has (p : Part) (i : Nat) : Prop :=
  p.base ≤ i ∧ i < p.stop

/-- No index is in both. -/
def Apart (p q : Part) : Prop :=
  p.stop ≤ q.base ∨ q.stop ≤ p.base

/-- One part lies in another. -/
def Within (p q : Part) : Prop :=
  q.base ≤ p.base ∧ p.stop ≤ q.stop

theorem Within.has {p q : Part} (h : p.Within q) {i : Nat} (hi : p.Has i) : q.Has i :=
  ⟨h.1.trans hi.1, hi.2.trans_le h.2⟩

theorem Within.refl (p : Part) : p.Within p :=
  ⟨Nat.le_refl _, Nat.le_refl _⟩

theorem Within.trans {p q t : Part} (h : p.Within q) (h' : q.Within t) : p.Within t :=
  ⟨h'.1.trans h.1, h.2.trans h'.2⟩

theorem Within.apart {p q t : Part} (h : p.Within q) (hq : q.Apart t) : p.Apart t :=
  hq.imp h.2.trans fun ht => ht.trans h.1

theorem Apart.not_has {p q : Part} (h : p.Apart q) {i : Nat} (hp : p.Has i) : ¬q.Has i := by
  intro hq
  obtain ⟨hp₁, hp₂⟩ := hp
  obtain ⟨hq₁, hq₂⟩ := hq
  rcases h with h | h <;> omega

theorem Apart.symm {p q : Part} (h : p.Apart q) : q.Apart p :=
  h.elim .inr .inl

end Part

/-- The elements of `p` in another order, the others where they were. -/
structure Rearranged (p : Part) (xs ys : Array α) : Prop where
  perm : ys.Perm xs
  outside : ∀ i, ¬p.Has i → ys[i]? = xs[i]?
  inside : ∀ i, p.Has i → ∃ j, p.Has j ∧ ys[i]? = xs[j]?

namespace Rearranged

variable {p q : Part} {xs ys zs : Array α}

theorem refl (p : Part) (xs : Array α) : Rearranged p xs xs :=
  ⟨.refl _, fun _ _ => rfl, fun i hi => ⟨i, hi, rfl⟩⟩

theorem trans (h : Rearranged p xs ys) (h' : Rearranged p ys zs) : Rearranged p xs zs := by
  refine ⟨h'.perm.trans h.perm, fun i hi => (h'.outside i hi).trans (h.outside i hi), ?_⟩
  intro i hi
  obtain ⟨j, hj, hij⟩ := h'.inside i hi
  obtain ⟨k, hk, hjk⟩ := h.inside j hj
  exact ⟨k, hk, hij.trans hjk⟩

theorem size (h : Rearranged p xs ys) : ys.size = xs.size :=
  h.perm.size_eq

/-- What is rearranged in a part is rearranged in what it lies in. -/
theorem widen (h : Rearranged p xs ys) (hw : p.Within q) : Rearranged q xs ys := by
  refine ⟨h.perm, fun i hi => h.outside i fun hp => hi (hw.has hp), fun i hi => ?_⟩
  by_cases hp : p.Has i
  · obtain ⟨j, hj, hij⟩ := h.inside i hp
    exact ⟨j, hw.has hj, hij⟩
  · exact ⟨i, hi, h.outside i hp⟩

/-- What holds of all elements of a part still does. -/
theorem all (h : Rearranged p xs ys) {P : α → Prop}
    (hP : ∀ i x, p.Has i → xs[i]? = some x → P x) {i : Nat} {y : α}
    (hi : p.Has i) (hy : ys[i]? = some y) : P y := by
  obtain ⟨j, hj, hij⟩ := h.inside i hi
  exact hP j y hj (hij ▸ hy)

end Rearranged

/-- Two elements have changed places. -/
structure Swapped (xs : Array α) (i j : Nat) (ys : Array α) : Prop where
  perm : ys.Perm xs
  left : ys[i]? = xs[j]?
  right : ys[j]? = xs[i]?
  other : ∀ k, k ≠ i → k ≠ j → ys[k]? = xs[k]?

theorem swapped_swap {xs : Array α} {i j : Nat} (hi : i < xs.size) (hj : j < xs.size) :
    Swapped xs i j (xs.swap i j hi hj) := by
  refine ⟨Array.swap_perm hi hj, ?_, ?_, fun k hki hkj => ?_⟩
  · rw [Array.getElem?_swap]
    split
    · rename_i hji
      subst hji
      exact (Array.getElem?_eq_getElem hi).symm
    · rw [if_pos rfl]
      exact (Array.getElem?_eq_getElem hj).symm
  · rw [Array.getElem?_swap, if_pos rfl]
    exact (Array.getElem?_eq_getElem hi).symm
  · rw [Array.getElem?_swap, if_neg hkj.symm, if_neg hki.symm]

theorem Swapped.rearranged {p : Part} {xs ys : Array α} {i j : Nat} (h : Swapped xs i j ys)
    (hi : p.Has i) (hj : p.Has j) : Rearranged p xs ys := by
  refine ⟨h.perm, fun k hk => ?_, fun k hk => ?_⟩
  · exact h.other k (fun hki => hk (hki ▸ hi)) fun hkj => hk (hkj ▸ hj)
  · by_cases hki : k = i
    · exact ⟨j, hj, hki ▸ h.left⟩
    · by_cases hkj : k = j
      · exact ⟨i, hi, hkj ▸ h.right⟩
      · exact ⟨k, hk, h.other k hki hkj⟩

/-- The `n` elements from `a` on have changed places with those from `b` on. -/
structure BlockSwapped (xs : Array α) (a b n : Nat) (ys : Array α) : Prop where
  perm : ys.Perm xs
  left : ∀ i, i < n → ys[a + i]? = xs[b + i]?
  right : ∀ i, i < n → ys[b + i]? = xs[a + i]?
  other : ∀ k, (k < a ∨ a + n ≤ k) → (k < b ∨ b + n ≤ k) → ys[k]? = xs[k]?

namespace BlockSwapped

variable {xs ys zs : Array α} {a b n : Nat}

theorem zero (xs : Array α) (a b : Nat) : BlockSwapped xs a b 0 xs :=
  ⟨.refl _, fun _ hi => absurd hi (Nat.not_lt_zero _), fun _ hi => absurd hi (Nat.not_lt_zero _),
    fun _ _ _ => rfl⟩

/-- One element more changes places. -/
theorem succ (h : BlockSwapped xs a b n ys) (hab : a + (n + 1) ≤ b)
    (hs : Swapped ys (a + n) (b + n) zs) : BlockSwapped xs a b (n + 1) zs := by
  refine ⟨hs.perm.trans h.perm, fun i hi => ?_, fun i hi => ?_, fun k hka hkb => ?_⟩
  · rcases Nat.lt_succ_iff_lt_or_eq.1 hi with hlt | rfl
    · rw [hs.other _ (by omega) (by omega), h.left i hlt]
    · rw [hs.left, h.other _ (by omega) (by omega)]
  · rcases Nat.lt_succ_iff_lt_or_eq.1 hi with hlt | rfl
    · rw [hs.other _ (by omega) (by omega), h.right i hlt]
    · rw [hs.right, h.other _ (by omega) (by omega)]
  · rw [hs.other _ (by omega) (by omega), h.other _ (by omega) (by omega)]

theorem rearranged {p : Part} (h : BlockSwapped xs a b n ys)
    (ha : p.base ≤ a) (hab : a + n ≤ b) (hb : b + n ≤ p.stop) : Rearranged p xs ys := by
  refine ⟨h.perm, fun k hk => ?_, fun k hk => ?_⟩
  · rw [Part.Has, not_and_or] at hk
    exact h.other k (by omega) (by omega)
  · have hk₁ := hk.1
    have hk₂ := hk.2
    by_cases hka : a ≤ k ∧ k < a + n
    · obtain ⟨i, rfl⟩ := Nat.exists_eq_add_of_le hka.1
      exact ⟨b + i, ⟨by omega, by omega⟩, h.left i (by omega)⟩
    · by_cases hkb : b ≤ k ∧ k < b + n
      · obtain ⟨i, rfl⟩ := Nat.exists_eq_add_of_le hkb.1
        exact ⟨a + i, ⟨by omega, by omega⟩, h.right i (by omega)⟩
      · exact ⟨k, hk, h.other k (by omega) (by omega)⟩

/--
Two neighbouring zones change sides when as many elements of their far ends as the smaller
has are exchanged.
-/
theorem zones {P Q : α → Prop} {m e : Nat}
    (hr : n = min (m - a) (e - m)) (ham : a ≤ m) (hme : m ≤ e)
    (h : BlockSwapped xs a (e - n) n ys)
    (hP : ∀ i x, a ≤ i → i < m → xs[i]? = some x → P x)
    (hQ : ∀ i x, m ≤ i → i < e → xs[i]? = some x → Q x) :
    (∀ i x, a ≤ i → i < a + (e - m) → ys[i]? = some x → Q x) ∧
      ∀ i x, a + (e - m) ≤ i → i < e → ys[i]? = some x → P x := by
  constructor
  · intro i x hai hi hx
    by_cases hin : i < a + n
    · obtain ⟨k, rfl⟩ := Nat.exists_eq_add_of_le hai
      rw [h.left k (by omega)] at hx
      exact hQ _ x (by omega) (by omega) hx
    · rw [h.other i (by omega) (by omega)] at hx
      exact hQ i x (by omega) (by omega) hx
  · intro i x hai hi hx
    by_cases hin : e - n ≤ i
    · obtain ⟨k, rfl⟩ := Nat.exists_eq_add_of_le hin
      rw [h.right k (by omega)] at hx
      exact hP _ x (by omega) (by omega) hx
    · rw [h.other i (by omega) (by omega)] at hx
      exact hP i x (by omega) (by omega) hx

end BlockSwapped

/-- `p` is sorted, apart from pairs of elements that are in one of the parts `ps`. -/
def SortedBut (r : α → α → Prop) (xs : Array α) (p : Part) (ps : List Part) : Prop :=
  ∀ i j x y, p.Has i → p.Has j → i < j → xs[i]? = some x → xs[j]? = some y →
    (∀ q ∈ ps, ¬(q.Has i ∧ q.Has j)) → r x y

namespace SortedBut

variable {r : α → α → Prop} {xs ys : Array α} {p q : Part} {ps qs : List Part}

/-- Nothing has been sorted. -/
theorem start (r : α → α → Prop) (xs : Array α) (p : Part) : SortedBut r xs p [p] :=
  fun _ _ _ _ hi hj _ _ _ hnot => absurd ⟨hi, hj⟩ (hnot p List.mem_cons_self)

/-- A part of at most one element is sorted. -/
theorem drop_small (h : SortedBut r xs p (q :: ps)) (hq : q.count ≤ 1) :
    SortedBut r xs p ps := by
  intro i j x y hi hj hij hx hy hnot
  refine h i j x y hi hj hij hx hy fun t ht => ?_
  rcases List.mem_cons.1 ht with rfl | ht
  · rintro ⟨⟨hi₁, _⟩, _, hj₂⟩
    rw [Part.stop] at hj₂
    omega
  · exact hnot t ht

/-- More may be left to be sorted, in any order. -/
theorem of_subset (h : SortedBut r xs p ps) (hsub : ps ⊆ qs) : SortedBut r xs p qs :=
  fun i j x y hi hj hij hx hy hnot =>
    h i j x y hi hj hij hx hy fun t ht => hnot t (hsub ht)

/-- A part is rearranged, and sorted apart from parts of its own. -/
theorem replace
    (h : SortedBut r xs p (q :: ps)) (hwithin : q.Within p) (hapart : ∀ t ∈ ps, q.Apart t)
    (hre : Rearranged q xs ys) (hq : SortedBut r ys q qs) :
    SortedBut r ys p (qs ++ ps) := by
  intro i j x y hi hj hij hx hy hnot
  have hrest : ∀ t ∈ ps, ¬(t.Has i ∧ t.Has j) := fun t ht =>
    hnot t (List.mem_append_right _ ht)
  by_cases hqi : q.Has i
  · by_cases hqj : q.Has j
    · exact hq i j x y hqi hqj hij hx hy fun t ht => hnot t (List.mem_append_left _ ht)
    -- the first is in the part, the second behind it
    · obtain ⟨k, hk, hik⟩ := hre.inside i hqi
      have hkj : k < j := by
        have hstop : ¬j < q.stop := fun hlt => hqj ⟨hqi.1.trans hij.le, hlt⟩
        have hkstop := hk.2
        omega
      refine h k j x y (hwithin.has hk) hj hkj (hik ▸ hx) (hre.outside j hqj ▸ hy) ?_
      intro t ht
      rcases List.mem_cons.1 ht with rfl | ht
      · exact fun hboth => hqj hboth.2
      · exact fun hboth => (hapart t ht).not_has hk hboth.1
  · by_cases hqj : q.Has j
    -- the first is before the part, the second in it
    · obtain ⟨k, hk, hjk⟩ := hre.inside j hqj
      have hik : i < k := by
        have hbase : ¬q.base ≤ i := fun hle => hqi ⟨hle, hij.trans hqj.2⟩
        have hkbase := hk.1
        omega
      refine h i k x y hi (hwithin.has hk) hik (hre.outside i hqi ▸ hx) (hjk ▸ hy) ?_
      intro t ht
      rcases List.mem_cons.1 ht with rfl | ht
      · exact fun hboth => hqi hboth.1
      · exact fun hboth => (hapart t ht).not_has hk hboth.2
    · refine h i j x y hi hj hij (hre.outside i hqi ▸ hx) (hre.outside j hqj ▸ hy) ?_
      intro t ht
      rcases List.mem_cons.1 ht with rfl | ht
      · exact fun hboth => hqi hboth.1
      · exact hrest t ht

/-- When nothing is left, the array is sorted. -/
theorem pairwise (h : SortedBut r xs ⟨0, xs.size⟩ []) : xs.toList.Pairwise r := by
  rw [List.pairwise_iff_getElem]
  intro i j hi hj hij
  rw [Array.length_toList] at hi hj
  refine h i j _ _ ⟨Nat.zero_le _, by simpa [Part.stop] using hi⟩
    ⟨Nat.zero_le _, by simpa [Part.stop] using hj⟩ hij ?_ ?_ fun q hq => ?_
  · rw [Array.getElem?_eq_getElem hi, Array.getElem_toList]
  · rw [Array.getElem?_eq_getElem hj, Array.getElem_toList]
  · cases hq

end SortedBut

end Sorting
end Cubiboot
