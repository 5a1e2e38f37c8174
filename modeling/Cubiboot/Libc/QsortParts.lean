import Cubiboot.Libc.Qsort

/-!
# What the parts of `qsort` do

The pivot, the partition around it and the insertion sort, for any comparison function:
they stay in the part they are given, they have a result, and the partition leaves the
elements that compare less than the pivot, equal to it and greater in three zones.

Results: `swapAt_spec` and `vecswap_spec`, the exchanges; `selectPivot_spec`, the pivot;
`Inserting.swap` and `Inserting.stop`, the inner loop of the insertion sort. Whether the
comparison is consistent plays a part in the last of them only.
-/

namespace Cubiboot
namespace Libc

open Sorting

variable {α : Type} {cmp : α → α → Int} {xs ys : Array α} {p : Part}

/-- The part lies in the array. -/
def Fits (p : Part) (xs : Array α) : Prop :=
  p.stop ≤ xs.size

theorem Fits.get {i : Nat} (h : Fits p xs) (hi : p.Has i) : ∃ x, xs[i]? = some x :=
  ⟨_, Array.getElem?_eq_getElem (hi.2.trans_le h)⟩

theorem Fits.rearranged {q : Part} (h : Fits p xs) (hre : Rearranged q xs ys) : Fits p ys := by
  rw [Fits, hre.size]
  exact h

theorem cmpAt_some {i j : Nat} {x y : α} (hx : xs[i]? = some x) (hy : xs[j]? = some y) :
    cmpAt cmp xs i j = some (cmp x y) := by
  rw [cmpAt, hx, hy]
  rfl

theorem swapAt_spec {i j : Nat} (h : Fits p xs) (hi : p.Has i) (hj : p.Has j) :
    ∃ ys, swapAt xs i j = some ys ∧ Swapped xs i j ys := by
  have hsize : i < xs.size ∧ j < xs.size := ⟨hi.2.trans_le h, hj.2.trans_le h⟩
  exact ⟨_, by rw [swapAt, dif_pos hsize], swapped_swap hsize.1 hsize.2⟩

theorem vecswap_spec {a b n : Nat} (h : Fits p xs)
    (ha : p.base ≤ a) (hab : a + n ≤ b) (hb : b + n ≤ p.stop) :
    ∃ ys, vecswap xs a b n = some ys ∧ BlockSwapped xs a b n ys := by
  rw [vecswap]
  induction n with
  | zero => exact ⟨xs, rfl, .zero xs a b⟩
  | succ n ih =>
      obtain ⟨ys, hys, hblock⟩ := ih (by omega) (by omega)
      have hre : Rearranged p xs ys := hblock.rearranged ha (by omega) (by omega)
      obtain ⟨zs, hzs, hswap⟩ := swapAt_spec (i := a + n) (j := b + n) (h.rearranged hre)
        ⟨by omega, by omega⟩ ⟨by omega, by omega⟩
      refine ⟨zs, ?_, hblock.succ hab hswap⟩
      rw [List.range_succ, List.foldlM_append, hys]
      simp [hzs]

theorem med3_spec (cmp : α → α → Int) {a b c : Nat} (h : Fits p xs) (ha : p.Has a)
    (hb : p.Has b) (hc : p.Has c) :
    ∃ m, med3 cmp xs a b c = some m ∧ p.Has m := by
  obtain ⟨x, hx⟩ := h.get ha
  obtain ⟨y, hy⟩ := h.get hb
  obtain ⟨z, hz⟩ := h.get hc
  simp only [med3, cmpAt_some hx hy, cmpAt_some hy hz, cmpAt_some hx hz, Option.bind_eq_bind,
    Option.bind_some]
  split
  · split
    · exact ⟨b, rfl, hb⟩
    · split
      · exact ⟨c, rfl, hc⟩
      · exact ⟨a, rfl, ha⟩
  · split
    · exact ⟨b, rfl, hb⟩
    · split
      · exact ⟨a, rfl, ha⟩
      · exact ⟨c, rfl, hc⟩

/-- The pivot is an element of the part. -/
theorem selectPivot_spec (cmp : α → α → Int) (h : Fits p xs) (hn : 7 ≤ p.count) :
    ∃ m, selectPivot cmp xs p = some m ∧ p.Has m := by
  have hhas : ∀ k, k < p.count → p.Has (p.base + k) := fun k hk =>
    ⟨by omega, by rw [Part.stop]; omega⟩
  rw [selectPivot]
  by_cases h7 : 7 < p.count
  · rw [if_pos h7]
    by_cases h40 : 40 < p.count
    · rw [if_pos h40]
      have hfirst : p.Has p.base := hhas 0 (by omega)
      obtain ⟨l, hl, hlp⟩ := med3_spec cmp h hfirst
        (hhas (p.count / 8) (by omega)) (hhas (2 * (p.count / 8)) (by omega))
      have hmid : ∀ k, p.base + p.count / 2 - p.count / 8 ≤ k →
          k ≤ p.base + p.count / 2 + p.count / 8 → p.Has k := fun k hk hk' =>
        ⟨by omega, by rw [Part.stop]; omega⟩
      have hlast : ∀ k, p.base + (p.count - 1) - 2 * (p.count / 8) ≤ k →
          k ≤ p.base + (p.count - 1) → p.Has k := fun k hk hk' =>
        ⟨by omega, by rw [Part.stop]; omega⟩
      obtain ⟨m, hm, hmp⟩ := med3_spec cmp h
        (hmid (p.base + p.count / 2 - p.count / 8) (by omega) (by omega))
        (hmid (p.base + p.count / 2) (by omega) (by omega))
        (hmid (p.base + p.count / 2 + p.count / 8) (by omega) (by omega))
      obtain ⟨n, hn, hnp⟩ := med3_spec cmp h
        (hlast (p.base + (p.count - 1) - 2 * (p.count / 8)) (by omega) (by omega))
        (hlast (p.base + (p.count - 1) - p.count / 8) (by omega) (by omega))
        (hlast (p.base + (p.count - 1)) (by omega) (by omega))
      obtain ⟨k, hk, hkp⟩ := med3_spec cmp h hlp hmp hnp
      refine ⟨k, ?_, hkp⟩
      simp only [hl, hm, hn, hk, Option.bind_eq_bind, Option.bind_some]
    · rw [if_neg h40]
      exact med3_spec cmp h (hhas 0 (by omega)) (hhas _ (by omega)) (hhas _ (by omega))
  · rw [if_neg h7]
    exact ⟨_, rfl, hhas _ (by omega)⟩

/-- The comparison function orders the elements, and equal ones alike. -/
structure Consistent (cmp : α → α → Int) : Prop where
  flip : ∀ x y, cmp x y < 0 ↔ 0 < cmp y x
  trans : ∀ x y z, cmp x y ≤ 0 → cmp y z ≤ 0 → cmp x z ≤ 0

/-- The first element may stand before the second. -/
def Ordered (cmp : α → α → Int) (x y : α) : Prop :=
  cmp x y ≤ 0

theorem Consistent.self (h : Consistent cmp) (x : α) : cmp x x = 0 := by
  have hflip := h.flip x x
  omega

theorem Consistent.ordered_of_not (h : Consistent cmp) {x y : α} (hxy : 0 < cmp x y) :
    Ordered cmp y x :=
  Int.le_of_lt ((h.flip y x).2 hxy)

/-- The first `n + 1` elements are sorted, but for the element at `k` and those before it. -/
def Inserting (cmp : α → α → Int) (xs : Array α) (a n k : Nat) : Prop :=
  ∀ i j x y, a ≤ i → i < j → j ≤ a + n → j ≠ a + k → xs[i]? = some x → xs[j]? = some y →
    Ordered cmp x y

/-- The first `n` elements are sorted. -/
def SortedUpTo (cmp : α → α → Int) (xs : Array α) (a n : Nat) : Prop :=
  ∀ i j x y, a ≤ i → i < j → j < a + n → xs[i]? = some x → xs[j]? = some y → Ordered cmp x y

theorem Inserting.swap {a n k : Nat} {x y : α} (hcmp : Consistent cmp)
    (h : Inserting cmp xs a n (k + 1)) (hx : xs[a + k]? = some x)
    (hy : xs[a + (k + 1)]? = some y) (hxy : 0 < cmp x y)
    (hswap : Swapped xs (a + (k + 1)) (a + k) ys) : Inserting cmp ys a n k := by
  intro i j u v hi hij hj hne hu hv
  by_cases hj₁ : j = a + (k + 1)
  · subst hj₁
    rw [hswap.left] at hv
    by_cases hik : i = a + k
    · subst hik
      rw [hswap.right] at hu
      obtain rfl : x = v := Option.some.inj (hx.symm.trans hv)
      obtain rfl : y = u := Option.some.inj (hy.symm.trans hu)
      exact hcmp.ordered_of_not hxy
    · rw [hswap.other i (by omega) hik] at hu
      exact h i (a + k) u v hi (by omega) (by omega) (by omega) hu hv
  · rw [hswap.other j hj₁ hne] at hv
    by_cases hik : i = a + k
    · subst hik
      rw [hswap.right] at hu
      exact h _ j u v (by omega) (by omega) hj hj₁ hu hv
    · by_cases hik₁ : i = a + (k + 1)
      · subst hik₁
        rw [hswap.left] at hu
        exact h _ j u v (by omega) (by omega) hj hj₁ hu hv
      · rw [hswap.other i hik₁ hik] at hu
        exact h i j u v hi hij hj hj₁ hu hv

theorem Inserting.stop {a n k : Nat} {x y : α} (hcmp : Consistent cmp)
    (h : Inserting cmp xs a n (k + 1)) (hx : xs[a + k]? = some x)
    (hy : xs[a + (k + 1)]? = some y) (hxy : ¬0 < cmp x y) : SortedUpTo cmp xs a (n + 1) := by
  intro i j u v hi hij hj hu hv
  by_cases hj₁ : j = a + (k + 1)
  · subst hj₁
    obtain rfl : y = v := Option.some.inj (hy.symm.trans hv)
    by_cases hik : i = a + k
    · subst hik
      obtain rfl : x = u := Option.some.inj (hx.symm.trans hu)
      exact Int.not_lt.1 hxy
    · exact hcmp.trans u x y (h i (a + k) u x hi (by omega) (by omega) (by omega) hu hx)
        (Int.not_lt.1 hxy)
  · exact h i j u v hi hij (by omega) hj₁ hu hv

theorem insertDown_spec (cmp : α → α → Int) {n k : Nat} (h : Fits p xs) (hk : k ≤ n)
    (hn : n < p.count) :
    ∃ ys, insertDown cmp p.base k xs = some ys ∧ Rearranged p xs ys ∧
      (Consistent cmp → Inserting cmp xs p.base n k → SortedUpTo cmp ys p.base (n + 1)) := by
  induction k generalizing xs with
  | zero =>
      refine ⟨xs, rfl, .refl p xs, fun _ hins i j x y hi hij hj hx hy => ?_⟩
      exact hins i j x y hi hij (by omega) (by omega) hx hy
  | succ k ih =>
      have hlow : p.Has (p.base + k) := ⟨by omega, by rw [Part.stop]; omega⟩
      have hhigh : p.Has (p.base + (k + 1)) := ⟨by omega, by rw [Part.stop]; omega⟩
      obtain ⟨x, hx⟩ := h.get hlow
      obtain ⟨y, hy⟩ := h.get hhigh
      obtain ⟨ys, hys, hswap⟩ := swapAt_spec h hhigh hlow
      have hre := hswap.rearranged hhigh hlow
      obtain ⟨zs, hzs, hre', hsorted⟩ := ih (h.rearranged hre) (by omega)
      rw [insertDown]
      simp only [cmpAt_some hx hy, hys, hzs, Option.bind_eq_bind, Option.bind_some]
      by_cases hxy : 0 < cmp x y
      · rw [if_pos hxy]
        exact ⟨zs, rfl, hre.trans hre', fun hcmp hins =>
          hsorted hcmp (hins.swap hcmp hx hy hxy hswap)⟩
      · rw [if_neg hxy]
        exact ⟨xs, rfl, .refl p xs, fun hcmp hins => hins.stop hcmp hx hy hxy⟩

theorem insertPasses_spec (cmp : α → α → Int) (m : Nat) (h : Fits p xs) (hm : m < p.count) :
    ∃ ys, (List.range' 1 m).foldlM (fun xs k => insertDown cmp p.base k xs) xs = some ys ∧
      Rearranged p xs ys ∧ (Consistent cmp → SortedUpTo cmp ys p.base (m + 1)) := by
  induction m with
  | zero => exact ⟨xs, rfl, .refl p xs, fun _ i j x y hi hij hj => by omega⟩
  | succ m ih =>
      obtain ⟨ys, hys, hre, hsorted⟩ := ih (by omega)
      obtain ⟨zs, hzs, hre', hsorted'⟩ :=
        insertDown_spec cmp (h.rearranged hre) (Nat.le_refl (m + 1)) hm
      refine ⟨zs, ?_, hre.trans hre', fun hcmp => hsorted' hcmp ?_⟩
      · rw [List.range'_1_concat, List.foldlM_append, hys, Nat.add_comm 1 m]
        simp [hzs]
      · intro i j x y hi hij hj hne hx hy
        exact hsorted hcmp i j x y hi hij (by omega) hx hy

/-- The insertion sort sorts the part. -/
theorem insertionSort_spec (cmp : α → α → Int) (h : Fits p xs) :
    ∃ ys, insertionSort cmp xs p = some ys ∧ Rearranged p xs ys ∧
      (Consistent cmp → SortedBut (Ordered cmp) ys p []) := by
  rw [insertionSort]
  by_cases hn : p.count = 0
  · refine ⟨xs, by rw [hn]; rfl, .refl p xs, fun _ i j x y hi hj hij => ?_⟩
    have hi₁ := hi.1
    have hi₂ := hi.2
    rw [Part.stop] at hi₂
    omega
  · obtain ⟨ys, hys, hre, hsorted⟩ :=
      insertPasses_spec cmp (p.count - 1) h (by omega)
    refine ⟨ys, hys, hre, fun hcmp i j x y hi hj hij hx hy _ => ?_⟩
    have hj₂ := hj.2
    rw [Part.stop] at hj₂
    exact hsorted hcmp i j x y hi.1 hij (by omega) hx hy

end Libc
end Cubiboot
