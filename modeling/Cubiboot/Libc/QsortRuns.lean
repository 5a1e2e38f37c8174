import Mathlib.Algebra.Group.Nat.Defs
import Cubiboot.Libc.QsortPartition

/-!
# Runs of `qsort`

What is still to be sorted are the current part and those on the parameter stack.  They
are apart from each other, and each is less than half as long as the one below it, so the
stack is full only for long arrays.

Results: `qsortPass_spec`, one pass of the outer loop, with the parts that it leaves;
`Pending.replace` and `Pending.drop_small`, what becomes of the parts that are left;
`qsort_spec` and `qsort_sorts`, that the array is rearranged for any comparison, and
sorted for a consistent one, with as many calls as its length asks for.
-/

namespace Cubiboot
namespace Libc

open Sorting

variable {α : Type} {cmp : α → α → Int} {xs ys : Array α} {p q : Part}

/-- The parts that a partition of `p` leaves, the smaller one less than half as long. -/
structure Split (p larger smaller : Part) : Prop where
  larger_within : larger.Within p
  smaller_within : smaller.Within p
  apart : smaller.Apart larger
  half : 2 * smaller.count + 1 ≤ p.count
  counts : larger.count + smaller.count + 1 ≤ p.count

theorem Gathered.split {v : α} {left right : Part} (h : Gathered cmp p v ys left right) :
    Split p (largerFirst left right).1 (largerFirst left right).2 := by
  have hbase := h.left_base
  have hstop := h.right_stop
  have hapart := h.apart
  rw [Part.stop, Part.stop] at hstop
  rw [Part.stop] at hapart
  have hleft : left.Within p := ⟨hbase.ge, by rw [Part.stop, Part.stop]; omega⟩
  have hright : right.Within p := ⟨by omega, by rw [Part.stop, Part.stop]; omega⟩
  have hlr : left.Apart right := .inl (by rw [Part.stop]; omega)
  rw [largerFirst]
  split
  · exact ⟨hright, hleft, hlr, show 2 * left.count + 1 ≤ p.count by omega,
      show right.count + left.count + 1 ≤ p.count by omega⟩
  · exact ⟨hleft, hright, hlr.symm, show 2 * right.count + 1 ≤ p.count by omega,
      show left.count + right.count + 1 ≤ p.count by omega⟩

theorem largerFirst_pair (left right : Part) :
    [left, right] ⊆ [(largerFirst left right).2, (largerFirst left right).1] := by
  rw [largerFirst]
  split
  · exact List.Subset.refl _
  · exact fun q hq => by simpa [or_comm] using hq

/-- Each part is less than half as long as the one behind it. -/
def Halving (n : Nat) : List Part → Prop
  | [] => True
  | q :: ps => (q.count + 1) * 2 ^ ps.length ≤ n + 1 ∧ Halving n ps

/-- The passes that the parts can need. -/
def passes : List Part → Nat
  | [] => 0
  | q :: ps => 2 * q.count + 1 + passes ps

/-- The parts `ps` of `p` are left to be sorted. -/
structure Pending (cmp : α → α → Int) (p : Part) (xs ys : Array α) (ps : List Part) : Prop where
  rearranged : Rearranged p xs ys
  within : ∀ q ∈ ps, q.Within p
  apart : ps.Pairwise Part.Apart
  halving : Halving p.count ps
  levels : ps.length ≤ parameterStackLevels + 1
  sorted : Consistent cmp → SortedBut (Ordered cmp) ys p ps

theorem Pending.start (cmp : α → α → Int) (p : Part) (xs : Array α) :
    Pending cmp p xs xs [p] where
  rearranged := .refl p xs
  within := fun _ hq => List.mem_singleton.1 hq ▸ .refl p
  apart := List.pairwise_singleton _ _
  halving := ⟨by simp, trivial⟩
  levels := Nat.succ_le_succ (Nat.zero_le _)
  sorted := fun _ => .start _ xs p

/-- The first part is rearranged and leaves the parts `qs`. -/
theorem Pending.replace {zs : Array α} {ps : List Part} (h : Pending cmp p xs ys (q :: ps))
    (qs : List Part)
    (hre : Rearranged q ys zs) (hwithin : ∀ t ∈ qs, t.Within q) (hapart : qs.Pairwise Part.Apart)
    (hhalving : Halving p.count (qs ++ ps)) (hlevels : (qs ++ ps).length ≤ parameterStackLevels + 1)
    (hsorted : Consistent cmp → SortedBut (Ordered cmp) zs q qs) :
    Pending cmp p xs zs (qs ++ ps) := by
  have hq := h.within q List.mem_cons_self
  have hqps := List.pairwise_cons.1 h.apart
  refine ⟨h.rearranged.trans (hre.widen hq), fun t ht => ?_, ?_, hhalving, hlevels, fun hcmp => ?_⟩
  · rcases List.mem_append.1 ht with ht | ht
    · exact (hwithin t ht).trans hq
    · exact h.within t (List.mem_cons_of_mem _ ht)
  · exact List.pairwise_append.2
      ⟨hapart, hqps.2, fun t ht u hu => (hwithin t ht).apart (hqps.1 u hu)⟩
  · exact (h.sorted hcmp).replace hq hqps.1 hre (hsorted hcmp)

/-- A part of at most one element needs no sorting. -/
theorem Pending.drop_small {ps : List Part} (h : Pending cmp p xs ys (q :: ps))
    (hq : q.count ≤ 1) : Pending cmp p xs ys ps where
  rearranged := h.rearranged
  within := fun t ht => h.within t (List.mem_cons_of_mem _ ht)
  apart := (List.pairwise_cons.1 h.apart).2
  halving := h.halving.2
  levels := (Nat.le_succ _).trans h.levels
  sorted := fun hcmp => (h.sorted hcmp).drop_small hq

/-- The result of a pass: the parts that are left, or the array once nothing is. -/
def PassMeets (cmp : α → α → Int) (p : Part) (xs : Array α) (bound : Nat) :
    SortState α ⊕ Array α → Prop
  | .inl s => Pending cmp p xs s.mem (s.part :: s.parameterStack) ∧
      passes (s.part :: s.parameterStack) < bound
  | .inr ys => Pending cmp p xs ys []

theorem pop_meets (ps : List Part) {bound : Nat} (h : Pending cmp p xs ys ps)
    (hbound : passes ps < bound) : PassMeets cmp p xs bound (pop ys ps) := by
  cases ps with
  | nil => exact h
  | cons q ps => exact ⟨h, hbound⟩

theorem iterate_meets {ps : List Part} {bound : Nat} (h : Pending cmp p xs ys (q :: ps))
    (hbound : passes (q :: ps) < bound) : PassMeets cmp p xs bound (iterate ys q ps) := by
  rw [iterate]
  split
  · exact ⟨h, hbound⟩
  · rename_i hsmall
    rw [passes] at hbound
    exact pop_meets ps (h.drop_small (Nat.not_lt.1 hsmall)) (by omega)

/-- What `qsort` of `q` does. -/
def Sorts (cmp : α → α → Int) (q : Part) (xs : Array α) (out : Option (Array α)) : Prop :=
  ∃ ys, out = some ys ∧ Rearranged q xs ys ∧
    (Consistent cmp → SortedBut (Ordered cmp) ys q [])

/-- The insertion sort finishes a part. -/
theorem insertion_meets {s : SortState α} {zs : Array α} (hfits : Fits p xs)
    (h : Pending cmp p xs s.mem (s.part :: s.parameterStack)) (hre : Rearranged s.part s.mem zs) :
    ∃ out, (insertionSort cmp zs s.part).bind (fun ys => some (pop ys s.parameterStack)) =
        some out ∧
      PassMeets cmp p xs (passes (s.part :: s.parameterStack)) out := by
  have hpart := h.within s.part List.mem_cons_self
  have hfits' : Fits s.part zs := by
    rw [Fits, hre.size, h.rearranged.size]
    exact hpart.2.trans hfits
  obtain ⟨ys, hys, hre', hsorted⟩ := insertionSort_spec cmp hfits'
  refine ⟨_, by rw [hys]; rfl, pop_meets s.parameterStack ?_ ?_⟩
  · exact h.replace [] (hre.trans hre') (fun _ ht => absurd ht List.not_mem_nil) .nil
      h.halving.2 ((Nat.le_succ _).trans h.levels) hsorted
  · rw [passes]
    omega

/-- From `loop` to the next `goto`. -/
theorem qsortPass_spec {self : Array α → Part → Option (Array α)} {s : SortState α}
    (hfits : Fits p xs)
    (hself : ∀ ys q, Fits q ys → 2048 ≤ p.count + 1 → (q.count + 1) * 512 ≤ p.count + 1 →
      Sorts cmp q ys (self ys q))
    (h : Pending cmp p xs s.mem (s.part :: s.parameterStack)) :
    ∃ out, qsortPass cmp self s = some out ∧
      PassMeets cmp p xs (passes (s.part :: s.parameterStack)) out := by
  have hpart := h.within s.part List.mem_cons_self
  have hfits' : Fits s.part s.mem := by
    rw [Fits, h.rearranged.size]
    exact hpart.2.trans hfits
  rw [qsortPass]
  by_cases hn : s.part.count < 7
  · rw [if_pos hn]
    exact insertion_meets hfits h (.refl _ _)
  rw [if_neg hn]
  obtain ⟨v, t, ht, hzones, hre, hmet⟩ :=
    partition_spec cmp hfits' (Nat.not_lt.1 hn)
  simp only [ht, Option.bind_eq_bind, Option.bind_some]
  by_cases hcnt : t.swapCnt = true
  · rw [if_pos hcnt]
    obtain ⟨ys, left, right, hg, hre', hgathered⟩ := gather_spec hzones hmet
    have hsplit := hgathered.split
    have hsorted : Consistent cmp → SortedBut (Ordered cmp) ys s.part
        [(largerFirst left right).2, (largerFirst left right).1] := fun hcmp =>
      (hgathered.sortedBut hcmp).of_subset (largerFirst_pair left right)
    simp only [hg, Option.bind_some]
    generalize largerFirst left right = parts at hsplit hsorted ⊢
    obtain ⟨larger, smaller⟩ := parts
    have hcounts : larger.count + smaller.count + 1 ≤ s.part.count := hsplit.counts
    have hlarger : (larger.count + 1) * 2 ^ s.parameterStack.length ≤ p.count + 1 :=
      (Nat.mul_le_mul_right _ (by omega)).trans h.halving.1
    have hsmaller : (smaller.count + 1) * 2 ^ (s.parameterStack.length + 1) ≤ p.count + 1 := by
      have hhalf : (smaller.count + 1) * 2 ≤ s.part.count + 1 := by
        have hhalf : 2 * smaller.count + 1 ≤ s.part.count := hsplit.half
        omega
      calc (smaller.count + 1) * 2 ^ (s.parameterStack.length + 1)
          = (smaller.count + 1) * 2 * 2 ^ s.parameterStack.length := by
            rw [Nat.pow_succ, Nat.mul_comm (2 ^ _) 2, Nat.mul_assoc]
        _ ≤ (s.part.count + 1) * 2 ^ s.parameterStack.length := Nat.mul_le_mul_right _ hhalf
        _ ≤ p.count + 1 := h.halving.1
    -- once the smaller part is sorted, only the larger one is left
    have hiterate : ∀ zs, Rearranged s.part s.mem zs →
        (Consistent cmp → SortedBut (Ordered cmp) zs s.part [larger]) →
        PassMeets cmp p xs (passes (s.part :: s.parameterStack))
          (iterate zs larger s.parameterStack) := by
      intro zs hzs hzsorted
      refine iterate_meets (h.replace [larger] hzs ?_ (List.pairwise_singleton _ _)
        ⟨hlarger, h.halving.2⟩ h.levels hzsorted) ?_
      · exact fun u hu => List.mem_singleton.1 hu ▸ hsplit.larger_within
      · rw [passes, passes]
        omega
    by_cases hone : 1 < smaller.count
    · simp only [if_pos hone]
      by_cases hroom : s.parameterStack.length < parameterStackLevels
      · rw [if_pos hroom]
        refine ⟨_, rfl, h.replace [smaller, larger] (hre.trans hre') ?_ ?_
          ⟨hsmaller, hlarger, h.halving.2⟩ ?_ hsorted, ?_⟩
        · intro u hu
          rcases List.mem_cons.1 hu with rfl | hu
          · exact hsplit.smaller_within
          · exact List.mem_singleton.1 hu ▸ hsplit.larger_within
        · exact List.pairwise_pair.2 hsplit.apart
        · rw [List.length_append]
          show 2 + s.parameterStack.length ≤ _
          omega
        · simp only [passes]
          omega
      · rw [if_neg hroom]
        have hlevels : s.parameterStack.length = 8 := by
          have hle : s.parameterStack.length + 1 ≤ 8 + 1 := h.levels
          have hge : ¬s.parameterStack.length < 8 := hroom
          omega
        have hlong : 2048 ≤ p.count + 1 := by
          have hhalving := h.halving.1
          rw [hlevels] at hhalving
          exact (Nat.mul_le_mul_right (2 ^ 8) (Nat.succ_le_succ (Nat.not_lt.1 hn))).trans hhalving
        rw [hlevels] at hsmaller
        obtain ⟨zs, hzs, hre'', hzsorted⟩ := hself ys smaller
          (by
            rw [Fits, hre'.size, hre.size]
            exact hsplit.smaller_within.2.trans hfits') hlong hsmaller
        refine ⟨_, by rw [hzs]; rfl, hiterate zs
          ((hre.trans hre').trans (hre''.widen hsplit.smaller_within)) fun hcmp => ?_⟩
        exact (hsorted hcmp).replace hsplit.smaller_within
          (fun u hu => List.mem_singleton.1 hu ▸ hsplit.apart) hre'' (hzsorted hcmp)
    · simp only [if_neg hone]
      exact ⟨_, rfl, hiterate ys (hre.trans hre') fun hcmp =>
        (hsorted hcmp).drop_small (Nat.not_lt.1 hone)⟩
  · rw [if_neg hcnt]
    exact insertion_meets hfits h hre

/-- The passes end with nothing left. -/
theorem qsort_returns {calls : Nat} (hfits : Fits p xs)
    (hself : ∀ ys q, Fits q ys → 2048 ≤ p.count + 1 → (q.count + 1) * 512 ≤ p.count + 1 →
      Sorts cmp q ys (qsort cmp calls ys q)) :
    Sorts cmp p xs (qsort cmp (calls + 1) xs p) := by
  have hstart : Pending cmp p xs (SortState.mk xs p []).mem [p] := .start cmp p xs
  obtain ⟨ys, hys, hdone⟩ := FuelLoop.run_meets
    (fun s : SortState α => Pending cmp p xs s.mem (s.part :: s.parameterStack))
    (fun ys => Pending cmp p xs ys [])
    (fun s : SortState α => passes (s.part :: s.parameterStack))
    (fun s hs => by
      obtain ⟨out, hout, hmeets⟩ := qsortPass_spec hfits hself hs
      cases out with
      | inl s' => exact .inr ⟨s', hout, hmeets.1, hmeets.2⟩
      | inr ys => exact .inl ⟨ys, hout, hmeets⟩)
    hstart (Nat.lt_succ_self _)
  exact ⟨ys, hys, hdone.rearranged, hdone.sorted⟩

/--
`qsort` with `calls` more calls than the first sorts fewer than `2048 * 512 ^ calls`
elements.
-/
theorem qsort_spec (cmp : α → α → Int) (calls : Nat) (hfits : Fits p xs)
    (hcount : p.count + 1 < 2048 * 512 ^ calls) : Sorts cmp p xs (qsort cmp (calls + 1) xs p) := by
  induction calls generalizing xs p with
  | zero =>
      refine qsort_returns hfits fun ys q _ hlong _ => ?_
      omega
  | succ calls ih =>
      refine qsort_returns hfits fun ys q hq _ hcount' => ih hq ?_
      have hlt : (q.count + 1) * 512 < 2048 * 512 ^ calls * 512 := by
        calc (q.count + 1) * 512 ≤ p.count + 1 := hcount'
          _ < 2048 * 512 ^ (calls + 1) := hcount
          _ = 2048 * 512 ^ calls * 512 := by rw [Nat.pow_succ, Nat.mul_assoc]
      exact Nat.lt_of_mul_lt_mul_right hlt

/--
`qsort` returns for every comparison function.  It only moves elements of its part and never
leaves the array; a consistent comparison function finds the part sorted.
-/
theorem qsort_sorts (cmp : α → α → Int) (calls : Nat) (hstop : p.stop ≤ xs.size)
    (hcount : p.count + 1 < 2048 * 512 ^ calls) :
    ∃ ys, qsort cmp (calls + 1) xs p = some ys ∧ ys.Perm xs ∧
      (∀ i, ¬p.Has i → ys[i]? = xs[i]?) ∧
      (Consistent cmp → ∀ i j x y, p.Has i → p.Has j → i < j →
        ys[i]? = some x → ys[j]? = some y → cmp x y ≤ 0) := by
  obtain ⟨ys, hys, hre, hsorted⟩ := qsort_spec cmp calls hstop hcount
  refine ⟨ys, hys, hre.perm, hre.outside, fun hcmp i j x y hi hj hij hx hy => ?_⟩
  exact hsorted hcmp i j x y hi hj hij hx hy fun q hq => absurd hq List.not_mem_nil

/-- The difference of two numbers tells which of them comes first. -/
theorem consistent_sub : Consistent fun x y : Int => x - y where
  flip x y := by omega
  trans x y z hxy hyz := by omega

/-- Ten numbers are sorted between two others, in a part that is split in two. -/
theorem qsort_sorts_ten :
    ∃ ys : Array Int, qsort (fun x y => x - y) 1 #[50, 3, 9, 1, 2, 8, 5, 7, 4, 6, 0, 40]
        ⟨1, 10⟩ = some ys ∧
      ys.Perm #[50, 3, 9, 1, 2, 8, 5, 7, 4, 6, 0, 40] ∧ ys[0]? = some 50 ∧ ys[11]? = some 40 ∧
      ∀ i j x y, 1 ≤ i → i < j → j ≤ 10 → ys[i]? = some x → ys[j]? = some y → x ≤ y := by
  obtain ⟨ys, hys, hperm, houtside, hsorted⟩ := qsort_sorts (fun x y : Int => x - y) 0
    (show Part.stop ⟨1, 10⟩ ≤ #[(50 : Int), 3, 9, 1, 2, 8, 5, 7, 4, 6, 0, 40].size by decide)
    (by decide)
  have hhas : ∀ i, Part.Has ⟨1, 10⟩ i ↔ 1 ≤ i ∧ i < 11 := fun _ => Iff.rfl
  refine ⟨ys, hys, hperm, houtside 0 ?_, houtside 11 ?_, fun i j x y hi hij hj hx hy => ?_⟩
  · rw [hhas]
    decide
  · rw [hhas]
    decide
  · have hle := hsorted consistent_sub i j x y ((hhas i).2 (by omega)) ((hhas j).2 (by omega))
      hij hx hy
    exact Int.le_of_sub_nonpos hle

end Libc
end Cubiboot
