import Cubiboot.Heap.Calls

/-!
# Aligned allocations

`pmalloc_memalign` asks for `align` bytes more, returns the first aligned address
of the block and fills what lies before it with `0xDEADBEEF`.  `pmalloc_freealign`
goes back from there, word by word, to the magic word that ends the header.

Results: `alignAddress_spec`, where the aligned address lies in its block and that the
request still fits above it; `fillPadding_mem` and `fillPadding_sameAt`, which words the
padding takes; and `original_meets`, that the way back ends at the start of the block's
user memory, provided that no word on it was left as the magic word.
-/

namespace Cubiboot
namespace Heap

open FuelLoop Words

universe u

variable {h h' : Pmalloc}

theorem roundWord_of_lt {size : Nat} (hlt : size + 3 < 0x100000000) :
    roundWord size = (size + 3) / 4 * 4 := by
  rw [roundWord, word_of_lt hlt]
  exact andNot_pred_pow (k := 2) (by decide) hlt

/-- Where an aligned address lies in its block, and that a request still fits above it. -/
theorem alignAddress_spec
    (start size : Nat) {align k : Nat}
    (halign : align = 2 ^ k) (hstart : start % 4 = 0)
    (hroom : start + (size + align + 3) / 4 * 4 < 0x100000000) :
    start ≤ alignAddress start align ∧ alignAddress start align % align = 0 ∧
      alignAddress start align % 4 = 0 ∧
      alignAddress start align + (size + 3) / 4 * 4 ≤
        start + (size + align + 3) / 4 * 4 := by
  subst halign
  obtain ⟨hle, hlt, hmod⟩ := roundUp_pow (x := start) (k := k) (by omega)
  simp only [alignAddress]
  generalize andNot (wordSub (word (start + 2 ^ k)) 1) (wordSub (2 ^ k) 1) = y at hle hlt hmod
  rcases Nat.lt_or_ge k 2 with hk | hk
  · -- The start is aligned already.
    have hy : y = start := by
      obtain rfl | rfl : k = 0 ∨ k = 1 := by omega
      · omega
      · omega
    subst hy
    have hpos : 0 < 2 ^ k := Nat.two_pow_pos k
    exact ⟨Nat.le_refl _, hmod, hstart, by omega⟩
  · have hdvd : 4 ∣ 2 ^ k := Nat.pow_dvd_pow 2 hk
    have hy : y % 4 = 0 :=
      Nat.mod_eq_zero_of_dvd (hdvd.trans (Nat.dvd_of_mod_eq_zero hmod))
    obtain ⟨q, hq⟩ := hdvd
    exact ⟨hle, hmod, hy, by omega⟩

variable {start n a : Nat}

theorem fillPadding_sameAt (ha : a < start ∨ start + 4 * n ≤ a) :
    SameAt h (fillPadding h start n) a := by
  induction n with
  | zero => exact ⟨rfl, rfl⟩
  | succ n ih => exact (ih (by omega)).trans (sameAt_store (by omega))

theorem fillPadding_mem {i : Nat} (hi : i < n) :
    (fillPadding h start n).mem (start + 4 * i) = 0xDEADBEEF := by
  induction n with
  | zero => omega
  | succ n ih =>
      rw [fillPadding, store_mem]
      by_cases heq : i = n
      · rw [if_pos (by rw [heq])]
      · rw [if_neg (by omega)]
        exact ih (by omega)

theorem fillPadding_rest (h : Pmalloc) (start n : Nat) :
    (fillPadding h start n).wild = h.wild ∧
      ∀ r, (fillPadding h start n).root r = h.root r := by
  induction n with
  | zero => exact ⟨rfl, fun _ => rfl⟩
  | succ n ih => exact ⟨ih.1, fun r => store_root.trans (ih.2 r)⟩

/-- The search for the magic word ends at the start of the user memory. -/
theorem original_meets
    {fuel ptr mem : Nat}
    (hle : mem ≤ ptr) (hlt : ptr < 0x100000000) (hmem : 16 ≤ mem)
    (hptr4 : ptr % 4 = 0) (hmem4 : mem % 4 = 0)
    (hmagic : h.mem (mem - 4) = 0xFEEDFACE)
    (hpadding : ∀ w, mem ≤ w → w < ptr → w % 4 = 0 → h.mem w ≠ 0xFEEDFACE)
    (hfuel : 0x100000000 ≤ fuel) :
    originalPointer fuel h ptr = some mem := by
  have hloop : ∃ r, run (magicBody h) fuel ptr = some r ∧ r = mem := by
    refine run_meets (fun p => mem ≤ p ∧ p ≤ ptr ∧ p % 4 = 0) (fun r => r = mem)
      (fun p => p) ?_ ⟨hle, Nat.le_refl _, hptr4⟩ (by omega : ptr < fuel)
    rintro p ⟨hmp, hpp, hp4⟩
    have hback : wordSub p 4 = p - 4 := wordSub_of_le (by omega) (by omega)
    by_cases heq : p = mem
    · subst heq
      refine .inl ⟨p, ?_, rfl⟩
      simp only [magicBody, hback, hmagic, ne_eq, not_true, if_false]
    · have hword := hpadding (p - 4) (by omega) (by omega) (by omega)
      refine .inr ⟨p - 4, ?_, ⟨by omega, by omega, by omega⟩, by omega⟩
      simp only [magicBody, hback]
      rw [if_pos hword]
  obtain ⟨r, hrun, rfl⟩ := hloop
  exact hrun

end Heap
end Cubiboot
