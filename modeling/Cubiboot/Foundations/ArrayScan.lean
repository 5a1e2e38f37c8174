import Mathlib.Algebra.Group.Int.Defs
import Mathlib.Logic.Function.Basic

/-!
# Loops over an array

`scan f n b a` is `for (i = 0; i < n; i++)` over an array `a`, with a variable
`b` that is carried from one element to the next.  An array is a function on the
integers, since an index may be out of range.

`scan_spec` is the rule for such a loop: what holds of the carried variable
before each element, and what becomes of each element.

Results: `scan_spec`; `scan_proj`, that a loop which carries more than another does the
same to the array; and `eachBelow_inside`, the loop whose passes have nothing in common.
-/

namespace Cubiboot
namespace ArrayScan

universe u v

variable {α : Type u} {β : Type v}

/-- The loop over the first `n` elements. -/
def scan (f : β → α → β × α) : Nat → β → (Int → α) → β × (Int → α)
  | 0, b, a => (b, a)
  | n + 1, b, a =>
      let r := scan f n b a
      let x := f r.1 (r.2 n)
      (x.1, Function.update r.2 n x.2)

/-- The loop whose passes have nothing in common. -/
def eachBelow (n : Nat) (f : α → α) (a : Int → α) : Int → α :=
  fun i => if 0 ≤ i ∧ i < n then f (a i) else a i

variable {f : β → α → β × α} {n : Nat} {b : β} {a : Int → α}

/-- Elements past the end are left alone. -/
theorem scan_outside
    {i : Int} (hi : i < 0 ∨ n ≤ i) :
    (scan f n b a).2 i = a i := by
  induction n with
  | zero =>
      rfl
  | succ n ih =>
      have hne : i ≠ (n : Int) := by omega
      have hrest := ih (by omega)
      simpa [scan, Function.update_of_ne hne] using hrest

/--
The rule of the loop: `P i` holds of the carried variable before element `i`,
and `R` relates each element to what it becomes.
-/
theorem scan_spec
    {P : Nat → β → Prop} {R : Nat → α → α → Prop}
    (hstart : P 0 b)
    (hstep : ∀ i c, i < n → P i c →
      P (i + 1) (f c (a i)).1 ∧ R i (a i) (f c (a i)).2) :
    P n (scan f n b a).1 ∧
      ∀ i < n, R i (a i) ((scan f n b a).2 i) := by
  induction n with
  | zero =>
      exact ⟨hstart, fun i hi => absurd hi (Nat.not_lt_zero i)⟩
  | succ n ih =>
      obtain ⟨hcarried, hdone⟩ :=
        ih fun i c hi => hstep i c (Nat.lt_succ_of_lt hi)
      have hsame : (scan f n b a).2 n = a n := scan_outside (Or.inr (by omega))
      obtain ⟨hnext, hnew⟩ := hstep n _ (Nat.lt_succ_self n) hcarried
      refine ⟨?_, fun i hi => ?_⟩
      · simpa [scan, hsame] using hnext
      · by_cases hin : i = n
        · rw [hin]
          simpa [scan, hsame] using hnew
        · have hne : (i : Int) ≠ (n : Int) := by omega
          have hold := hdone i (by omega)
          simpa [scan, Function.update_of_ne hne] using hold

/-- A loop that carries more than another does the same to the array. -/
theorem scan_proj
    {γ : Type v} {g : γ → α → γ × α} {p : γ → β} {c : γ}
    (h : ∀ c x, p (g c x).1 = (f (p c) x).1 ∧ (g c x).2 = (f (p c) x).2) :
    p (scan g n c a).1 = (scan f n (p c) a).1 ∧
      (scan g n c a).2 = (scan f n (p c) a).2 := by
  induction n with
  | zero =>
      exact ⟨rfl, rfl⟩
  | succ n ih =>
      obtain ⟨hcarried, harray⟩ := ih
      obtain ⟨hnext, hnew⟩ := h (scan g n c a).1 ((scan g n c a).2 n)
      simp only [scan]
      rw [← hcarried, ← harray]
      exact ⟨hnext, by rw [hnew]⟩

theorem eachBelow_inside
    {g : α → α} {i : Int} (hi : 0 ≤ i) (hn : i < n) :
    eachBelow n g a i = g (a i) := by
  simp [eachBelow, hi, hn]

end ArrayScan
end Cubiboot
