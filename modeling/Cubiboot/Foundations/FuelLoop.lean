import Mathlib.Data.Option.Basic

/-!
# Loops run with fuel

`FuelLoop.run step fuel s` runs the body `step` of a loop: `none` is a body
that gets stuck, `Sum.inl` the state of the next iteration and `Sum.inr` the
value the loop returns.  A loop returns `r` from `s` when some fuel gives
`some r`.

`run_sound` is the invariant rule, `run_total` the rule for termination and
`run_meets` both at once; `run_never` is the rule for a loop that goes on for ever, and
`run_mono` says that more fuel does not change a result.

A program assembled from loops is `Steady` when more fuel does not change its
result: loops are, and the combinators of `Option` keep it.

A further result is `Steady.unique`, that there is one result at most.
-/

namespace Cubiboot
namespace FuelLoop

universe u v

variable {σ : Type u} {ρ : Type v}

/-- Run the body of a loop until it returns. -/
def run (step : σ → Option (σ ⊕ ρ)) : Nat → σ → Option ρ
  | 0, _ => none
  | fuel + 1, s =>
      match step s with
      | none => none
      | some (.inl s') => run step fuel s'
      | some (.inr r) => some r

variable {step : σ → Option (σ ⊕ ρ)}

/-- What every iteration keeps or establishes holds of the value returned. -/
theorem run_sound
    (Inv : σ → Prop) (Post : ρ → Prop)
    (hnext : ∀ s s', Inv s → step s = some (.inl s') → Inv s')
    (hreturn : ∀ s r, Inv s → step s = some (.inr r) → Post r)
    {fuel : Nat} {s : σ} {r : ρ}
    (hs : Inv s) (hr : run step fuel s = some r) :
    Post r := by
  induction fuel generalizing s with
  | zero =>
      cases hr
  | succ fuel ih =>
      rw [run] at hr
      cases hstep : step s with
      | none =>
          rw [hstep] at hr
          cases hr
      | some out =>
          rw [hstep] at hr
          cases out with
          | inl s' =>
              exact ih (hnext s s' hs hstep) hr
          | inr r' =>
              have hrr : r' = r := by simpa using hr
              exact hrr ▸ hreturn s r' hs hstep

/-- A body that never gets stuck and lowers a measure makes the loop return. -/
theorem run_total
    (Inv : σ → Prop) (measure : σ → Nat)
    (hnext : ∀ s, Inv s →
      (∃ r, step s = some (.inr r)) ∨
        ∃ s', step s = some (.inl s') ∧ Inv s' ∧ measure s' < measure s)
    {fuel : Nat} {s : σ}
    (hs : Inv s) (hfuel : measure s < fuel) :
    ∃ r, run step fuel s = some r := by
  induction fuel generalizing s with
  | zero =>
      omega
  | succ fuel ih =>
      rcases hnext s hs with ⟨r, hstep⟩ | ⟨s', hstep, hs', hlt⟩
      · exact ⟨r, by rw [run, hstep]⟩
      · obtain ⟨r, hr⟩ := ih hs' (by omega)
        exact ⟨r, by rw [run, hstep]; exact hr⟩

/-- A loop whose body lowers a measure and keeps `Inv` returns what `Post` holds of. -/
theorem run_meets
    (Inv : σ → Prop) (Post : ρ → Prop) (measure : σ → Nat)
    (hnext : ∀ s, Inv s →
      (∃ r, step s = some (.inr r) ∧ Post r) ∨
        ∃ s', step s = some (.inl s') ∧ Inv s' ∧ measure s' < measure s)
    {fuel : Nat} {s : σ}
    (hs : Inv s) (hfuel : measure s < fuel) :
    ∃ r, run step fuel s = some r ∧ Post r := by
  have htotal : ∃ r, run step fuel s = some r :=
    run_total Inv measure (fun s hs => (hnext s hs).imp_left fun ⟨r, hr, _⟩ => ⟨r, hr⟩)
      hs hfuel
  obtain ⟨r, hr⟩ := htotal
  refine ⟨r, hr, run_sound Inv Post ?_ ?_ hs hr⟩
  · intro s s' hs hstep
    rcases hnext s hs with ⟨r, hr, _⟩ | ⟨s'', hs'', hInv, _⟩
    · rw [hr] at hstep
      cases hstep
    · rw [hs''] at hstep
      cases hstep
      exact hInv
  · intro s r hs hstep
    rcases hnext s hs with ⟨r', hr', hPost⟩ | ⟨s'', hs'', _⟩
    · rw [hr'] at hstep
      cases hstep
      exact hPost
    · rw [hs''] at hstep
      cases hstep

/-- A body that goes on from every state of an invariant never returns. -/
theorem run_never
    (Inv : σ → Prop)
    (hnext : ∀ s, Inv s → ∃ s', step s = some (.inl s') ∧ Inv s')
    (fuel : Nat) {s : σ} (hs : Inv s) :
    run step fuel s = none := by
  induction fuel generalizing s with
  | zero =>
      rfl
  | succ fuel ih =>
      obtain ⟨s', hstep, hs'⟩ := hnext s hs
      rw [run, hstep]
      exact ih hs'

/-- More fuel does not change the value returned. -/
theorem run_mono
    {fuel fuel' : Nat} {s : σ} {r : ρ}
    (hle : fuel ≤ fuel') (hr : run step fuel s = some r) :
    run step fuel' s = some r := by
  induction fuel generalizing fuel' s with
  | zero =>
      cases hr
  | succ fuel ih =>
      obtain ⟨fuel', rfl⟩ : ∃ k, fuel' = k + 1 := ⟨fuel' - 1, by omega⟩
      rw [run] at hr ⊢
      cases hstep : step s with
      | none =>
          rw [hstep] at hr
          cases hr
      | some out =>
          rw [hstep] at hr
          cases out with
          | inl s' => exact ih (by omega) hr
          | inr r' => exact hr

/-- The iterations of a loop. -/
def passes (step : σ → Option (σ ⊕ ρ)) : Nat → σ → Nat
  | 0, _ => 0
  | fuel + 1, s =>
      match step s with
      | some (.inl s') => passes step fuel s' + 1
      | _ => 1

theorem passes_le (fuel : Nat) (s : σ) : passes step fuel s ≤ fuel := by
  induction fuel generalizing s with
  | zero =>
      exact Nat.le_refl 0
  | succ fuel ih =>
      rw [passes]
      split
      · exact Nat.succ_le_succ (ih _)
      · omega

/-- More fuel does not change the result. -/
def Steady (f : Nat → Option ρ) : Prop :=
  ∀ ⦃n m : Nat⦄ ⦃r : ρ⦄, n ≤ m → f n = some r → f m = some r

section Steady

universe w

variable {τ : Type w} {f g : Nat → Option ρ}

theorem steady_run (s : σ) : Steady fun fuel => run step fuel s :=
  fun _ _ _ hle hr => run_mono hle hr

theorem steady_const (o : Option ρ) : Steady fun _ => o :=
  fun _ _ _ _ hr => hr

theorem Steady.bind
    {k : Nat → ρ → Option τ}
    (hf : Steady f) (hk : ∀ r, Steady fun n => k n r) :
    Steady fun n => (f n).bind (k n) := by
  intro n m t hle ht
  simp only [Option.bind_eq_some_iff] at ht ⊢
  obtain ⟨r, hr, ht⟩ := ht
  exact ⟨r, hf hle hr, hk r hle ht⟩

theorem Steady.map
    {k : ρ → τ} (hf : Steady f) : Steady fun n => (f n).map k := by
  intro n m t hle ht
  simp only [Option.map_eq_some_iff] at ht ⊢
  obtain ⟨r, hr, ht⟩ := ht
  exact ⟨r, hf hle hr, ht⟩

theorem Steady.ite
    {p : Prop} [Decidable p]
    (hf : Steady f) (hg : Steady g) :
    Steady fun n => if p then f n else g n := by
  intro n m r hle hr
  by_cases hp : p
  · simp only [hp, if_true] at hr ⊢
    exact hf hle hr
  · simp only [hp, if_false] at hr ⊢
    exact hg hle hr

/-- There is at most one result. -/
theorem Steady.unique
    (hf : Steady f) {n m : Nat} {r r' : ρ}
    (hr : f n = some r) (hr' : f m = some r') :
    r = r' := by
  have h := hf (Nat.le_max_left n m) hr
  have h' := hf (Nat.le_max_right n m) hr'
  exact Option.some.inj (h.symm.trans h')

end Steady

end FuelLoop
end Cubiboot
