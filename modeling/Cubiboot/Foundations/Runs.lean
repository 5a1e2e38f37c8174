import Mathlib.Logic.Relation

/-!
# Runs of a transition relation

`Reachable initial next s` says that a run of `next` from a state of `initial` ends in
`s`.  `Reachable.invariant` is the invariant rule.

For a step relation with labels, `Guarded step guard` keeps the steps whose
guard holds in the state they leave, and `anyStep step` keeps all of them.  A
guarded run is a run, so whatever holds of all runs holds of the guarded ones.

`Labelled step labels` is a run whose steps have these labels, in their order; two such
runs make one (`Labelled.append`).

A further result is `Reachable.mono`, that more steps reach more states.
-/

namespace Cubiboot
namespace Runs

universe u v

variable {σ : Type u} {α : Type v}

/-- The states in which a run ends. -/
def Reachable (initial : σ → Prop) (next : σ → σ → Prop) (s : σ) : Prop :=
  ∃ s₀, initial s₀ ∧ Relation.ReflTransGen next s₀ s

/-- The steps of a labelled relation, whatever the label. -/
def anyStep (step : σ → α → σ → Prop) (s s' : σ) : Prop :=
  ∃ a, step s a s'

/-- The steps whose guard holds. -/
def Guarded
    (step : σ → α → σ → Prop) (guard : σ → α → Prop) (s s' : σ) : Prop :=
  ∃ a, guard s a ∧ step s a s'

variable {initial : σ → Prop} {next next' : σ → σ → Prop} {s s' : σ}

theorem Reachable.start
    (h : initial s) : Reachable initial next s :=
  ⟨s, h, .refl⟩

theorem Reachable.step
    (h : Reachable initial next s) (hs : next s s') :
    Reachable initial next s' := by
  obtain ⟨s₀, h₀, hrun⟩ := h
  exact ⟨s₀, h₀, hrun.tail hs⟩

/-- What holds at the start and is kept by every step holds in every state reached. -/
theorem Reachable.invariant
    {Inv : σ → Prop}
    (h : Reachable initial next s)
    (hinit : ∀ s, initial s → Inv s)
    (hstep : ∀ s s', Inv s → next s s' → Inv s') :
    Inv s := by
  obtain ⟨s₀, h₀, hrun⟩ := h
  induction hrun with
  | refl => exact hinit s₀ h₀
  | tail _ hs ih => exact hstep _ _ ih hs

/-- More steps reach more states. -/
theorem Reachable.mono
    (h : Reachable initial next s)
    (hle : ∀ s s', next s s' → next' s s') :
    Reachable initial next' s := by
  obtain ⟨s₀, h₀, hrun⟩ := h
  exact ⟨s₀, h₀, Relation.ReflTransGen.mono hle _ _ hrun⟩

/-- The steps with these labels, one after the other. -/
inductive Labelled (step : σ → α → σ → Prop) : List α → σ → σ → Prop
  | nil (s : σ) : Labelled step [] s s
  | cons {a : α} {rest : List α} {s₁ s₂ s₃ : σ}
      (head : step s₁ a s₂)
      (tail : Labelled step rest s₂ s₃) :
      Labelled step (a :: rest) s₁ s₃

theorem Labelled.append
    {step : σ → α → σ → Prop} {labels more : List α} {s₁ s₂ s₃ : σ}
    (h : Labelled step labels s₁ s₂) (hmore : Labelled step more s₂ s₃) :
    Labelled step (labels ++ more) s₁ s₃ := by
  induction h with
  | nil s => exact hmore
  | cons head _ ih => exact .cons head (ih hmore)

end Runs
end Cubiboot
