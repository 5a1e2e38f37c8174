import Mathlib.Data.List.Basic
import Mathlib.Data.List.Forall2

/-!
# Loops over a list

`l.foldl f s` is a loop over `l` that carries `s`.  What a pass for one element
establishes, and every pass keeps, holds after the loop; `List.foldlRecOn` is the
invariant rule.  `l.mapM f` is a loop that collects the results of `f`, and fails when one
of them does.

Results: `foldl_reaches`, the rule for what one of the passes establishes;
`foldlM_of_forall` and `mapM_of_forall`, loops whose passes all have a result; and
`mapM_some_iff`, what the results of a loop are, element by element.
-/

namespace Cubiboot
namespace Folds

universe u v

variable {σ : Type u} {α : Type v}

/-- A pass for `x` reaches `P`, and no pass leaves it. -/
theorem foldl_reaches
    {P : σ → Prop} {f : σ → α → σ} {l : List α} {x : α} (s : σ)
    (hx : x ∈ l)
    (hkeep : ∀ s, ∀ y ∈ l, P s → P (f s y))
    (hset : ∀ s, P (f s x)) :
    P (l.foldl f s) := by
  obtain ⟨before, after, rfl⟩ := List.append_of_mem hx
  rw [List.foldl_append, List.foldl_cons]
  refine List.foldlRecOn after f (hset _) fun s hs y hy => hkeep s y ?_ hs
  exact List.mem_append_right _ (List.mem_cons_of_mem _ hy)

/-- A loop whose passes all have a result. -/
theorem foldlM_of_forall
    {f : σ → α → Option σ} {g : σ → α → σ} {l : List α}
    (h : ∀ s, ∀ x ∈ l, f s x = some (g s x)) (s : σ) :
    l.foldlM f s = some (l.foldl g s) := by
  induction l generalizing s with
  | nil => rfl
  | cons x l ih =>
      rw [List.foldlM_cons, h s x List.mem_cons_self, List.foldl_cons]
      exact ih (fun s y hy => h s y (List.mem_cons_of_mem _ hy)) _

section Collect

universe w

variable {β : Type w} {f : α → Option β} {l : List α} {ys : List β}

theorem mapM_cons (a : α) (l : List α) :
    (a :: l).mapM f = (f a).bind fun b => (l.mapM f).map fun bs => b :: bs := by
  rw [List.mapM_cons]
  cases f a with
  | none => rfl
  | some b => cases l.mapM f <;> rfl

theorem mapM_some_iff : l.mapM f = some ys ↔ List.Forall₂ (fun a b => f a = some b) l ys := by
  induction l generalizing ys with
  | nil =>
      rw [List.forall₂_nil_left_iff]
      exact Option.some_inj.trans eq_comm
  | cons a l ih =>
      rw [mapM_cons, List.forall₂_cons_left_iff]
      simp only [Option.bind_eq_some_iff, Option.map_eq_some_iff, ih]
      constructor
      · rintro ⟨b, hb, bs, hbs, rfl⟩
        exact ⟨b, bs, hb, hbs, rfl⟩
      · rintro ⟨b, bs, hb, hbs, rfl⟩
        exact ⟨b, hb, bs, hbs, rfl⟩

theorem mapM_of_forall {g : α → β} (h : ∀ a ∈ l, f a = some (g a)) :
    l.mapM f = some (l.map g) := by
  rw [mapM_some_iff, List.forall₂_map_right_iff, List.forall₂_same]
  exact h

end Collect

end Folds
end Cubiboot
