import Mathlib.Tactic.Common

/-!
# Events that are answered later

A run of events from a state, some of which ask for another kind of event to
follow.  `Answered` says that each of them is followed by one; `answered_snoc` says
what one more event does to that.

A request may be answered by any later event that answers, and one answer does for all
the requests before it: what counts is that none comes after the last answer. What asks
and what answers may depend on the state in which the event occurs.
-/

namespace Cubiboot
namespace Requests

universe u v

variable {σ : Type u} {α : Type v}

/-- Every event that asks is followed by one that answers. -/
def Answered
    (step : σ → α → σ) (asks answers : σ → α → Prop) (s : σ) (events : List α) : Prop :=
  ∀ before a after, events = before ++ a :: after → asks (before.foldl step s) a →
    ∃ mid b rest, after = mid ++ b :: rest ∧
      answers ((before ++ a :: mid).foldl step s) b

variable {step : σ → α → σ} {asks answers : σ → α → Prop} {s : σ}

theorem answered_nil : Answered step asks answers s [] := by
  intro before a after h
  exact absurd h (by simp)

/-- A place in a run and one more event: it is that event, or a place before it. -/
theorem snoc_eq_split {events before after : List α} {b a : α} :
    events ++ [b] = before ++ a :: after ↔
      (before = events ∧ a = b ∧ after = []) ∨
        ∃ later, after = later ++ [b] ∧ events = before ++ a :: later := by
  rcases List.eq_nil_or_concat after with rfl | ⟨later, c, rfl⟩
  · rw [List.append_singleton_inj]
    constructor
    · rintro ⟨rfl, rfl⟩
      exact Or.inl ⟨rfl, rfl, rfl⟩
    · rintro (⟨rfl, rfl, _⟩ | ⟨later, hnil, _⟩)
      · exact ⟨rfl, rfl⟩
      · exact absurd hnil (by simp)
  · rw [List.concat_eq_append, ← List.cons_append, ← List.append_assoc,
      List.append_singleton_inj]
    constructor
    · rintro ⟨rfl, rfl⟩
      exact Or.inr ⟨later, rfl, rfl⟩
    · rintro (⟨_, _, hnil⟩ | ⟨later', hlater, rfl⟩)
      · exact absurd hnil (by simp)
      · obtain ⟨rfl, rfl⟩ := List.append_singleton_inj.1 hlater
        exact ⟨rfl, rfl⟩

/-- One more event: it does not ask, and it answers or what was asked had been answered. -/
theorem answered_snoc {events : List α} {b : α} :
    Answered step asks answers s (events ++ [b]) ↔
      ¬ asks (events.foldl step s) b ∧
        (answers (events.foldl step s) b ∨ Answered step asks answers s events) := by
  constructor
  · intro h
    constructor
    · intro hasks
      obtain ⟨mid, c, rest, hnil, _⟩ := h events b [] rfl hasks
      exact absurd hnil (by simp)
    · by_cases hb : answers (events.foldl step s) b
      · exact Or.inl hb
      · refine Or.inr fun before a after hsplit hasks => ?_
        obtain ⟨mid, c, rest, hafter, hc⟩ :=
          h before a (after ++ [b]) (by rw [hsplit]; simp) hasks
        rcases snoc_eq_split.1 hafter with ⟨hmid, hcb, _⟩ | ⟨later, _, hlater⟩
        · rw [hmid, ← hsplit, hcb] at hc
          exact absurd hc hb
        · exact ⟨mid, c, later, hlater, hc⟩
  · rintro ⟨hask, hanswered⟩ before a after hsplit hasks
    rcases snoc_eq_split.1 hsplit with ⟨hbefore, hab, _⟩ | ⟨later, hafter, hevents⟩
    · rw [hbefore, hab] at hasks
      exact absurd hasks hask
    · rcases hanswered with hb | hanswered
      · refine ⟨later, b, [], hafter, ?_⟩
        rw [← hevents]
        exact hb
      · obtain ⟨mid, c, rest, hlater, hc⟩ := hanswered before a later hevents hasks
        exact ⟨mid, c, rest ++ [b], by rw [hafter, hlater]; simp, hc⟩

end Requests
end Cubiboot
