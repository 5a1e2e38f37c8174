import Mathlib.Data.List.Basic
import Mathlib.Logic.Function.Basic

/-!
# Doubly linked segments

A doubly linked list kept in two pointer fields `next` and `prev` over an
arbitrary node type.  `Segment next prev before l after` says that the nodes of
`l` are linked in this order, that the first one points back to `before` and
that the last one points on to `after`.  A whole list is a segment from `none`
to `none`.

A segment splits at any place (`segment_append`), depends on the fields of its
own nodes only (`Segment.congr`), and its two end pointers can be redirected
(`Segment.redirect_after`, `Segment.redirect_before`).  Unlinking a node and
linking one in are assembled from these rules.

Further results: `Segment.fields`, the neighbours of a node; `segment_of_fields`, the
converse; `Segment.unique`; and `Segment.unlink` and `Segment.link`, the two operations.
-/

namespace Cubiboot
namespace LinkedSegment

universe u

variable {α : Type u}

/-- The nodes of a list linked in order between two outer pointers. -/
def Segment
    (next prev : α → Option α) :
    Option α → List α → Option α → Prop
  | _, [], _ => True
  | before, x :: rest, after =>
      prev x = before ∧
      next x = (rest.head?.or after) ∧
      Segment next prev (some x) rest after

variable {next prev next' prev' : α → Option α}
variable {before before' after after' : Option α}

@[simp] theorem segment_nil :
    Segment next prev before [] after := by
  trivial

theorem segment_cons
    {x : α} {rest : List α} :
    Segment next prev before (x :: rest) after ↔
      prev x = before ∧
      next x = (rest.head?.or after) ∧
      Segment next prev (some x) rest after :=
  Iff.rfl

/-- A segment splits at any place. -/
theorem segment_append
    {l r : List α} :
    Segment next prev before (l ++ r) after ↔
      Segment next prev before l (r.head?.or after) ∧
      Segment next prev (l.getLast?.or before) r after := by
  induction l generalizing before with
  | nil =>
      simp
  | cons x l ih =>
      have hlast :
          (x :: l).getLast?.or before = l.getLast?.or (some x) := by
        cases l with
        | nil => rfl
        | cons y l => simp [List.getLast?_cons]
      have hhead :
          ((l ++ r).head?.or after) = (l.head?.or (r.head?.or after)) := by
        cases l <;> simp
      rw [List.cons_append, segment_cons, segment_cons, ih, hlast, hhead]
      constructor
      · rintro ⟨h₁, h₂, h₃, h₄⟩
        exact ⟨⟨h₁, h₂, h₃⟩, h₄⟩
      · rintro ⟨⟨h₁, h₂, h₃⟩, h₄⟩
        exact ⟨h₁, h₂, h₃, h₄⟩

/-- Both fields of a node in the middle of a segment. -/
theorem Segment.fields
    {l r : List α} {x : α}
    (h : Segment next prev before (l ++ x :: r) after) :
    prev x = (l.getLast?.or before) ∧
      next x = (r.head?.or after) := by
  have hx := (segment_append.1 h).2
  exact ⟨hx.1, hx.2.1⟩

/-- The fields say where a list goes on. -/
theorem Segment.unique
    {l l' : List α} {before' : Option α}
    (h : Segment next prev before l none) (h' : Segment next prev before' l' none)
    (hhead : l.head? = l'.head?) :
    l = l' := by
  induction l generalizing l' before before' with
  | nil =>
      exact (List.head?_eq_none_iff.1 hhead.symm).symm
  | cons x rest ih =>
      cases l' with
      | nil =>
          cases hhead
      | cons y rest' =>
          obtain rfl : x = y := by simpa using hhead
          obtain ⟨_, hnext, hrest⟩ := h
          obtain ⟨_, hnext', hrest'⟩ := h'
          rw [Option.or_none] at hnext hnext'
          rw [ih hrest hrest' (hnext.symm.trans hnext')]

/-- A segment, from the fields of each node. -/
theorem segment_of_fields
    {l : List α}
    (h : ∀ u x v, l = u ++ x :: v →
      prev x = (u.getLast?.or before) ∧ next x = (v.head?.or after)) :
    Segment next prev before l after := by
  induction l generalizing before with
  | nil =>
      trivial
  | cons x l ih =>
      have hx := h [] x l rfl
      refine ⟨by simpa using hx.1, hx.2, ih fun u y v hl => ?_⟩
      have hy := h (x :: u) y v (by rw [hl]; rfl)
      refine ⟨?_, hy.2⟩
      rw [hy.1]
      cases u with
      | nil => simp
      | cons z u => simp [List.getLast?_cons]

/-- A segment depends on the fields of its own nodes only. -/
theorem Segment.congr
    {l : List α}
    (h : Segment next prev before l after)
    (hnext : ∀ x ∈ l, next' x = next x)
    (hprev : ∀ x ∈ l, prev' x = prev x) :
    Segment next' prev' before l after := by
  induction l generalizing before with
  | nil =>
      trivial
  | cons x l ih =>
      obtain ⟨h₁, h₂, h₃⟩ := h
      refine ⟨?_, ?_, ?_⟩
      · rw [hprev x (by simp), h₁]
      · rw [hnext x (by simp), h₂]
      · exact ih h₃
          (fun y hy => hnext y (List.mem_cons_of_mem x hy))
          (fun y hy => hprev y (List.mem_cons_of_mem x hy))

/-- Redirect the pointer that leaves a segment at its end. -/
theorem Segment.redirect_after
    {l : List α}
    (h : Segment next prev before l after)
    (hnodup : l.Nodup)
    (hprev : ∀ x ∈ l, prev' x = prev x)
    (hinner : ∀ x ∈ l, l.getLast? ≠ some x → next' x = next x)
    (hend : ∀ x, l.getLast? = some x → next' x = after') :
    Segment next' prev' before l after' := by
  induction l generalizing before with
  | nil =>
      trivial
  | cons x l ih =>
      obtain ⟨h₁, h₂, h₃⟩ := h
      obtain ⟨hx, hl⟩ := List.nodup_cons.1 hnodup
      cases l with
      | nil =>
          refine ⟨?_, ?_, trivial⟩
          · rw [hprev x (by simp), h₁]
          · simpa using hend x (by simp)
      | cons y l =>
          have hlast : (x :: y :: l).getLast? = (y :: l).getLast? := by
            simp [List.getLast?_cons_cons]
          have hne : (x :: y :: l).getLast? ≠ some x := by
            rw [hlast]
            intro heq
            exact hx (List.mem_of_getLast? heq)
          refine ⟨?_, ?_, ?_⟩
          · rw [hprev x (by simp), h₁]
          · rw [hinner x (by simp) hne, h₂]
            simp
          · refine ih h₃ hl
              (fun z hz => hprev z (List.mem_cons_of_mem x hz))
              (fun z hz hz' => ?_) (fun z hz => ?_)
            · exact hinner z (List.mem_cons_of_mem x hz) (by rwa [hlast])
            · exact hend z (by rwa [hlast])

/-- Redirect the pointer that leaves a segment at its front. -/
theorem Segment.redirect_before
    {l : List α}
    (h : Segment next prev before l after)
    (hnodup : l.Nodup)
    (hnext : ∀ x ∈ l, next' x = next x)
    (hinner : ∀ x ∈ l, l.head? ≠ some x → prev' x = prev x)
    (hfront : ∀ x, l.head? = some x → prev' x = before') :
    Segment next' prev' before' l after := by
  cases l with
  | nil =>
      trivial
  | cons x l =>
      obtain ⟨_, h₂, h₃⟩ := h
      obtain ⟨hx, _⟩ := List.nodup_cons.1 hnodup
      refine ⟨hfront x rfl, ?_, ?_⟩
      · rw [hnext x (by simp), h₂]
      · refine h₃.congr
          (fun y hy => hnext y (List.mem_cons_of_mem x hy))
          (fun y hy => hinner y (List.mem_cons_of_mem x hy) ?_)
        rintro heq
        simp only [List.head?_cons, Option.some.injEq] at heq
        exact hx (heq ▸ hy)

/-- Unlinking a node: its neighbours point past it and no other field changes. -/
theorem Segment.unlink
    {l r : List α} {x : α}
    (h : Segment next prev none (l ++ x :: r) none)
    (hnodup : (l ++ x :: r).Nodup)
    (hnext : ∀ y ∈ l ++ r, l.getLast? ≠ some y → next' y = next y)
    (hprev : ∀ y ∈ l ++ r, r.head? ≠ some y → prev' y = prev y)
    (hlast : ∀ y, l.getLast? = some y → next' y = r.head?)
    (hhead : ∀ y, r.head? = some y → prev' y = l.getLast?) :
    Segment next' prev' none (l ++ r) none := by
  rw [segment_append] at h
  obtain ⟨hl, hxr⟩ := h
  have hr := hxr.2.2
  have hnd := List.nodup_append.1 hnodup
  have hdisj : ∀ y ∈ l, y ∉ r := fun y hy hy' =>
    hnd.2.2 y hy y (List.mem_cons_of_mem x hy') rfl
  rw [segment_append]
  constructor
  · refine hl.redirect_after hnd.1
      (fun y hy => hprev y (by simp [hy]) ?_)
      (fun y hy => hnext y (by simp [hy])) (fun y hy => ?_)
    · intro heq
      exact hdisj y hy (List.mem_of_head? heq)
    · simpa using hlast y hy
  · refine hr.redirect_before (List.nodup_cons.1 hnd.2.1).2
      (fun y hy => hnext y (by simp [hy]) ?_)
      (fun y hy => hprev y (by simp [hy])) (fun y hy => ?_)
    · intro heq
      exact hdisj y (List.mem_of_getLast? heq) hy
    · simpa using hhead y hy

/-- Linking a node in between two segments of a list. -/
theorem Segment.link
    {l r : List α} {x : α}
    (h : Segment next prev none (l ++ r) none)
    (hnodup : (l ++ r).Nodup)
    (hnext : ∀ y ∈ l ++ r, l.getLast? ≠ some y → next' y = next y)
    (hprev : ∀ y ∈ l ++ r, r.head? ≠ some y → prev' y = prev y)
    (hlast : ∀ y, l.getLast? = some y → next' y = some x)
    (hhead : ∀ y, r.head? = some y → prev' y = some x)
    (hxprev : prev' x = l.getLast?)
    (hxnext : next' x = r.head?) :
    Segment next' prev' none (l ++ x :: r) none := by
  rw [segment_append] at h
  obtain ⟨hl, hr⟩ := h
  have hnd := List.nodup_append.1 hnodup
  have hdisj : ∀ y ∈ l, y ∉ r := fun y hy hy' =>
    hnd.2.2 y hy y hy' rfl
  rw [segment_append]
  refine ⟨?_, ?_, ?_, ?_⟩
  · refine hl.redirect_after hnd.1
      (fun y hy => hprev y (by simp [hy]) ?_)
      (fun y hy => hnext y (by simp [hy])) (fun y hy => ?_)
    · intro heq
      exact hdisj y hy (List.mem_of_head? heq)
    · simpa using hlast y hy
  · simpa using hxprev
  · simpa using hxnext
  · refine hr.redirect_before hnd.2.1
      (fun y hy => hnext y (by simp [hy]) ?_)
      (fun y hy => hprev y (by simp [hy])) (fun y hy => hhead y hy)
    intro heq
    exact hdisj y (List.mem_of_getLast? heq) hy

end LinkedSegment
end Cubiboot
