import Mathlib.Data.List.Nodup
import Mathlib.Logic.Function.Basic

/-!
# Queues linked through their elements

A queue that is kept in a field `next` of its elements, with a pointer to the first and
one to the last of them.  `Queued next head tail l` says that the queue has the elements
of `l` in this order.  The pointer to the last element is not looked at while the queue
is empty.

`Queued.push` appends an element, `Queued.pop` takes the first one, and `Queued.congr`
says that only the fields of its own elements matter.

The rules speak of one queue; `Queued.congr` is what keeps the others of a program.
-/

namespace Cubiboot
namespace LinkedQueue

universe u

variable {ι : Type u}

/-- Each element points to the one behind it, and the last one to none. -/
def Chained (next : ι → Option ι) : List ι → Prop
  | [] => True
  | x :: rest => next x = rest.head? ∧ Chained next rest

/-- The queue between two pointers. -/
structure Queued (next : ι → Option ι) (head tail : Option ι) (l : List ι) : Prop where
  head : head = l.head?
  tail : l ≠ [] → tail = l.getLast?
  chained : Chained next l
  nodup : l.Nodup

variable {next next' : ι → Option ι} {head tail : Option ι} {l : List ι} {x y : ι}

theorem Chained.congr (h : Chained next l) (heq : ∀ z ∈ l, next' z = next z) :
    Chained next' l := by
  induction l with
  | nil => trivial
  | cons z l ih =>
      refine ⟨(heq z List.mem_cons_self).trans h.1, ih h.2 fun w hw => ?_⟩
      exact heq w (List.mem_cons_of_mem z hw)

/-- The last element is made to point to a new one. -/
theorem Chained.concat [DecidableEq ι]
    (h : Chained next (l ++ [x])) (hnodup : (l ++ [x]).Nodup) (hlast : next' x = some y)
    (hnew : next' y = none) (heq : ∀ z ∈ l, next' z = next z) :
    Chained next' (l ++ [x, y]) := by
  induction l with
  | nil => exact ⟨hlast, hnew, trivial⟩
  | cons z l ih =>
      have hhead : (l ++ [x, y]).head? = (l ++ [x]).head? := by
        cases l <;> rfl
      refine ⟨?_, ih h.2 (List.nodup_cons.1 hnodup).2 fun w hw => ?_⟩
      · rw [List.append_eq, hhead]
        exact (heq z List.mem_cons_self).trans h.1
      · exact heq w (List.mem_cons_of_mem z hw)

theorem Queued.nil : Queued next none tail [] where
  head := rfl
  tail := fun hne => absurd rfl hne
  chained := trivial
  nodup := List.nodup_nil

theorem Queued.head_none_iff (h : Queued next head tail l) : head = none ↔ l = [] := by
  rw [h.head, List.head?_eq_none_iff]

theorem Queued.congr
    (h : Queued next head tail l) (heq : ∀ z ∈ l, next' z = next z) :
    Queued next' head tail l :=
  ⟨h.head, h.tail, h.chained.congr heq, h.nodup⟩

/-- What is behind the first element is queued behind its pointer. -/
theorem Queued.pop (h : Queued next head tail (x :: l)) :
    head = some x ∧ Queued next (next x) tail l := by
  refine ⟨h.head, h.chained.1, fun hne => ?_, h.chained.2, (List.nodup_cons.1 h.nodup).2⟩
  rw [h.tail (by simp), List.getLast?_cons]
  cases hl : l.getLast? with
  | none => exact absurd (List.getLast?_eq_none_iff.1 hl) hne
  | some z => rfl

/-- The first element of an empty queue. -/
theorem Queued.first (hnew : next x = none) : Queued next (some x) (some x) [x] where
  head := rfl
  tail := fun _ => rfl
  chained := ⟨hnew, trivial⟩
  nodup := List.nodup_singleton x

/-- A new element behind the last one. -/
theorem Queued.push [DecidableEq ι]
    (h : Queued next head tail l) (hx : x ∉ l) (hlast : tail = some y) (hne : l ≠ [])
    (hlink : next' y = some x) (hnew : next' x = none)
    (heq : ∀ z ∈ l, z ≠ y → next' z = next z) :
    Queued next' head (some x) (l ++ [x]) := by
  obtain ⟨l, z, rfl⟩ : ∃ l' z, l = l' ++ [z] := (List.eq_nil_or_concat' l).resolve_left hne
  have hz : z = y := by
    have htail := h.tail hne
    rw [hlast, List.getLast?_concat] at htail
    exact (Option.some.inj htail).symm
  subst hz
  have hnotin : z ∉ l := by
    have hnodup := h.nodup
    rw [List.nodup_append] at hnodup
    exact fun hmem => hnodup.2.2 z hmem z (by simp) rfl
  refine ⟨?_, fun _ => ?_, ?_, ?_⟩
  · rw [h.head]
    cases l <;> rfl
  · simp
  · rw [List.append_assoc]
    refine h.chained.concat h.nodup hlink hnew fun w hw => heq w (by simp [hw]) ?_
    rintro rfl
    exact hnotin hw
  · refine List.nodup_append.2 ⟨h.nodup, List.nodup_singleton x, fun a ha b hb => ?_⟩
    rintro rfl
    exact hx (List.mem_singleton.1 hb ▸ ha)

end LinkedQueue
end Cubiboot
