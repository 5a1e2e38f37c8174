import Mathlib.Data.List.TakeWhile

/-!
# Fields of a buffer

The strings of a buffer that separators end. Any number of separators may stand between
two of them, before the first and after the last.

`firstString` and `afterString` are the string at the start of a buffer and what follows
the separators behind it; a scanner that goes from string to string goes through
`fields`.

Results: `fields_string`, a buffer of one string; `fields_append`, that fields end where
a separator stands between two buffers; `fields_append_replicate` and
`fields_replicate_append`, that separators at either end add nothing; `fields_first`,
one step of the scanner; and `afterString_length`, that each step takes something.
-/

namespace Cubiboot
namespace Fields

universe u

variable {β : Type u} [DecidableEq β] {nul : β} {w rest : List β}

/-- The nonempty strings between separators. -/
def fields (nul : β) (l : List β) : List (List β) :=
  (l.splitOn nul).filter fun w => !w.isEmpty

@[simp]
theorem fields_nil : fields nul [] = [] := by
  simp [fields, List.splitOn_nil]

/-- A separator keeps what is before it and what is after it apart. -/
@[simp]
theorem fields_append_cons (w rest : List β) :
    fields nul (w ++ nul :: rest) = fields nul w ++ fields nul rest := by
  simp [fields, List.splitOn_append_cons_self]

@[simp]
theorem fields_cons (rest : List β) : fields nul (nul :: rest) = fields nul rest :=
  fields_append_cons [] rest

/-- A string without a separator. -/
theorem fields_string (hnul : nul ∉ w) (hne : w ≠ []) : fields nul w = [w] := by
  simp [fields, List.splitOn_eq_singleton hnul, hne]

theorem fields_replicate (n : Nat) : fields nul (List.replicate n nul) = [] := by
  induction n with
  | zero => exact fields_nil
  | succ n ih => rw [List.replicate_succ, fields_cons, ih]

/-- Separators after a string do not change its fields. -/
theorem fields_append_replicate (w : List β) (n : Nat) :
    fields nul (w ++ List.replicate n nul) = fields nul w := by
  cases n with
  | zero => rw [List.replicate_zero, List.append_nil]
  | succ n => rw [List.replicate_succ, fields_append_cons, fields_replicate, List.append_nil]

theorem fields_replicate_append (n : Nat) (w : List β) :
    fields nul (List.replicate n nul ++ w) = fields nul w := by
  induction n with
  | zero => rw [List.replicate_zero, List.nil_append]
  | succ n ih => rw [List.replicate_succ, List.cons_append, fields_cons, ih]

/-- Fields do not run over a place where a separator stands before or after it. -/
theorem fields_append
    (h : (w = [] ∨ ∃ v, w = v ++ [nul]) ∨ rest = [] ∨ ∃ t, rest = nul :: t) :
    fields nul (w ++ rest) = fields nul w ++ fields nul rest := by
  rcases h with (rfl | ⟨v, rfl⟩) | rfl | ⟨t, rfl⟩
  · simp
  · rw [List.append_assoc, List.singleton_append, fields_append_cons, fields_append_cons,
      fields_nil, List.append_nil]
  · simp
  · rw [fields_append_cons, fields_cons]

/-- The string at the start of a buffer. -/
def firstString (nul : β) (l : List β) : List β :=
  l.takeWhile (· ≠ nul)

/-- A buffer from its next string on. -/
def afterString (nul : β) (l : List β) : List β :=
  (l.dropWhile (· ≠ nul)).dropWhile (· = nul)

/-- What comes after a string starts with another string. -/
theorem afterString_head {l t : List β} {b : β} (h : afterString nul l = b :: t) : b ≠ nul := by
  have hnot := List.head?_dropWhile_not (fun b => decide (b = nul)) (l.dropWhile (· ≠ nul))
  rw [afterString] at h
  rw [h] at hnot
  simpa using hnot

/-- A string takes a byte at least. -/
theorem afterString_length {b : β} (hb : b ≠ nul) (l : List β) :
    (afterString nul (b :: l)).length ≤ l.length := by
  rw [afterString, List.dropWhile_cons_of_pos (by simpa using hb)]
  exact ((List.dropWhile_sublist _).trans (List.dropWhile_sublist _)).length_le

theorem fields_dropWhile (l : List β) :
    fields nul (l.dropWhile (· = nul)) = fields nul l := by
  induction l with
  | nil => rfl
  | cons b l ih =>
      by_cases hb : b = nul
      · subst hb
        rw [List.dropWhile_cons_of_pos (by simp), ih, fields_cons]
      · rw [List.dropWhile_cons_of_neg (by simpa using hb)]

/-- The strings of a buffer that starts with one. -/
theorem fields_first {b : β} (hb : b ≠ nul) (l : List β) :
    fields nul (b :: l) = firstString nul (b :: l) :: fields nul (afterString nul (b :: l)) := by
  have hsplit : b :: l = firstString nul (b :: l) ++ (b :: l).dropWhile (· ≠ nul) :=
    List.takeWhile_append_dropWhile.symm
  have hfirst : fields nul (firstString nul (b :: l)) = [firstString nul (b :: l)] := by
    refine fields_string (fun hmem => ?_) ?_
    · have hnot := List.mem_takeWhile_imp hmem
      simp at hnot
    · rw [firstString, List.takeWhile_cons_of_pos (by simpa using hb)]
      exact List.cons_ne_nil _ _
  have hedge : (b :: l).dropWhile (· ≠ nul) = [] ∨
      ∃ t, (b :: l).dropWhile (· ≠ nul) = nul :: t := by
    cases hdrop : (b :: l).dropWhile (· ≠ nul) with
    | nil => exact .inl rfl
    | cons c t =>
        have hnot := List.head?_dropWhile_not (fun b => decide (b ≠ nul)) (b :: l)
        rw [hdrop] at hnot
        have hc : c = nul := by simpa using hnot
        exact .inr ⟨t, by rw [hc]⟩
  calc fields nul (b :: l)
      = fields nul (firstString nul (b :: l) ++ (b :: l).dropWhile (· ≠ nul)) := by rw [← hsplit]
    _ = fields nul (firstString nul (b :: l)) ++ fields nul ((b :: l).dropWhile (· ≠ nul)) :=
        fields_append (.inr hedge)
    _ = firstString nul (b :: l) :: fields nul (afterString nul (b :: l)) := by
        rw [hfirst, afterString, fields_dropWhile]
        rfl

end Fields
end Cubiboot
