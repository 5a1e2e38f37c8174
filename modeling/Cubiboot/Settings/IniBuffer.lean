import Cubiboot.Settings.IniText

/-!
# The steps of `split_data` on a buffer

The buffer at a place is `front ++ (text ++ [0])`: what has been split already, and the
text that is left with its terminator. Each function is followed on it once.

Results: `strcspn_at`, where a key or a value ends; `trimBack_at`, `discardLine_at`,
`clearEqual_at` and `unescapeLoop_at`, what each function overwrites and where it stops;
and `trimmed_append`, that trimming stops at the string it is meant for.
-/

namespace Cubiboot
namespace Settings

variable {front text w : List UInt8}

/-- The byte at a place. -/
theorem byte_at (front text : List UInt8) (b : UInt8) :
    (front ++ b :: text)[front.length]? = some b := by
  simp

theorem store_at (front text : List UInt8) (b v : UInt8) :
    store (front ++ b :: text) front.length v = some (front ++ v :: text) := by
  have hlt : front.length < (front ++ b :: text).length := by simp
  rw [store, if_pos hlt, List.set_append_right _ _ (Nat.le_refl _), Nat.sub_self]
  rfl

theorem strcspn_at (front text : List UInt8) (reject : List UInt8) :
    strcspn (front ++ (text ++ [0])) front.length reject =
      some (text.takeWhile fun b => !decide (b = 0 ∨ b ∈ reject)).length := by
  rw [strcspn, List.drop_left]
  induction text with
  | nil => simp [List.findIdx?_cons]
  | cons b text ih =>
      rw [List.cons_append, List.findIdx?_cons, ih, List.takeWhile_cons]
      by_cases hb : b = 0 ∨ b ∈ reject
      · rw [decide_eq_true hb]
        rfl
      · rw [decide_eq_false hb]
        rfl

theorem trimmed_length_le (w : List UInt8) : (trimmed w).length ≤ w.length :=
  (List.rdropWhile_prefix isBlank w).length_le

/-- The blanks at the end of what comes before a place are overwritten. -/
theorem trimBack_at (w rest : List UInt8) :
    trimBack (w ++ rest) w.length =
      some (trimmed w ++ (List.replicate (w.length - (trimmed w).length) 0 ++ rest)) := by
  induction w using List.reverseRecOn generalizing rest with
  | nil => rfl
  | append_singleton w b ih =>
      rw [List.append_assoc, List.length_append, List.length_singleton, trimBack,
        List.singleton_append, byte_at]
      by_cases hb : isBlank b = true
      · have htrim : trimmed (w ++ [b]) = trimmed w := List.rdropWhile_concat_pos _ _ _ hb
        have hle := trimmed_length_le w
        have hset : (w ++ b :: rest).set w.length 0 = w ++ 0 :: rest := by
          rw [List.set_append_right _ _ (Nat.le_refl _), Nat.sub_self]
          rfl
        have hcount : w.length + 1 - (trimmed w).length = w.length - (trimmed w).length + 1 := by
          omega
        simp only [hb, if_true, hset, ih (0 :: rest), htrim, hcount, List.replicate_succ',
          List.append_assoc, List.singleton_append]
      · have htrim : trimmed (w ++ [b]) = w ++ [b] := List.rdropWhile_concat_neg _ _ _ hb
        simp [hb, htrim]

/-- Nothing is trimmed before a string that has a byte to keep. -/
theorem trimmed_append (hw : trimmed w ≠ [] ∨ trimmed front = front) :
    trimmed (front ++ w) = front ++ trimmed w := by
  induction w using List.reverseRecOn with
  | nil =>
      rcases hw with hw | hw
      · exact absurd rfl hw
      · rw [List.append_nil, hw]
        exact (List.append_nil front).symm
  | append_singleton w b ih =>
      by_cases hb : isBlank b = true
      · have htrim : trimmed (w ++ [b]) = trimmed w := List.rdropWhile_concat_pos _ _ _ hb
        have hwhole : trimmed (front ++ (w ++ [b])) = trimmed (front ++ w) := by
          rw [← List.append_assoc]
          exact List.rdropWhile_concat_pos _ _ _ hb
        rw [htrim] at hw ⊢
        rw [hwhole, ih hw]
      · have htrim : trimmed (w ++ [b]) = w ++ [b] := List.rdropWhile_concat_neg _ _ _ hb
        rw [htrim, ← List.append_assoc]
        exact List.rdropWhile_concat_neg _ _ _ hb

/-- A string that starts with a byte to keep is not trimmed away. -/
theorem trimmed_cons_ne {b : UInt8} (hb : isBlank b = false) (w : List UInt8) :
    trimmed (b :: w) ≠ [] := by
  rw [trimmed, Ne, List.rdropWhile_eq_nil_iff]
  intro hall
  have hblank := hall b (List.mem_cons_self ..)
  rw [hb] at hblank
  cases hblank

/-- A line is overwritten up to its end. -/
theorem discardLine_at (front text : List UInt8) :
    discardLine (front.length + text.length) (front ++ (text ++ [0])) front.length =
      some (front ++ (List.replicate (lineOf text).length 0 ++ (afterLine text ++ [0])),
        front.length + (lineOf text).length) := by
  rw [discardLine, Nat.add_sub_cancel_left]
  induction text generalizing front with
  | nil => rfl
  | cons b text ih =>
      rw [List.length_cons, discardLineLoop, List.cons_append, byte_at]
      by_cases hb : b = 0x0A
      · simp [lineOf, afterLine, hb]
      · have hset : (front ++ b :: (text ++ [0])).set front.length 0 =
            (front ++ [0]) ++ (text ++ [0]) := by
          rw [List.set_append_right _ _ (Nat.le_refl _), Nat.sub_self]
          simp
        have hlen : front.length + 1 = (front ++ [(0 : UInt8)]).length := by simp
        have hline : lineOf (b :: text) = b :: lineOf text := by simp [lineOf, hb]
        have hafter : afterLine (b :: text) = afterLine text := by simp [afterLine, hb]
        simp only [if_neg hb, hset]
        rw [hlen, ih (front ++ [0]), hline, hafter, List.length_cons, List.replicate_succ]
        refine congrArg some (Prod.ext ?_ ?_)
        · simp only [List.append_assoc, List.cons_append, List.nil_append]
        · rw [List.length_append, List.length_singleton]
          omega

/-- A `=` and the blanks after it are overwritten. -/
theorem clearEqual_at (front text : List UInt8) (b : UInt8) :
    clearEqual (text.length + 2) (front ++ b :: (text ++ [0])) front.length =
      some (front ++ (List.replicate ((text.takeWhile isBlank).length + 1) 0 ++
          (text.dropWhile isBlank ++ [0])),
        front.length + ((text.takeWhile isBlank).length + 1)) := by
  induction text generalizing front b with
  | nil =>
      have hnext := byte_at (front ++ [0]) [] 0
      rw [List.append_assoc, List.length_append] at hnext
      rw [clearEqual, store_at]
      simp only [List.nil_append]
      rw [show (front ++ [0, 0])[front.length + 1]? = some 0 from hnext]
      simp [isBlank]
  | cons c text ih =>
      have hnext := byte_at (front ++ [0]) (text ++ [0]) c
      rw [List.append_assoc, List.length_append] at hnext
      rw [List.length_cons, clearEqual, store_at]
      simp only [List.cons_append]
      rw [show (front ++ 0 :: c :: (text ++ [0]))[front.length + 1]? = some c from hnext]
      by_cases hc : isBlank c = true
      · have hrest := ih (front ++ [0]) c
        rw [List.append_assoc, List.length_append, List.length_singleton,
          List.singleton_append] at hrest
        simp only [hc, if_true, hrest, List.takeWhile_cons_of_pos hc,
          List.dropWhile_cons_of_pos hc, List.length_cons]
        refine congrArg some (Prod.ext ?_ ?_)
        · rw [List.replicate_succ' , ← List.replicate_succ']
          simp only [List.append_assoc, List.cons_append, List.nil_append, List.replicate_succ]
        · omega
      · simp [hc]

/--
Characters are written behind the place they are read at; between the two places is `gap`,
which moves on with every character.
-/
theorem unescapeLoop_at (turns : Nat) (front gap text : List UInt8) (hgap : gap ≠ [])
    (hturns : text.length ≤ turns) :
    unescapeLoop (front.length + (gap.length + text.length)) turns
        (front ++ (gap ++ (text ++ [0]))) (front.length + gap.length) front.length =
      some (front ++ (unquote text ++ ((gap ++ text).drop (unquote text).length ++ [0])),
        front.length + (unquote text).length) := by
  induction turns generalizing front gap text with
  | zero =>
      obtain rfl : text = [] := List.eq_nil_of_length_eq_zero (Nat.le_zero.1 hturns)
      simp [unescapeLoop, unquote]
  | succ turns ih =>
      obtain ⟨g, gs, rfl⟩ := List.exists_cons_of_ne_nil hgap
      cases text with
      | nil => simp [unescapeLoop, unquote]
      | cons b text =>
          have hlt : front.length + (g :: gs).length <
              front.length + ((g :: gs).length + (b :: text).length) := by
            simp
          have hread : (front ++ (g :: gs ++ (b :: text ++ [0])))[front.length +
              (g :: gs).length]? = some b := by
            simp
          rw [unescapeLoop, if_pos hlt, hread]
          simp only
          by_cases hend : b = 0x22 ∨ b = 0x0D ∨ b = 0x0A
          · rw [if_pos hend, unquote_end hend]
            simp
          · rw [if_neg hend]
            by_cases hslash : b = 0x5C
            · subst hslash
              rw [if_pos rfl]
              cases text with
              | nil =>
                  have hnext : (front ++ (g :: gs ++ ([0x5C] ++ [0])))[front.length +
                      (g :: gs).length + 1]? = some 0 := by
                    simp [Nat.add_assoc]
                  have hstop : unescaped 0 = none := rfl
                  have hend : unquote [0x5C] = [] := rfl
                  simp only [hnext, hstop, hend]
                  simp
              | cons c text =>
                  have hnext : (front ++ (g :: gs ++ (0x5C :: c :: text ++ [0])))[front.length +
                      (g :: gs).length + 1]? = some c := by
                    simp [Nat.add_assoc]
                  simp only [hnext]
                  cases hc : unescaped c with
                  | none =>
                      rw [unquote_stop hc]
                      simp
                  | some v =>
                      have hrest := ih (front ++ [v]) (gs ++ [0x5C, c]) text (by simp)
                        (by simp at hturns; omega)
                      simp only [List.cons_append, store_at]
                      rw [unquote_escape hc]
                      simp only [List.length_append, List.length_cons, List.length_nil,
                        List.append_assoc, List.cons_append, List.nil_append,
                        List.drop_succ_cons, ← Nat.add_assoc, Nat.zero_add] at hrest ⊢
                      have hfin : front.length + gs.length + 1 + text.length + 1 + 1 =
                          front.length + 1 + gs.length + 1 + 1 + text.length := by omega
                      have hp : front.length + gs.length + 1 + 2 =
                          front.length + 1 + gs.length + 1 + 1 := by omega
                      rw [hfin, hp, hrest]
                      simp only [Option.some.injEq, Prod.mk.injEq, true_and]
                      omega
            · have hrest := ih (front ++ [b]) (gs ++ [b]) text (by simp)
                (Nat.le_of_succ_le_succ hturns)
              rw [if_neg hslash, unquote_char hend hslash, List.cons_append, store_at]
              simp only [List.length_append, List.length_cons, List.length_nil, List.append_assoc,
                List.cons_append, List.nil_append, List.drop_succ_cons, ← Nat.add_assoc,
                Nat.zero_add] at hrest ⊢
              have hfin : front.length + gs.length + 1 + text.length + 1 =
                  front.length + 1 + gs.length + 1 + text.length := by omega
              have hp : front.length + gs.length + 1 + 1 =
                  front.length + 1 + gs.length + 1 := by omega
              rw [hfin, hp, hrest]
              simp only [Option.some.injEq, Prod.mk.injEq, true_and]
              omega

end Settings
end Cubiboot
