import Mathlib.Data.List.Count
import Mathlib.Tactic.Common
import Cubiboot.Foundations.BitStream

/-!
# Canonical prefix codes

A prefix code is given by the lengths of its codes, one for each symbol and zero for a
symbol that has none.  Codes of one length are consecutive numbers in the order of their
symbols, and `first lens l` is the first of length `l`: twice what follows the last code of
length `l - 1`.  A code is sent from its most significant bit on.

The symbols sorted by code are numbered from zero: `before lens l` of them have shorter
codes than `l`, and `rank` counts those of the same length.

Results: `HasLength.code`, the code of a symbol; `HasLength.rank_lt` and
`HasLength.rank_inj`, that the symbols of one length are numbered one by one;
`exists_rank`, that every number is one of a symbol; and `kraft_eq`.
-/

namespace Cubiboot
namespace CanonicalCode

open BitStream

/-- The codes of length `l`. -/
def count (lens : List Nat) (l : Nat) : Nat :=
  if l = 0 then 0 else lens.count l

/-- The first code of length `l`. -/
def first (lens : List Nat) : Nat → Nat
  | 0 => 0
  | l + 1 => 2 * (first lens l + count lens l)

/-- The codes that are shorter than `l`. -/
def before (lens : List Nat) : Nat → Nat
  | 0 => 0
  | l + 1 => before lens l + count lens l

/-- The symbols before `s` with a code as long as its own. -/
def rank (lens : List Nat) (s : Nat) : Nat :=
  (lens.take s).count (lens.getD s 0)

/-- The code of a symbol, from its most significant bit on. -/
def code (lens : List Nat) (s : Nat) : List Bool :=
  (toBits (lens.getD s 0) (first lens (lens.getD s 0) + rank lens s)).reverse

/-- `s` is a symbol with a code of `l` bits. -/
structure HasLength (lens : List Nat) (s l : Nat) : Prop where
  get : lens[s]? = some l
  pos : l ≠ 0

section Ranks

variable {lens : List Nat} {s t l : Nat}

theorem HasLength.getD (h : HasLength lens s l) : lens.getD s 0 = l := by
  rw [List.getD_eq_getElem?_getD, h.get, Option.getD_some]

theorem HasLength.count (h : HasLength lens s l) : count lens l = lens.count l :=
  if_neg h.pos

theorem HasLength.code (h : HasLength lens s l) :
    code lens s = (toBits l (first lens l + rank lens s)).reverse := by
  rw [CanonicalCode.code, h.getD]

theorem HasLength.code_length (h : HasLength lens s l) :
    (CanonicalCode.code lens s).length = l := by
  rw [h.code, List.length_reverse, toBits_length]

theorem count_take_lt {s t l : Nat} (h : lens[s]? = some l) (hst : s < t) :
    (lens.take s).count l < (lens.take t).count l := by
  obtain ⟨d, rfl⟩ := Nat.exists_eq_add_of_lt hst
  rw [Nat.add_assoc, List.take_add, List.count_append, List.drop_eq_getElem?_toList_append, h,
    Option.toList_some, List.singleton_append, List.take_succ_cons, List.count_cons_self]
  omega

/-- The symbols with codes of one length have consecutive ranks. -/
theorem HasLength.rank_lt (h : HasLength lens s l) : rank lens s < CanonicalCode.count lens l := by
  rw [rank, h.getD, h.count]
  exact (count_take_lt h.get (Nat.lt_succ_self s)).trans_le
    ((List.take_sublist _ _).count_le l)

theorem HasLength.rank_inj (hs : HasLength lens s l) (ht : HasLength lens t l)
    (h : rank lens s = rank lens t) : s = t := by
  rw [rank, rank, hs.getD, ht.getD] at h
  rcases Nat.lt_trichotomy s t with hlt | heq | hlt
  · exact absurd h (count_take_lt hs.get hlt).ne
  · exact heq
  · exact absurd h (count_take_lt ht.get hlt).ne'

/-- Symbols in a run of one length. -/
theorem rank_run {lens pre post : List Nat} {n l s k c : Nat}
    (hlens : lens = pre ++ (List.replicate n l ++ post)) (hk : pre.length = k)
    (hc : pre.count l = c) (hle : k ≤ s) (hlt : s < k + n) :
    lens.getD s 0 = l ∧ rank lens s = c + (s - k) := by
  subst hk hc
  have hget : lens.getD s 0 = l := by
    rw [hlens, List.getD_eq_getElem?_getD, List.getElem?_append_right hle,
      List.getElem?_append_left (by rw [List.length_replicate]; omega),
      List.getElem?_replicate, if_pos (by omega), Option.getD_some]
  refine ⟨hget, ?_⟩
  rw [rank, hget, hlens, List.take_append, List.take_of_length_le hle, List.count_append,
    List.take_append_of_le_length (by rw [List.length_replicate]; omega), List.take_replicate,
    List.count_replicate_self, Nat.min_eq_left (by omega)]

theorem exists_count_take {r l : Nat} (h : r < lens.count l) :
    ∃ s, lens[s]? = some l ∧ (lens.take s).count l = r := by
  induction lens generalizing r with
  | nil => exact absurd h (Nat.not_lt_zero _)
  | cons x xs ih =>
      by_cases hx : x = l
      · subst hx
        cases r with
        | zero => exact ⟨0, rfl, rfl⟩
        | succ r =>
            rw [List.count_cons_self] at h
            obtain ⟨s, hs, hr⟩ := ih (Nat.lt_of_succ_lt_succ h)
            exact ⟨s + 1, hs, by rw [List.take_succ_cons, List.count_cons_self, hr]⟩
      · rw [List.count_cons_of_ne hx] at h
        obtain ⟨s, hs, hr⟩ := ih h
        exact ⟨s + 1, hs, by rw [List.take_succ_cons, List.count_cons_of_ne hx, hr]⟩

/-- Every rank is that of a symbol. -/
theorem exists_rank (lens : List Nat) {r : Nat} (hl : l ≠ 0) (h : r < CanonicalCode.count lens l) :
    ∃ s, HasLength lens s l ∧ rank lens s = r := by
  rw [CanonicalCode.count, if_neg hl] at h
  obtain ⟨s, hs, hr⟩ := exists_count_take h
  have hlen : HasLength lens s l := ⟨hs, hl⟩
  exact ⟨s, hlen, by rw [rank, hlen.getD, hr]⟩

end Ranks

section Order

variable {lens : List Nat} {s t k l : Nat}

theorem before_mono (lens : List Nat) (h : k ≤ l) : before lens k ≤ before lens l := by
  induction h with
  | refl => exact Nat.le_refl _
  | step _ ih => exact ih.trans (Nat.le_add_right _ _)

/-- Symbols with longer codes come later in the order of the codes. -/
theorem before_lt (lens : List Nat) (h : k < l) : before lens k + count lens k ≤ before lens l :=
  before_mono lens h

/-- The position of a symbol in the order of the codes is its own. -/
theorem position_inj (hs : HasLength lens s k) (ht : HasLength lens t l)
    (h : before lens k + rank lens s = before lens l + rank lens t) : s = t := by
  have hsr := hs.rank_lt
  have htr := ht.rank_lt
  rcases Nat.lt_trichotomy k l with hlt | rfl | hlt
  · have := before_lt lens hlt
    omega
  · exact hs.rank_inj ht (by omega)
  · have := before_lt lens hlt
    omega

/-- The codes of length `k`, extended to length `l`, all come before those of length `l`. -/
theorem first_le (lens : List Nat) (h : k < l) :
    (first lens k + count lens k) * 2 ^ (l - k) ≤ first lens l := by
  induction l, h using Nat.le_induction with
  | base =>
      rw [Nat.succ_eq_add_one, first, Nat.add_sub_cancel_left, Nat.pow_one, Nat.mul_comm]
  | succ l hkl ih =>
      have hkl : k < l := hkl
      rw [first, Nat.succ_sub hkl.le, Nat.pow_succ, ← Nat.mul_assoc, Nat.mul_comm _ 2]
      exact Nat.mul_le_mul_left 2 (ih.trans (Nat.le_add_right _ _))

end Order

/-- The share of the codes up to length `l` in all bit strings of length `l`. -/
def kraft (lens : List Nat) (l : Nat) : Nat :=
  (lens.map fun k => if k = 0 ∨ l < k then 0 else 2 ^ (l - k)).sum

/-- The codes up to length `l` and what is left. -/
theorem kraft_eq (lens : List Nat) (l : Nat) : kraft lens l = first lens l + count lens l := by
  induction l with
  | zero =>
      rw [first, count, if_pos rfl]
      induction lens with
      | nil => rfl
      | cons k lens ih =>
          rw [kraft, List.map_cons, List.sum_cons, if_pos (Nat.eq_zero_or_pos k), ← kraft, ih]
  | succ l ih =>
      rw [first, ← ih, count, if_neg (Nat.succ_ne_zero l)]
      clear ih
      induction lens with
      | nil => rfl
      | cons k lens ih =>
          have hcons : ∀ m, kraft (k :: lens) m =
              (if k = 0 ∨ m < k then 0 else 2 ^ (m - k)) + kraft lens m := fun _ => rfl
          rw [hcons, hcons, ih]
          by_cases hk : k = l + 1
          · subst hk
            rw [List.count_cons_self, if_neg (by omega), if_pos (by omega), Nat.sub_self]
            omega
          · rw [List.count_cons_of_ne hk]
            by_cases hout : k = 0 ∨ l < k
            · rw [if_pos hout, if_pos (by omega)]
              omega
            · rw [if_neg hout, if_neg (by omega), Nat.succ_sub (by omega), Nat.pow_succ]
              omega

/-- The codes up to length `l` leave room for longer ones, if they are not all. -/
theorem kraft_fits {lens : List Nat} {k l : Nat} (h : kraft lens l ≤ 2 ^ l) (hk : k ≤ l) :
    first lens k + count lens k ≤ 2 ^ k := by
  rcases Nat.lt_or_eq_of_le hk with hlt | rfl
  · rw [kraft_eq] at h
    have hle := (first_le lens hlt).trans ((Nat.le_add_right _ _).trans h)
    have hpow : 2 ^ l = 2 ^ k * 2 ^ (l - k) := by
      rw [← Nat.pow_add, Nat.add_sub_cancel' hk]
    rw [hpow] at hle
    exact Nat.le_of_mul_le_mul_right hle (Nat.two_pow_pos _)
  · exact kraft_eq lens k ▸ h

section Codes

variable {lens : List Nat} {s t k l m : Nat}

theorem HasLength.code_lt (h : HasLength lens s l) (hkraft : kraft lens m ≤ 2 ^ m) (hl : l ≤ m) :
    first lens l + rank lens s < 2 ^ l :=
  (Nat.add_lt_add_left h.rank_lt _).trans_le (kraft_fits hkraft hl)

/-- No code is the beginning of another. -/
theorem code_prefix_inj (hkraft : kraft lens m ≤ 2 ^ m) (hs : HasLength lens s k) (hk : k ≤ m)
    (ht : HasLength lens t l) (hl : l ≤ m) (h : code lens s <+: code lens t) : s = t := by
  have hkl : k ≤ l := by
    have hlen := h.length_le
    rwa [hs.code_length, ht.code_length] at hlen
  obtain ⟨d, rfl⟩ := Nat.exists_eq_add_of_le hkl
  rw [hs.code, ht.code, Nat.add_comm k d, toBits_add, List.reverse_append] at h
  obtain ⟨rest, hrest⟩ := h
  have hvt := ht.code_lt hkraft hl
  have hhead := (List.append_inj hrest (by simp)).1
  rw [List.reverse_inj] at hhead
  have hdiv : (first lens (d + k) + rank lens t) / 2 ^ d < 2 ^ k := by
    rw [Nat.div_lt_iff_lt_mul (Nat.two_pow_pos d), ← Nat.pow_add]
    rwa [Nat.add_comm k d] at hvt ⊢
  have hval := toBits_inj (hs.code_lt hkraft hk) hdiv hhead
  have hrs := hs.rank_lt
  rcases Nat.eq_zero_or_pos d with rfl | hd
  · rw [Nat.zero_add, Nat.pow_zero, Nat.div_one] at hval
    exact hs.rank_inj ht (by omega)
  -- a longer code is past all that begin with a code of length `k`
  · have hfirst := first_le lens (show k < k + d by omega)
    rw [Nat.add_sub_cancel_left] at hfirst
    have hge : first lens k + count lens k ≤ (first lens (d + k) + rank lens t) / 2 ^ d := by
      rw [Nat.le_div_iff_mul_le (Nat.two_pow_pos d), Nat.add_comm d k]
      exact hfirst.trans (Nat.le_add_right _ _)
    omega

/-- What starts with two codes starts with one. -/
theorem code_append_inj (hkraft : kraft lens m ≤ 2 ^ m) (hs : HasLength lens s k) (hk : k ≤ m)
    (ht : HasLength lens t l) (hl : l ≤ m) {bits : List Bool} (h : code lens s <+: bits)
    (h' : code lens t <+: bits) : s = t := by
  rcases List.prefix_or_prefix_of_prefix h h' with hp | hp
  · exact code_prefix_inj hkraft hs hk ht hl hp
  · exact (code_prefix_inj hkraft ht hl hs hk hp).symm

end Codes

/-- The symbols that have a code. -/
def used (lens : List Nat) : Nat :=
  lens.countP (· ≠ 0)

/-- The codes up to length `l` are all of them. -/
theorem before_eq_used {lens : List Nat} {l : Nat} (h : ∀ k ∈ lens, k < l) :
    before lens l = used lens := by
  have hbefore : ∀ m, before lens m = lens.countP fun k => decide (k ≠ 0 ∧ k < m) := by
    intro m
    induction m with
    | zero =>
        rw [before]
        refine (List.countP_eq_zero.2 fun k _ => ?_).symm
        simp
    | succ m ih =>
        rw [before, ih, count]
        clear ih h
        induction lens with
        | nil => split <;> rfl
        | cons k lens ih =>
            rw [List.countP_cons, List.countP_cons, ← ih]
            by_cases hm : m = 0
            · subst hm
              simp
            · rw [if_neg hm, if_neg hm, List.count_cons]
              simp only [beq_iff_eq, decide_eq_true_eq]
              split <;> split <;> split <;> omega
  rw [hbefore, used]
  exact List.countP_congr fun k hk => by simp [h k hk]

/-- A code takes at most half of the bit strings of a length. -/
theorem kraft_le_used (lens : List Nat) (l : Nat) : kraft lens (l + 1) ≤ used lens * 2 ^ l := by
  induction lens with
  | nil => exact Nat.zero_le _
  | cons k lens ih =>
      rw [kraft, List.map_cons, List.sum_cons, ← kraft, used, List.countP_cons, ← used,
        Nat.add_mul, Nat.add_comm]
      refine Nat.add_le_add ih ?_
      by_cases hk : k = 0
      · rw [if_pos (.inl hk)]
        exact Nat.zero_le _
      · rw [if_pos (show decide (k ≠ 0) = true by simpa using hk), Nat.one_mul]
        split
        · exact Nat.zero_le _
        · exact Nat.pow_le_pow_right (by decide) (by omega)

end CanonicalCode
end Cubiboot
