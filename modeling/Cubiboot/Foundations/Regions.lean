import Mathlib.Data.List.Pairwise
import Mathlib.Tactic.Common

/-!
# Regions that tile an interval

A region is an offset with a length.  `Tiles a l b` says that the regions of `l`
follow one another from `a` to `b` without a gap.

Regions that tile an interval do not overlap, stay inside it, and cover it; so a
further region above the start of the interval meets none of them exactly when
it begins at or after its end.

Results: `Tiles.append` and `Tiles.split`, tilings put together and taken apart;
`Tiles.inside`, `Tiles.pairwise` and `Tiles.covers`; `Tiles.aligned`, where regions of
aligned lengths begin; and `Tiles.clear_iff`, the region above.
-/

namespace Cubiboot
namespace Regions

/-- A range of addresses. -/
structure Region where
  offset : Nat
  length : Nat
deriving DecidableEq, Repr

/-- The address just past a region. -/
def Region.stop (r : Region) : Nat :=
  r.offset + r.length

/-- Two regions that share no address. -/
def Region.Disjoint (r r' : Region) : Prop :=
  r.stop ≤ r'.offset ∨ r'.stop ≤ r.offset

/-- The regions follow one another from `a` to `b`. -/
def Tiles : Nat → List Region → Nat → Prop
  | a, [], b => a = b
  | a, r :: l, b => r.offset = a ∧ Tiles r.stop l b

variable {a b c : Nat} {l l' : List Region} {r : Region}

/-- A tiling of two lists is two tilings with a common end. -/
theorem tiles_append :
    Tiles a (l ++ l') c ↔ ∃ b, Tiles a l b ∧ Tiles b l' c := by
  induction l generalizing a with
  | nil =>
      constructor
      · intro h
        exact ⟨a, rfl, h⟩
      · rintro ⟨b, hb, h⟩
        obtain rfl : a = b := hb
        exact h
  | cons r l ih =>
      constructor
      · rintro ⟨hoffset, hrest⟩
        obtain ⟨b, hl, hl'⟩ := ih.1 hrest
        exact ⟨b, ⟨hoffset, hl⟩, hl'⟩
      · rintro ⟨b, ⟨hoffset, hl⟩, hl'⟩
        exact ⟨hoffset, ih.2 ⟨b, hl, hl'⟩⟩

/-- Two tilings with a common end. -/
theorem Tiles.append
    (h : Tiles a l b) (h' : Tiles b l' c) :
    Tiles a (l ++ l') c :=
  tiles_append.2 ⟨b, h, h'⟩

/-- A tiling split where one of its regions begins. -/
theorem Tiles.split
    (h : Tiles a (l ++ r :: l') c) :
    Tiles a l r.offset ∧ Tiles r.stop l' c := by
  obtain ⟨b, hl, hoffset, hl'⟩ := tiles_append.1 h
  exact ⟨hoffset ▸ hl, hl'⟩

theorem Tiles.le (h : Tiles a l b) : a ≤ b := by
  induction l generalizing a with
  | nil =>
      exact Nat.le_of_eq h
  | cons r l ih =>
      obtain ⟨hoffset, hrest⟩ := h
      have hstop : r.stop ≤ b := ih hrest
      simp only [Region.stop] at hstop
      omega

/-- A region of a tiling stays inside the interval. -/
theorem Tiles.inside
    (h : Tiles a l b) (hr : r ∈ l) :
    a ≤ r.offset ∧ r.stop ≤ b := by
  obtain ⟨left, right, rfl⟩ := List.append_of_mem hr
  obtain ⟨hleft, hright⟩ := h.split
  exact ⟨hleft.le, hright.le⟩

/-- The regions of a tiling are in order. -/
theorem Tiles.ordered
    (h : Tiles a l b) : l.Pairwise fun r r' => r.stop ≤ r'.offset := by
  induction l generalizing a with
  | nil =>
      exact List.Pairwise.nil
  | cons r l ih =>
      obtain ⟨_, hrest⟩ := h
      refine List.Pairwise.cons ?_ (ih hrest)
      intro q hq
      exact (hrest.inside hq).1

/-- The regions of a tiling do not overlap. -/
theorem Tiles.pairwise
    (h : Tiles a l b) : l.Pairwise Region.Disjoint :=
  h.ordered.imp Or.inl

/-- Regions whose lengths are multiples begin at multiples. -/
theorem Tiles.aligned
    {m : Nat} (h : Tiles a l b) (ha : a % m = 0) (hl : ∀ r ∈ l, r.length % m = 0)
    (hr : r ∈ l) : r.offset % m = 0 := by
  induction l generalizing a with
  | nil =>
      cases hr
  | cons q l ih =>
      obtain ⟨rfl, hrest⟩ := h
      rcases List.mem_cons.1 hr with rfl | hr
      · exact ha
      · refine ih hrest ?_ (fun p hp => hl p (List.mem_cons_of_mem q hp)) hr
        rw [Region.stop, Nat.add_mod, ha, hl q List.mem_cons_self]
        simp

/-- Every address of the interval lies in a region. -/
theorem Tiles.covers
    (h : Tiles a l b) {x : Nat} (ha : a ≤ x) (hb : x < b) :
    ∃ r ∈ l, r.offset ≤ x ∧ x < r.stop := by
  induction l generalizing a with
  | nil =>
      obtain rfl : a = b := h
      omega
  | cons r l ih =>
      obtain ⟨hoffset, hrest⟩ := h
      rcases Nat.lt_or_ge x r.stop with hlt | hge
      · exact ⟨r, List.mem_cons_self, by omega, hlt⟩
      · obtain ⟨q, hq, hin⟩ := ih hrest hge
        exact ⟨q, List.mem_cons_of_mem _ hq, hin⟩

/-- A region above the start meets none of the tiles iff it begins past the end. -/
theorem Tiles.clear_iff
    (h : Tiles a l b) (hstart : a ≤ r.offset) (hpos : 0 < r.length) :
    (∀ q ∈ l, q.Disjoint r) ↔ b ≤ r.offset := by
  constructor
  · intro hclear
    by_contra hlt
    obtain ⟨q, hq, hle, hin⟩ := h.covers hstart (Nat.lt_of_not_le hlt)
    rcases hclear q hq with hd | hd
    · omega
    · simp only [Region.stop] at hd
      omega
  · intro hend q hq
    exact Or.inl (Nat.le_trans (h.inside hq).2 hend)

end Regions
end Cubiboot
