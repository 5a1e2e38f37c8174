import Cubiboot.Games.Listing
import Cubiboot.Libc.QsortRuns

/-!
# Sorting the listing

`gm_sort_files`: the paths of a directory in the order of `strcasecmp`.

The comparison is that of `gm_cmp_path_entry`, over paths without regard to case; it
ends at the first byte that differs, or at the end of either path. The sort is the
`qsort` of `Libc`, for at most as many paths as the list has room for.

Results: `strcasecmp_flip` and `strcasecmp_trans`, that the comparison is an order;
`gmCmpPathEntry_consistent`, that it is one as `qsort` asks for it; and
`gm_sort_files_sorts`, that the list of any directory is sorted, with every path that
was in it.
-/

namespace Cubiboot
namespace Games

open Libc Sorting

/-- `strcasecmp`; a string ends where its list does, or at a null byte in it. -/
def strcasecmp : Path → Path → Int
  | s1, [] => (toLower (s1.headD 0)).toNat
  | s1, c2 :: s2 =>
      let d : Int := (toLower (s1.headD 0)).toNat - (toLower c2).toNat
      if d ≠ 0 ∨ c2 = 0 then d else strcasecmp s1.tail s2

/-- `gm_cmp_path_entry`. -/
def gmCmpPathEntry (a b : GmPathEntry) : Int :=
  strcasecmp a.path b.path

/-- `gm_sort_files`. -/
def gmSortFiles (paths : List GmPathEntry) : Option (List GmPathEntry) :=
  (qsort gmCmpPathEntry 1 paths.toArray ⟨0, paths.length⟩).map Array.toList

/-- The first character of a string in lower case. -/
def firstLower (s : Path) : Int :=
  (toLower (s.headD 0)).toNat

theorem toLower_eq_zero (b : UInt8) : toLower b = 0 ↔ b = 0 := by
  rw [toLower]
  split
  · rename_i hupper
    constructor
    · intro h
      have := congrArg UInt8.toNat h
      have h₁ := UInt8.le_iff_toNat_le.1 hupper.1
      have h₂ := UInt8.le_iff_toNat_le.1 hupper.2
      simp at this h₁ h₂
      omega
    · rintro rfl
      exact absurd hupper.1 (by decide)
  · rfl

theorem firstLower_cons (b : UInt8) (s : Path) : firstLower (b :: s) = 0 ↔ b = 0 := by
  rw [← toLower_eq_zero b, firstLower, Int.natCast_eq_zero]
  exact ⟨fun h => UInt8.toNat_inj.1 h, fun h => congrArg UInt8.toNat h⟩

/-- The strings differ here, or end. -/
theorem strcasecmp_stop {s1 s2 : Path} (h : firstLower s1 ≠ firstLower s2 ∨ firstLower s2 = 0) :
    strcasecmp s1 s2 = firstLower s1 - firstLower s2 := by
  cases s2 with
  | nil =>
      rw [strcasecmp]
      exact (Int.sub_zero _).symm
  | cons c2 s2 =>
      rw [strcasecmp]
      refine if_pos (h.imp (fun hne heq => hne ?_) (firstLower_cons c2 s2).1)
      exact Int.sub_eq_zero.1 heq

/-- The strings are equal here and go on. -/
theorem strcasecmp_same {s1 s2 : Path} (h : firstLower s1 = firstLower s2)
    (hgoes : firstLower s2 ≠ 0) : strcasecmp s1 s2 = strcasecmp s1.tail s2.tail := by
  cases s2 with
  | nil => exact absurd rfl hgoes
  | cons c2 s2 =>
      rw [strcasecmp]
      refine if_neg fun hor => ?_
      rcases hor with hne | hzero
      · exact hne (Int.sub_eq_zero.2 h)
      · exact hgoes ((firstLower_cons c2 s2).2 hzero)

theorem strcasecmp_flip (s1 s2 : Path) : strcasecmp s1 s2 = -strcasecmp s2 s1 := by
  induction s2 generalizing s1 with
  | nil =>
      rw [strcasecmp_stop (.inr rfl), strcasecmp_stop]
      · omega
      · by_cases h : firstLower s1 = 0
        · exact .inr h
        · exact .inl (Ne.symm h)
  | cons c2 s2 ih =>
      by_cases h : firstLower s1 = firstLower (c2 :: s2)
      · by_cases hgoes : firstLower (c2 :: s2) = 0
        · rw [strcasecmp_stop (.inr hgoes), strcasecmp_stop (.inr (h.trans hgoes))]
          omega
        · rw [strcasecmp_same h hgoes, strcasecmp_same h.symm (h ▸ hgoes)]
          exact ih s1.tail
      · rw [strcasecmp_stop (.inl h), strcasecmp_stop (.inl (Ne.symm h))]
        omega

/-- A difference in the first characters decides. -/
theorem firstLower_le {s1 s2 : Path} (h : strcasecmp s1 s2 ≤ 0) :
    firstLower s1 ≤ firstLower s2 := by
  by_cases heq : firstLower s1 = firstLower s2
  · exact Int.le_of_eq heq
  · rw [strcasecmp_stop (.inl heq)] at h
    omega

theorem strcasecmp_trans {s1 s2 s3 : Path} (h₁₂ : strcasecmp s1 s2 ≤ 0)
    (h₂₃ : strcasecmp s2 s3 ≤ 0) : strcasecmp s1 s3 ≤ 0 := by
  induction s3 generalizing s1 s2 with
  | nil =>
      have hle := firstLower_le h₁₂
      have hle' := firstLower_le h₂₃
      rw [strcasecmp_stop (.inr rfl)]
      omega
  | cons c s3 ih =>
      have hle := firstLower_le h₁₂
      have hle' := firstLower_le h₂₃
      by_cases hgoes : firstLower s1 ≠ firstLower (c :: s3) ∨ firstLower (c :: s3) = 0
      · rw [strcasecmp_stop hgoes]
        omega
      · rw [not_or, not_not] at hgoes
        obtain ⟨heq, hne⟩ := hgoes
        have heq₁₂ : firstLower s1 = firstLower s2 := by omega
        have heq₂₃ : firstLower s2 = firstLower (c :: s3) := by omega
        rw [strcasecmp_same heq₁₂ (heq₂₃ ▸ hne)] at h₁₂
        rw [strcasecmp_same heq₂₃ hne] at h₂₃
        rw [strcasecmp_same heq hne]
        exact ih h₁₂ h₂₃

/-- `gm_cmp_path_entry` orders the paths. -/
theorem gmCmpPathEntry_consistent : Consistent gmCmpPathEntry where
  flip := fun a b => by
    rw [gmCmpPathEntry, gmCmpPathEntry, strcasecmp_flip b.path a.path]
    omega
  trans := fun _ _ _ => strcasecmp_trans

/--
The paths of a directory are sorted without `qsort` calling itself: it returns the same
paths, each of them at most the next by `strcasecmp`.
-/
theorem gm_sort_files_sorts (targetDir : Path) (dir : List FileEntry) :
    ∃ paths, gmSortFiles (gmListFiles targetDir dir) = some paths ∧
      paths.Perm (gmListFiles targetDir dir) ∧
      paths.Pairwise fun a b => strcasecmp a.path b.path ≤ 0 := by
  have hlen : 0 + (gmListFiles targetDir dir).length ≤ 1920 :=
    gmListFilesLoop_length targetDir dir (by decide)
  have hfits :
      Fits ⟨0, (gmListFiles targetDir dir).length⟩ (gmListFiles targetDir dir).toArray := by
    rw [Fits, Part.stop, List.size_toArray, Nat.zero_add]
  obtain ⟨ys, hys, hre, hsorted⟩ := qsort_spec gmCmpPathEntry 0 hfits
    (show (gmListFiles targetDir dir).length + 1 < 2048 by omega)
  have hsize : ys.size = (gmListFiles targetDir dir).length := by
    rw [hre.size, List.size_toArray]
  refine ⟨ys.toList, by rw [gmSortFiles, hys]; rfl, hre.perm.toList, ?_⟩
  exact (hsize ▸ hsorted gmCmpPathEntry_consistent).pairwise

end Games
end Cubiboot
