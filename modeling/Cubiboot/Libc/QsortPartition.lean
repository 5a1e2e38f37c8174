import Cubiboot.Libc.QsortParts

/-!
# The partition of `qsort`

The scans from both sides keep four zones: equal to the pivot, less, greater and equal
again, with what has not been looked at in the middle.  When the scans have met, `gather`
brings the equal elements to the middle.

Results: `exchange`, the two elements that the scans stop at; `partition_spec`, that the
scans meet with the zones as they should be, by induction on what lies between them;
`gather_spec`, the equal elements in the middle; and `Gathered.sortedBut`, that the two
parts beside them are all that is left to sort, for a comparison that is consistent.
-/

namespace Cubiboot
namespace Libc

open Sorting

variable {α : Type} {cmp : α → α → Int} {xs ys : Array α} {p : Part} {v : α}
variable {s s' : Partition α}

/-- An element that the scans take for equal to the pivot `v`, or the pivot itself. -/
def Equal (cmp : α → α → Int) (v x : α) : Prop :=
  x = v ∨ cmp x v = 0

/-- The zones of the partition of `p` around `v`. -/
structure Zones (cmp : α → α → Int) (p : Part) (v : α) (s : Partition α) : Prop where
  fits : Fits p s.mem
  pivot : s.mem[p.base]? = some v
  pa : p.base < s.pa
  pb : s.pa ≤ s.pb
  pc : s.pb ≤ s.pc + 1
  pd : s.pc ≤ s.pd
  stop : s.pd < p.stop
  equalLeft : ∀ i x, p.base ≤ i → i < s.pa → s.mem[i]? = some x → Equal cmp v x
  less : ∀ i x, s.pa ≤ i → i < s.pb → s.mem[i]? = some x → cmp x v < 0
  greater : ∀ i x, s.pc + 1 ≤ i → i < s.pd + 1 → s.mem[i]? = some x → 0 < cmp x v
  equalRight : ∀ i x, s.pd + 1 ≤ i → i < p.stop → s.mem[i]? = some x → Equal cmp v x

/-- What has been looked at after `s` and before `s'`. -/
structure Narrows (p : Part) (s s' : Partition α) : Prop where
  rearranged : Rearranged p s.mem s'.mem
  pb : s.pb ≤ s'.pb
  pc : s'.pc ≤ s.pc

theorem Narrows.refl (p : Part) (s : Partition α) : Narrows p s s :=
  ⟨.refl p s.mem, Nat.le_refl _, Nat.le_refl _⟩

theorem Narrows.trans {s'' : Partition α} (h : Narrows p s s') (h' : Narrows p s' s'') :
    Narrows p s s'' :=
  ⟨h.rearranged.trans h'.rearranged, h.pb.trans h'.pb, h'.pc.trans h.pc⟩

namespace Zones

theorem has_pb (h : Zones cmp p v s) (hle : s.pb ≤ s.pc) : p.Has s.pb := by
  have ⟨_, _, hpa, hpb, _, hpd, hstop, _, _, _, _⟩ := h
  exact ⟨by omega, by omega⟩

theorem has_pc (h : Zones cmp p v s) (hle : s.pb ≤ s.pc) : p.Has s.pc := by
  have ⟨_, _, hpa, hpb, _, hpd, hstop, _, _, _, _⟩ := h
  exact ⟨by omega, by omega⟩

theorem has_pa (h : Zones cmp p v s) (hle : s.pb ≤ s.pc) : p.Has s.pa := by
  have ⟨_, _, hpa, hpb, _, hpd, hstop, _, _, _, _⟩ := h
  exact ⟨by omega, by omega⟩

theorem has_pd (h : Zones cmp p v s) (hle : s.pb ≤ s.pc) : p.Has s.pd := by
  have ⟨_, _, hpa, hpb, _, hpd, hstop, _, _, _, _⟩ := h
  exact ⟨by omega, by omega⟩

/-- The element at `pb` is less than the pivot. -/
theorem take_less {x : α} (h : Zones cmp p v s) (hle : s.pb ≤ s.pc)
    (hx : s.mem[s.pb]? = some x) (hlt : cmp x v < 0) :
    Zones cmp p v { s with pb := s.pb + 1 } where
  fits := h.fits
  pivot := h.pivot
  pa := h.pa
  pb := h.pb.trans (Nat.le_succ _)
  pc := Nat.succ_le_succ hle
  pd := h.pd
  stop := h.stop
  equalLeft := h.equalLeft
  less := fun i y hi hi' hy => by
    rcases Nat.lt_succ_iff_lt_or_eq.1 hi' with hlt' | rfl
    · exact h.less i y hi hlt' hy
    · obtain rfl : x = y := Option.some.inj (hx.symm.trans hy)
      exact hlt
  greater := h.greater
  equalRight := h.equalRight

/-- The element at `pc` is greater than the pivot. -/
theorem take_greater {x : α} (h : Zones cmp p v s) (hle : s.pb ≤ s.pc)
    (hx : s.mem[s.pc]? = some x) (hlt : 0 < cmp x v) :
    Zones cmp p v { s with pc := s.pc - 1 } := by
  have ⟨_, _, hpa, hpb, _, hpd, _, _, _, _, _⟩ := h
  exact {
    fits := h.fits
    pivot := h.pivot
    pa := h.pa
    pb := h.pb
    pc := show s.pb ≤ s.pc - 1 + 1 by omega
    pd := show s.pc - 1 ≤ s.pd by omega
    stop := h.stop
    equalLeft := h.equalLeft
    less := h.less
    greater := fun i y hi hi' hy => by
      by_cases hpc : i = s.pc
      · subst hpc
        obtain rfl : x = y := Option.some.inj (hx.symm.trans hy)
        exact hlt
      · have hi : s.pc - 1 + 1 ≤ i := hi
        exact h.greater i y (by omega) hi' hy
    equalRight := h.equalRight }

/-- The element at `pb` is equal to the pivot and goes to the left. -/
theorem take_equalLeft {x : α} (h : Zones cmp p v s) (hle : s.pb ≤ s.pc)
    (hx : s.mem[s.pb]? = some x) (heq : cmp x v = 0) (hswap : Swapped s.mem s.pa s.pb ys) :
    Zones cmp p v ⟨ys, s.pa + 1, s.pb + 1, s.pc, s.pd, true⟩ := by
  have ⟨_, _, hpa, hpb, _, hpd, _, _, _, _, _⟩ := h
  exact {
    fits := h.fits.rearranged (hswap.rearranged (h.has_pa hle) (h.has_pb hle))
    pivot := (hswap.other _ (by omega) (by omega)).trans h.pivot
    pa := h.pa.trans (Nat.lt_succ_self _)
    pb := Nat.succ_le_succ h.pb
    pc := Nat.succ_le_succ hle
    pd := h.pd
    stop := h.stop
    equalLeft := fun i y hi hi' hy => by
      have hi' : i < s.pa + 1 := hi'
      have hy : ys[i]? = some y := hy
      by_cases hpa : i = s.pa
      · subst hpa
        rw [hswap.left] at hy
        obtain rfl : x = y := Option.some.inj (hx.symm.trans hy)
        exact .inr heq
      · rw [hswap.other i hpa (by omega)] at hy
        exact h.equalLeft i y hi (by omega) hy
    less := fun i y hi hi' hy => by
      have hi : s.pa + 1 ≤ i := hi
      have hi' : i < s.pb + 1 := hi'
      have hy : ys[i]? = some y := hy
      by_cases hpb : i = s.pb
      · subst hpb
        rw [hswap.right] at hy
        exact h.less s.pa y (Nat.le_refl _) (by omega) hy
      · rw [hswap.other i (by omega) hpb] at hy
        exact h.less i y (by omega) (by omega) hy
    greater := fun i y hi hi' hy => by
      have hi : s.pc + 1 ≤ i := hi
      have hy : ys[i]? = some y := hy
      rw [hswap.other i (by omega) (by omega)] at hy
      exact h.greater i y hi hi' hy
    equalRight := fun i y hi hi' hy => by
      have hi : s.pd + 1 ≤ i := hi
      have hy : ys[i]? = some y := hy
      rw [hswap.other i (by omega) (by omega)] at hy
      exact h.equalRight i y hi hi' hy }

/-- The element at `pc` is equal to the pivot and goes to the right. -/
theorem take_equalRight {x : α} (h : Zones cmp p v s) (hle : s.pb ≤ s.pc)
    (hx : s.mem[s.pc]? = some x) (heq : cmp x v = 0) (hswap : Swapped s.mem s.pc s.pd ys) :
    Zones cmp p v ⟨ys, s.pa, s.pb, s.pc - 1, s.pd - 1, true⟩ := by
  have ⟨_, _, hpa, hpb, _, hpd, hstop, _, _, _, _⟩ := h
  exact {
    fits := h.fits.rearranged (hswap.rearranged (h.has_pc hle) (h.has_pd hle))
    pivot := (hswap.other _ (by omega) (by omega)).trans h.pivot
    pa := h.pa
    pb := h.pb
    pc := show s.pb ≤ s.pc - 1 + 1 by omega
    pd := show s.pc - 1 ≤ s.pd - 1 by omega
    stop := show s.pd - 1 < p.stop by omega
    equalLeft := fun i y hi hi' hy => by
      have hi' : i < s.pa := hi'
      have hy : ys[i]? = some y := hy
      rw [hswap.other i (by omega) (by omega)] at hy
      exact h.equalLeft i y hi hi' hy
    less := fun i y hi hi' hy => by
      have hi' : i < s.pb := hi'
      have hy : ys[i]? = some y := hy
      rw [hswap.other i (by omega) (by omega)] at hy
      exact h.less i y hi hi' hy
    greater := fun i y hi hi' hy => by
      have hi : s.pc - 1 + 1 ≤ i := hi
      have hi' : i < s.pd - 1 + 1 := hi'
      have hy : ys[i]? = some y := hy
      by_cases hpc : i = s.pc
      · subst hpc
        rw [hswap.left] at hy
        exact h.greater s.pd y (by omega) (by omega) hy
      · rw [hswap.other i hpc (by omega)] at hy
        exact h.greater i y (by omega) (by omega) hy
    equalRight := fun i y hi hi' hy => by
      have hi : s.pd - 1 + 1 ≤ i := hi
      have hy : ys[i]? = some y := hy
      by_cases hpd : i = s.pd
      · subst hpd
        rw [hswap.right] at hy
        obtain rfl : x = y := Option.some.inj (hx.symm.trans hy)
        exact .inr heq
      · rw [hswap.other i (by omega) hpd] at hy
        exact h.equalRight i y (by omega) hi' hy }

/-- The two elements that the scans have found change places. -/
theorem exchange {x y : α} (h : Zones cmp p v s) (hlt : s.pb < s.pc)
    (hx : s.mem[s.pb]? = some x) (hxv : 0 < cmp x v)
    (hy : s.mem[s.pc]? = some y) (hyv : cmp y v < 0) (hswap : Swapped s.mem s.pb s.pc ys) :
    Zones cmp p v ⟨ys, s.pa, s.pb + 1, s.pc - 1, s.pd, true⟩ := by
  have ⟨_, _, hpa, hpb, _, hpd, hstop, _, _, _, _⟩ := h
  exact {
    fits := h.fits.rearranged (hswap.rearranged (h.has_pb hlt.le) (h.has_pc hlt.le))
    pivot := (hswap.other _ (by omega) (by omega)).trans h.pivot
    pa := h.pa
    pb := h.pb.trans (Nat.le_succ _)
    pc := show s.pb + 1 ≤ s.pc - 1 + 1 by omega
    pd := show s.pc - 1 ≤ s.pd by omega
    stop := h.stop
    equalLeft := fun i z hi hi' hz => by
      have hi' : i < s.pa := hi'
      have hz : ys[i]? = some z := hz
      rw [hswap.other i (by omega) (by omega)] at hz
      exact h.equalLeft i z hi hi' hz
    less := fun i z hi hi' hz => by
      have hi' : i < s.pb + 1 := hi'
      have hz : ys[i]? = some z := hz
      by_cases hpb : i = s.pb
      · subst hpb
        rw [hswap.left] at hz
        obtain rfl : y = z := Option.some.inj (hy.symm.trans hz)
        exact hyv
      · rw [hswap.other i hpb (by omega)] at hz
        exact h.less i z hi (by omega) hz
    greater := fun i z hi hi' hz => by
      have hi : s.pc - 1 + 1 ≤ i := hi
      have hz : ys[i]? = some z := hz
      by_cases hpc : i = s.pc
      · subst hpc
        rw [hswap.right] at hz
        obtain rfl : x = z := Option.some.inj (hx.symm.trans hz)
        exact hxv
      · rw [hswap.other i (by omega) hpc] at hz
        exact h.greater i z (by omega) hi' hz
    equalRight := fun i z hi hi' hz => by
      have hi : s.pd + 1 ≤ i := hi
      have hz : ys[i]? = some z := hz
      rw [hswap.other i (by omega) (by omega)] at hz
      exact h.equalRight i z hi hi' hz }

end Zones

/-- The scan from the left has met the other or found an element that is greater. -/
def StopsRight (cmp : α → α → Int) (v : α) (s : Partition α) : Prop :=
  s.pb ≤ s.pc → ∃ x, s.mem[s.pb]? = some x ∧ 0 < cmp x v

theorem scanRightwards_spec (h : Zones cmp p v s) {fuel : Nat} (hfuel : s.pc + 1 - s.pb < fuel) :
    ∃ s', FuelLoop.run (scanRightwards cmp p.base) fuel s = some s' ∧
      Zones cmp p v s' ∧ Narrows p s s' ∧ StopsRight cmp v s' := by
  refine FuelLoop.run_meets (fun t => Zones cmp p v t ∧ Narrows p s t)
    (fun t => Zones cmp p v t ∧ Narrows p s t ∧ StopsRight cmp v t)
    (fun t => t.pc + 1 - t.pb) ?_ ⟨h, .refl p s⟩ hfuel
  rintro t ⟨hz, hn⟩
  rw [scanRightwards]
  by_cases hle : t.pb ≤ t.pc
  · obtain ⟨x, hx⟩ := hz.fits.get (hz.has_pb hle)
    simp only [if_pos hle, cmpAt_some hx hz.pivot, Option.bind_eq_bind, Option.bind_some]
    by_cases hlt : cmp x v ≤ 0
    · rw [if_pos hlt]
      right
      by_cases heq : cmp x v = 0
      · obtain ⟨ys, hys, hswap⟩ := swapAt_spec hz.fits (hz.has_pa hle) (hz.has_pb hle)
        simp only [if_pos heq, hys, Option.bind_some]
        refine ⟨_, rfl, ⟨hz.take_equalLeft hle hx heq hswap, hn.trans ?_⟩, ?_⟩
        · exact ⟨hswap.rearranged (hz.has_pa hle) (hz.has_pb hle), Nat.le_succ _, Nat.le_refl _⟩
        · show t.pc + 1 - (t.pb + 1) < t.pc + 1 - t.pb
          omega
      · rw [if_neg heq]
        refine ⟨_, rfl, ⟨hz.take_less hle hx (by omega), hn.trans ?_⟩, ?_⟩
        · exact ⟨.refl p _, Nat.le_succ _, Nat.le_refl _⟩
        · show t.pc + 1 - (t.pb + 1) < t.pc + 1 - t.pb
          omega
    · rw [if_neg hlt]
      exact .inl ⟨t, rfl, hz, hn, fun _ => ⟨x, hx, Int.not_le.1 hlt⟩⟩
  · rw [if_neg hle]
    exact .inl ⟨t, rfl, hz, hn, fun hle' => absurd hle' hle⟩

/-- The scan from the right has met the other, or both have found an element. -/
def StopsLeft (cmp : α → α → Int) (v : α) (s : Partition α) : Prop :=
  s.pb ≤ s.pc → s.pb < s.pc ∧ ∃ x y, s.mem[s.pb]? = some x ∧ 0 < cmp x v ∧
    s.mem[s.pc]? = some y ∧ cmp y v < 0

theorem scanLeftwards_spec (h : Zones cmp p v s) (hstops : StopsRight cmp v s)
    {fuel : Nat} (hfuel : s.pc + 1 - s.pb < fuel) :
    ∃ s', FuelLoop.run (scanLeftwards cmp p.base) fuel s = some s' ∧
      Zones cmp p v s' ∧ Narrows p s s' ∧ StopsLeft cmp v s' := by
  refine FuelLoop.run_meets
    (fun t => (Zones cmp p v t ∧ StopsRight cmp v t) ∧ Narrows p s t)
    (fun t => Zones cmp p v t ∧ Narrows p s t ∧ StopsLeft cmp v t)
    (fun t => t.pc + 1 - t.pb) ?_ ⟨⟨h, hstops⟩, .refl p s⟩ hfuel
  rintro t ⟨⟨hz, hst⟩, hn⟩
  rw [scanLeftwards]
  by_cases hle : t.pb ≤ t.pc
  · obtain ⟨x, hx⟩ := hz.fits.get (hz.has_pc hle)
    obtain ⟨y, hy, hyv⟩ := hst hle
    simp only [if_pos hle, cmpAt_some hx hz.pivot, Option.bind_eq_bind, Option.bind_some]
    by_cases hge : 0 ≤ cmp x v
    · rw [if_pos hge]
      right
      by_cases heq : cmp x v = 0
      · -- the element at `pb` is not equal to the pivot, so it is not the one that moves
        have hne : t.pb ≠ t.pc := by
          intro hpb
          rw [hpb] at hy
          obtain rfl : x = y := Option.some.inj (hx.symm.trans hy)
          omega
        have hpd := hz.pd
        obtain ⟨ys, hys, hswap⟩ := swapAt_spec hz.fits (hz.has_pc hle) (hz.has_pd hle)
        simp only [if_pos heq, hys, Option.bind_some]
        refine ⟨_, rfl, ⟨⟨hz.take_equalRight hle hx heq hswap, fun _ => ⟨y, ?_, hyv⟩⟩,
          hn.trans ?_⟩, ?_⟩
        · exact (hswap.other _ hne (by omega)).trans hy
        · exact ⟨hswap.rearranged (hz.has_pc hle) (hz.has_pd hle), Nat.le_refl _, Nat.sub_le _ _⟩
        · show t.pc - 1 + 1 - t.pb < t.pc + 1 - t.pb
          omega
      · rw [if_neg heq]
        have hpa := hz.pa
        have hpb := hz.pb
        refine ⟨_, rfl, ⟨⟨hz.take_greater hle hx (by omega), fun hle' => hst hle⟩,
          hn.trans ?_⟩, ?_⟩
        · exact ⟨.refl p _, Nat.le_refl _, Nat.sub_le _ _⟩
        · show t.pc - 1 + 1 - t.pb < t.pc + 1 - t.pb
          omega
    · rw [if_neg hge]
      refine .inl ⟨t, rfl, hz, hn, fun _ => ⟨?_, y, x, hy, hyv, hx, Int.not_le.1 hge⟩⟩
      refine lt_of_le_of_ne hle fun hpb => ?_
      rw [hpb] at hy
      obtain rfl : x = y := Option.some.inj (hx.symm.trans hy)
      omega
  · rw [if_neg hle]
    exact .inl ⟨t, rfl, hz, hn, fun hle' => absurd hle' hle⟩

/-- The scans and exchanges until the scans have met. -/
theorem partitionPasses_spec (h : Zones cmp p v s) :
    ∃ s', FuelLoop.run (partitionPass cmp p) (p.count + 1) s = some s' ∧
      Zones cmp p v s' ∧ Rearranged p s.mem s'.mem ∧ s'.pb = s'.pc + 1 := by
  have hbound : ∀ t : Partition α, Zones cmp p v t → t.pc + 1 - t.pb < p.count := by
    intro t ht
    have hpa := ht.pa
    have hpb := ht.pb
    have hpc := ht.pc
    have hpd := ht.pd
    have hstop := ht.stop
    rw [Part.stop] at hstop
    omega
  refine FuelLoop.run_meets (fun t => Zones cmp p v t ∧ Rearranged p s.mem t.mem)
    (fun t => Zones cmp p v t ∧ Rearranged p s.mem t.mem ∧ t.pb = t.pc + 1)
    (fun t => t.pc + 1 - t.pb) ?_ ⟨h, .refl p s.mem⟩ ((hbound s h).trans (Nat.lt_succ_self _))
  rintro t ⟨hz, hre⟩
  obtain ⟨t₁, ht₁, hz₁, hn₁, hst₁⟩ :=
    scanRightwards_spec hz ((hbound t hz).trans (Nat.lt_succ_self _))
  obtain ⟨t₂, ht₂, hz₂, hn₂, hst₂⟩ :=
    scanLeftwards_spec hz₁ hst₁ ((hbound t₁ hz₁).trans (Nat.lt_succ_self _))
  have hn := hn₁.trans hn₂
  simp only [partitionPass, ht₁, ht₂, Option.bind_eq_bind, Option.bind_some]
  by_cases hmet : t₂.pc < t₂.pb
  · rw [if_pos hmet]
    have hpc := hz₂.pc
    exact .inl ⟨t₂, rfl, hz₂, hre.trans hn.rearranged, by omega⟩
  · rw [if_neg hmet]
    have hle : t₂.pb ≤ t₂.pc := Nat.not_lt.1 hmet
    obtain ⟨hlt, x, y, hx, hxv, hy, hyv⟩ := hst₂ hle
    obtain ⟨ys, hys, hswap⟩ := swapAt_spec hz₂.fits (hz₂.has_pb hle) (hz₂.has_pc hle)
    simp only [hys, Option.bind_some]
    refine .inr ⟨_, rfl, ⟨hz₂.exchange hlt hx hxv hy hyv hswap, ?_⟩, ?_⟩
    · exact (hre.trans hn.rearranged).trans
        (hswap.rearranged (hz₂.has_pb hle) (hz₂.has_pc hle))
    · show t₂.pc - 1 + 1 - (t₂.pb + 1) < t.pc + 1 - t.pb
      have hpb := hn.pb
      have hpc := hn.pc
      omega

/-- The partition of a part of at least seven elements. -/
theorem partition_spec (cmp : α → α → Int) (h : Fits p xs) (hn : 7 ≤ p.count) :
    ∃ v s, partition cmp xs p = some s ∧ Zones cmp p v s ∧ Rearranged p xs s.mem ∧
      s.pb = s.pc + 1 := by
  obtain ⟨m, hm, hmp⟩ := selectPivot_spec cmp h hn
  have hfirst : p.Has p.base := ⟨Nat.le_refl _, by rw [Part.stop]; omega⟩
  obtain ⟨ys, hys, hswap⟩ := swapAt_spec h hfirst hmp
  have hre := hswap.rearranged hfirst hmp
  obtain ⟨v, hv⟩ := (h.rearranged hre).get hfirst
  have hzones : Zones cmp p v ⟨ys, p.base + 1, p.base + 1, p.base + (p.count - 1),
      p.base + (p.count - 1), false⟩ := {
    fits := h.rearranged hre
    pivot := hv
    pa := Nat.lt_succ_self _
    pb := Nat.le_refl _
    pc := show p.base + 1 ≤ p.base + (p.count - 1) + 1 by omega
    pd := Nat.le_refl _
    stop := show p.base + (p.count - 1) < p.base + p.count by omega
    equalLeft := fun i x hi hi' hx => by
      obtain rfl : i = p.base := Nat.le_antisymm (Nat.lt_succ_iff.1 hi') hi
      exact .inl (Option.some.inj (hx.symm.trans hv))
    less := fun i x hi hi' _ => absurd hi' (Nat.not_lt.2 hi)
    greater := fun i x hi hi' _ => absurd hi' (Nat.not_lt.2 hi)
    equalRight := fun i x hi hi' _ => by
      have hi : p.base + (p.count - 1) + 1 ≤ i := hi
      rw [Part.stop] at hi'
      omega }
  obtain ⟨s, hs, hz, hre', hmet⟩ := partitionPasses_spec hzones
  refine ⟨v, s, ?_, hz, hre.trans hre', hmet⟩
  simp only [partition, hm, hys, Option.bind_eq_bind, Option.bind_some]
  exact hs

/-- The parts left and right of the elements that are equal to the pivot. -/
structure Gathered (cmp : α → α → Int) (p : Part) (v : α) (ys : Array α) (left right : Part) :
    Prop where
  left_base : left.base = p.base
  right_stop : right.stop = p.stop
  apart : left.stop < right.base
  less : ∀ i x, left.Has i → ys[i]? = some x → cmp x v < 0
  equal : ∀ i x, left.stop ≤ i → i < right.base → ys[i]? = some x → Equal cmp v x
  greater : ∀ i x, right.Has i → ys[i]? = some x → 0 < cmp x v

/-- `gather` brings the elements equal to the pivot to the middle. -/
theorem gather_spec (h : Zones cmp p v s) (hmet : s.pb = s.pc + 1) :
    ∃ ys left right, gather p s = some (ys, left, right) ∧ Rearranged p s.mem ys ∧
      Gathered cmp p v ys left right := by
  have hpa := h.pa
  have hpb := h.pb
  have hpd := h.pd
  have hstop := h.stop
  obtain ⟨xs, hxs, hleft⟩ := vecswap_spec (a := p.base)
    (b := s.pb - min (s.pa - p.base) (s.pb - s.pa)) (n := min (s.pa - p.base) (s.pb - s.pa))
    h.fits (Nat.le_refl _) (by omega) (by omega)
  have hre : Rearranged p s.mem xs := hleft.rearranged (Nat.le_refl _) (by omega) (by omega)
  obtain ⟨ys, hys, hright⟩ := vecswap_spec (a := s.pb)
    (b := p.stop - min (s.pd - s.pc) (p.stop - s.pd - 1))
    (n := min (s.pd - s.pc) (p.stop - s.pd - 1))
    (h.fits.rearranged hre) (by omega) (by omega) (by omega)
  have hre' : Rearranged p xs ys := hright.rearranged (by omega) (by omega) (by omega)
  obtain ⟨hless, hequal⟩ := hleft.zones rfl (by omega) hpb h.equalLeft h.less
  -- the exchange on the left leaves the right side as it was, and the other way round
  have hbehind : ∀ i, s.pb ≤ i → xs[i]? = s.mem[i]? := fun i hi =>
    hleft.other i (by omega) (by omega)
  have hbefore : ∀ i, i < s.pb → ys[i]? = xs[i]? := fun i hi =>
    hright.other i (by omega) (by omega)
  obtain ⟨hequal', hgreater⟩ := hright.zones (m := s.pd + 1) (P := fun x => 0 < cmp x v)
    (Q := Equal cmp v) (by omega) (by omega) (by omega)
    (fun i x hi hi' hx => h.greater i x (by omega) hi' (hbehind i hi ▸ hx))
    (fun i x hi hi' hx => h.equalRight i x hi hi' (hbehind i (by omega) ▸ hx))
  refine ⟨ys, ⟨p.base, s.pb - s.pa⟩, ⟨p.stop - (s.pd - s.pc), s.pd - s.pc⟩, ?_,
    hre.trans hre', rfl, ?_, ?_, ?_, ?_, ?_⟩
  · simp only [gather, hxs, hys, Option.bind_eq_bind, Option.bind_some]
  · show p.stop - (s.pd - s.pc) + (s.pd - s.pc) = p.stop
    omega
  · show p.base + (s.pb - s.pa) < p.stop - (s.pd - s.pc)
    omega
  · rintro i x ⟨hi, hi'⟩ hx
    have hi' : i < p.base + (s.pb - s.pa) := hi'
    rw [hbefore i (by omega)] at hx
    exact hless i x hi hi' hx
  · intro i x hi hi' hx
    have hi : p.base + (s.pb - s.pa) ≤ i := hi
    have hi' : i < p.stop - (s.pd - s.pc) := hi'
    by_cases hpb : i < s.pb
    · rw [hbefore i hpb] at hx
      exact hequal i x hi hpb hx
    · exact hequal' i x (by omega) (by omega) hx
  · rintro i x ⟨hi, hi'⟩ hx
    have hi : p.stop - (s.pd - s.pc) ≤ i := hi
    have hi' : i < p.stop - (s.pd - s.pc) + (s.pd - s.pc) := hi'
    exact hgreater i x (by omega) (by omega) hx

/-- What is left is to sort the two parts. -/
theorem Gathered.sortedBut {left right : Part} (hcmp : Consistent cmp)
    (h : Gathered cmp p v ys left right) : SortedBut (Ordered cmp) ys p [left, right] := by
  -- every element is at most the pivot or at least it, and knows on which side it is
  have hlow : ∀ i x, p.Has i → i < right.base → ys[i]? = some x → cmp x v ≤ 0 := by
    intro i x hi hi' hx
    by_cases hl : i < left.stop
    · exact Int.le_of_lt (h.less i x ⟨h.left_base ▸ hi.1, hl⟩ hx)
    · rcases h.equal i x (Nat.not_lt.1 hl) hi' hx with rfl | heq
      · exact Int.le_of_eq (hcmp.self x)
      · exact Int.le_of_eq heq
  have hhigh : ∀ i x, p.Has i → left.stop ≤ i → ys[i]? = some x → cmp v x ≤ 0 := by
    intro i x hi hi' hx
    by_cases hr : right.base ≤ i
    · exact Int.le_of_lt ((hcmp.flip v x).2 (h.greater i x ⟨hr, h.right_stop ▸ hi.2⟩ hx))
    · rcases h.equal i x hi' (Nat.not_le.1 hr) hx with rfl | heq
      · exact Int.le_of_eq (hcmp.self x)
      · exact Int.not_lt.1 fun hlt => by
          have hflip := (hcmp.flip x v).2 hlt
          omega
  intro i j x y hi hj hij hx hy hnot
  have hapart := h.apart
  by_cases hjl : left.stop ≤ j
  · by_cases hir : i < right.base
    · exact hcmp.trans x v y (hlow i x hi hir hx) (hhigh j y hj hjl hy)
    · have hstop := h.right_stop
      have hi₂ := hi.2
      have hj₂ := hj.2
      exact absurd ⟨⟨by omega, by omega⟩, ⟨by omega, by omega⟩⟩
        (hnot right (List.mem_cons_of_mem _ List.mem_cons_self))
  · have hbase := h.left_base
    have hi₁ := hi.1
    have hj₁ := hj.1
    exact absurd ⟨⟨by omega, by omega⟩, ⟨by omega, by omega⟩⟩ (hnot left List.mem_cons_self)

end Libc
end Cubiboot
