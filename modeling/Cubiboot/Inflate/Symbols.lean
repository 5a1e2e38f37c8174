import Cubiboot.Foundations.Deflate
import Cubiboot.Inflate.BitReader

/-!
# Decoding symbols

A tree holds a canonical code when its counts are those of the code and its symbols are
sorted by it.  `tinf_decode_symbol` then reads the code of some symbol and returns that
symbol; the code is complete, so it ends within fifteen bits whatever the stream has.

Results: `tinfDecodeSymbol_spec`, that a symbol which is returned is the one of the bits
that have been read; `tinfDecodeSymbol_eq`, that the code of a symbol is read back.
-/

namespace Cubiboot
namespace Inflate

open BitStream CanonicalCode Deflate

variable {t : TinfTree} {lens : List Nat} {d : TinfData}

/-- The tree holds the code with these lengths, which is complete. -/
structure Holds (t : TinfTree) (lens : List Nat) : Prop where
  short : ∀ l ∈ lens, l ≤ 15
  complete : kraft lens 15 = 2 ^ 15
  counts : ∀ l : Fin 16, t.counts l = count lens l
  symbols : ∀ s l, HasLength lens s l → t.symbols (before lens l + rank lens s) = some s

theorem Holds.length_le (h : Holds t lens) {s l : Nat} (hs : HasLength lens s l) : l ≤ 15 :=
  h.short l (List.mem_of_getElem? hs.get)

/-- No code of a tree is the beginning of another. -/
theorem Holds.code_inj (h : Holds t lens) {s u : Nat} {bits : List Bool} (hs : HasCode lens s)
    (hu : HasCode lens u) (hsb : code lens s <+: bits) (hub : code lens u <+: bits) : s = u := by
  obtain ⟨k, hk⟩ := hs
  obtain ⟨l, hl⟩ := hu
  exact code_append_inj h.complete.le hk (h.length_le hk) hl (h.length_le hl) hsb hub

/-- The levels that are left after the first ones. -/
theorem finRange_drop {k : Nat} (hk : k < 16) :
    (List.finRange 16).drop k = ⟨k, hk⟩ :: (List.finRange 16).drop (k + 1) := by
  rw [List.drop_eq_getElem_cons (by simpa using hk)]
  simp

/-- One bit more of a code, the most significant first. -/
theorem toBits_reverse_succ (k c : Nat) (b : Nat) (hb : b < 2) :
    (toBits (k + 1) (2 * c + b)).reverse = (toBits k c).reverse ++ toBits 1 b := by
  have hmod : (2 * c + b) % 2 = b := by omega
  have hdiv : (2 * c + b) / 2 = c := by omega
  rw [toBits, hmod, hdiv, List.reverse_cons]
  simp [toBits, Nat.mod_eq_of_lt hb]

/-- The levels from `k + 1` on, when the bits read so far are no shorter code. -/
theorem tinfDecodeLevels_spec (ht : Holds t lens) (offs : Nat) {k c : Nat} (hk : k ≤ 15)
    (h : Ready d)
    (hc : c = offs + (first lens k + count lens k)) (hlt : c < 2 ^ k) :
    ∃ s d' w, tinfDecodeLevels t ((List.finRange 16).drop (k + 1)) (before lens (k + 1)) offs d =
        some (s, d') ∧
      HasCode lens s ∧ code lens s = (toBits k c).reverse ++ w ∧ w ≠ [] ∧ Reads d w d' := by
  induction hm : 15 - k generalizing k c offs d with
  | zero =>
      -- all codes have been passed, and there are as many as strings of this length
      obtain rfl : k = 15 := by omega
      have hcomplete := ht.complete
      rw [kraft_eq] at hcomplete
      omega
  | succ m ih =>
      have hk' : k + 1 < 16 := by omega
      obtain ⟨hbit, hreads⟩ := tinfGetbits_spec h 1
      have hbit : (tinfGetbits d 1).1 < 2 := hbit
      rw [finRange_drop hk', tinfDecodeLevels]
      simp only [ht.counts ⟨k + 1, hk'⟩]
      have hvalue : 2 * c + (tinfGetbits d 1).1 =
          first lens (k + 1) + (2 * offs + (tinfGetbits d 1).1) := by
        rw [first]
        omega
      have hread := toBits_reverse_succ k c (tinfGetbits d 1).1 hbit
      by_cases hfound : 2 * offs + (tinfGetbits d 1).1 < count lens (k + 1)
      · rw [if_pos hfound]
        obtain ⟨s, hs, hrank⟩ := exists_rank lens (Nat.succ_ne_zero k) hfound
        have hsym := ht.symbols s (k + 1) hs
        rw [hrank] at hsym
        rw [hsym]
        refine ⟨s, _, toBits 1 (tinfGetbits d 1).1, rfl, ⟨k + 1, hs⟩, ?_, List.cons_ne_nil _ _,
          hreads⟩
        rw [hs.code, hrank, ← hvalue, hread]
      · rw [if_neg hfound]
        have hlt' : 2 * c + (tinfGetbits d 1).1 < 2 ^ (k + 1) := by
          rw [Nat.pow_succ]
          omega
        obtain ⟨s, d', w, hdec, hcode, hbits, _, hreads'⟩ := ih
          (2 * offs + (tinfGetbits d 1).1 - count lens (k + 1)) (by omega)
          hreads.ready (by omega) hlt' (by omega)
        refine ⟨s, d', toBits 1 (tinfGetbits d 1).1 ++ w, hdec, hcode, ?_, List.cons_ne_nil _ _,
          hreads.trans hreads'⟩
        rw [hbits, hread, List.append_assoc]

/-- `tinf_decode_symbol` reads the code of the symbol that it returns. -/
theorem tinfDecodeSymbol_spec (ht : Holds t lens) (h : Ready d) :
    ∃ s d', tinfDecodeSymbol d t = some (s, d') ∧ HasCode lens s ∧ code lens s ≠ [] ∧
      Reads d (code lens s) d' := by
  obtain ⟨s, d', w, hdec, hcode, hbits, hne, hreads⟩ :=
    tinfDecodeLevels_spec ht 0 (k := 0) (c := 0) (Nat.zero_le _) h rfl (by decide)
  have hw : code lens s = w := hbits
  refine ⟨s, d', ?_, hcode, hw ▸ hne, hw ▸ hreads⟩
  rw [tinfDecodeSymbol, ← List.drop_one]
  exact hdec

/-- A code that the stream has is read from it. -/
theorem tinfDecodeSymbol_eq (ht : Holds t lens) (h : Ready d) {s : Nat} {rest : List Bool}
    (hs : HasCode lens s) (hbits : d.bits = code lens s ++ rest) :
    ∃ d', tinfDecodeSymbol d t = some (s, d') ∧ Ready d' ∧ d'.bits = rest ∧
      d'.overflow = d.overflow ∧ d'.dest = d.dest ∧ d'.destLen = d.destLen := by
  obtain ⟨u, d', hdec, hu, _, hreads⟩ := tinfDecodeSymbol_spec ht h
  have hpre : code lens s <+: d.bits := ⟨rest, hbits.symm⟩
  obtain ⟨bits, hub, hsb⟩ := hreads.common hpre
  obtain rfl : s = u := ht.code_inj hs hu hsb hub
  obtain ⟨htook, ho⟩ := hreads.of_prefix hpre
  rw [hbits] at htook
  exact ⟨d', hdec, hreads.ready, (List.append_cancel_left htook).symm, ho, hreads.dest,
    hreads.destLen⟩

end Inflate
end Cubiboot
