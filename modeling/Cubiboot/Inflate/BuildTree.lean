import Cubiboot.Inflate.Symbols

/-!
# Building a tree

`tinf_build_tree` accepts exactly the code lengths that a stream may bring, and the tree
holds their code.  For a single code it adds a second one, whose symbol is too large to be
accepted when it is decoded.

Three loops make a tree: the codes of each length are counted, the places of their
symbols are added up, and the symbols are put there in order. `OffsetsAt` is the
invariant of the second, which gives up where there are too many codes for their
lengths.

Results: `countCodes_counts`, `offsetTable_spec` and `fillSymbols_spec`, one for each
loop; `usable_kraft`, when the codes use up all bits; `holds_addCode`, the tree of a
single code; and `tinfBuildTree_spec`.
-/

namespace Cubiboot
namespace Inflate

open CanonicalCode Deflate

variable {t : TinfTree} {lens : List Nat}

/-- The symbols that the tree decodes and accepts are those of the code. -/
def Decodes (t : TinfTree) (lens : List Nat) : Prop :=
  ∃ lens', Holds t lens' ∧ ∀ s : Nat, (s : Int) ≤ t.maxSym →
    (HasCode lens' s ↔ HasCode lens s) ∧ (HasCode lens s → code lens' s = code lens s)

/-- A tree built of code lengths. -/
structure Built (t : TinfTree) (lens : List Nat) : Prop where
  usable : Usable lens
  maxSym : ∀ s, HasCode lens s → (s : Int) ≤ t.maxSym
  empty : t.maxSym = -1 ↔ used lens = 0
  decodes : used lens ≠ 0 → Decodes t lens

theorem usable_kraft (h : Usable lens) : kraft lens 15 ≤ 2 ^ 15 := by
  have hle : kraft lens 15 ≤ used lens * 2 ^ 14 := kraft_le_used lens 14
  rcases h with h | h | h
  · exact h.le
  · rw [h] at hle
    omega
  · rw [h.1] at hle
    omega

theorem countCodes_counts (t : TinfTree) (i : Nat) (lengths : List (Fin 16)) (l : Fin 16) :
    (countCodes t i lengths).counts l = t.counts l + count (lengths.map Fin.val) l := by
  induction lengths generalizing t i with
  | nil =>
      rw [countCodes, List.map_nil, count, List.count_nil]
      split <;> rfl
  | cons len lengths ih =>
      rw [countCodes, List.map_cons]
      have hcons : l ≠ 0 → count (len.val :: lengths.map Fin.val) l =
          count (lengths.map Fin.val) l + if len = l then 1 else 0 := by
        intro hl
        have hval : l.val ≠ 0 := fun h => hl (Fin.ext h)
        rw [count, count, if_neg hval, if_neg hval, List.count_cons]
        simp only [beq_iff_eq, Fin.val_inj]
      by_cases hl : l = 0
      · subst hl
        have hzero : ∀ ls, count ls (0 : Fin 16) = 0 := fun _ => rfl
        rw [hzero, Nat.add_zero]
        split
        · rename_i hlen
          rw [ih, hzero, Nat.add_zero]
          exact Function.update_of_ne (Ne.symm hlen) _ _
        · rw [ih, hzero, Nat.add_zero]
      · rw [hcons hl]
        split
        · rw [ih]
          by_cases hlen : len = l
          · subst hlen
            rw [if_pos rfl]
            show Function.update t.counts len (t.counts len + 1) len + _ = _
            rw [Function.update_self]
            omega
          · rw [if_neg hlen]
            show Function.update t.counts len (t.counts len + 1) l + _ = _
            rw [Function.update_of_ne (Ne.symm hlen), Nat.add_zero]
        · rename_i hlen
          rw [not_not] at hlen
          rw [ih, if_neg (fun h : len = l => hl (h.symm.trans hlen)), Nat.add_zero]

theorem hasCode_cons {l s : Nat} : HasCode (l :: lens) (s + 1) ↔ HasCode lens s :=
  ⟨fun ⟨k, h⟩ => ⟨k, h.get, h.pos⟩, fun ⟨k, h⟩ => ⟨k, h.get, h.pos⟩⟩

theorem hasCode_cons_zero {l : Nat} : HasCode (l :: lens) 0 ↔ l ≠ 0 :=
  ⟨fun ⟨_, h⟩ => Option.some.inj h.get ▸ h.pos, fun h => ⟨l, rfl, h⟩⟩

/-- `max_sym` is the last symbol that has a code, or what it was. -/
theorem countCodes_maxSym (t : TinfTree) (i : Nat) (lengths : List (Fin 16)) :
    ((countCodes t i lengths).maxSym = t.maxSym ∧ ∀ s, ¬HasCode (lengths.map Fin.val) s) ∨
      ∃ s, HasCode (lengths.map Fin.val) s ∧ (countCodes t i lengths).maxSym = i + s ∧
        ∀ u, HasCode (lengths.map Fin.val) u → u ≤ s := by
  induction lengths generalizing t i with
  | nil => exact .inl ⟨rfl, fun s ⟨_, h⟩ => by simpa using h.get⟩
  | cons len lengths ih =>
      rw [countCodes, List.map_cons]
      split
      · rename_i hlen
        have hval : len.val ≠ 0 := fun h => hlen (Fin.ext h)
        right
        rcases ih { t with
            maxSym := i, counts := Function.update t.counts len (t.counts len + 1) } (i + 1) with
          ⟨hmax, hnone⟩ | ⟨s, hs, hmax, hle⟩
        · refine ⟨0, hasCode_cons_zero.2 hval, hmax, fun u hu => ?_⟩
          cases u with
          | zero => exact Nat.le_refl 0
          | succ u => exact absurd (hasCode_cons.1 hu) (hnone u)
        · refine ⟨s + 1, hasCode_cons.2 hs, by rw [hmax]; omega, fun u hu => ?_⟩
          cases u with
          | zero => exact Nat.zero_le _
          | succ u => exact Nat.succ_le_succ (hle u (hasCode_cons.1 hu))
      · rename_i hlen
        rw [not_not] at hlen
        rcases ih t (i + 1) with ⟨hmax, hnone⟩ | ⟨s, hs, hmax, hle⟩
        · refine .inl ⟨hmax, fun s hs => ?_⟩
          cases s with
          | zero => exact hasCode_cons_zero.1 hs (congrArg Fin.val hlen)
          | succ s => exact hnone s (hasCode_cons.1 hs)
        · refine .inr ⟨s + 1, hasCode_cons.2 hs, by rw [hmax]; omega, fun u hu => ?_⟩
          cases u with
          | zero => exact Nat.zero_le _
          | succ u => exact Nat.succ_le_succ (hle u (hasCode_cons.1 hu))

/-- The offset table before the length `k`. -/
structure OffsetsAt (lens : List Nat) (k : Nat) (o : OffsetTable) : Prop where
  available : o.available + first lens k = 2 ^ k
  numCodes : o.numCodes = before lens k
  offs : ∀ j : Fin 16, j.val < k → o.offs j = before lens j

theorem OffsetsAt.next {k : Nat} {o : OffsetTable} (h : OffsetsAt lens k o) (hk : k < 16)
    (hfits : count lens k ≤ o.available) :
    OffsetsAt lens (k + 1) ⟨2 * (o.available - count lens k), o.numCodes + count lens k,
      Function.update o.offs ⟨k, hk⟩ o.numCodes⟩ where
  available := by
    have havail := h.available
    show 2 * (o.available - count lens k) + first lens (k + 1) = 2 ^ (k + 1)
    rw [first, Nat.pow_succ]
    omega
  numCodes := by
    show o.numCodes + count lens k = before lens (k + 1)
    rw [h.numCodes, before]
  offs := fun j hj => by
    show Function.update o.offs ⟨k, hk⟩ o.numCodes j = before lens j
    by_cases hjk : j = ⟨k, hk⟩
    · subst hjk
      rw [Function.update_self, h.numCodes]
    · rw [Function.update_of_ne hjk]
      exact h.offs j (lt_of_le_of_ne (Nat.lt_succ_iff.1 hj) fun h => hjk (Fin.ext h))

/-- The table is refused exactly where a length has too many codes. -/
theorem offsetTable_spec {counts : Fin 16 → Nat} (hcounts : ∀ l : Fin 16, counts l = count lens l)
    {k : Nat} (hk : k ≤ 16) {o : OffsetTable} (h : OffsetsAt lens k o) :
    (offsetTable counts ((List.finRange 16).drop k) o = none ∧
        ∃ l, l ≤ 15 ∧ 2 ^ l < first lens l + count lens l) ∨
      ∃ o', offsetTable counts ((List.finRange 16).drop k) o = some o' ∧
        OffsetsAt lens 16 o' := by
  induction hm : 16 - k generalizing k o with
  | zero =>
      obtain rfl : k = 16 := by omega
      exact .inr ⟨o, rfl, h⟩
  | succ m ih =>
      have hk' : k < 16 := by omega
      rw [finRange_drop hk', offsetTable, hcounts]
      have havail := h.available
      by_cases hmany : o.available < count lens k
      · rw [if_pos hmany]
        exact .inl ⟨rfl, k, by omega, by omega⟩
      · rw [if_neg hmany]
        exact ih hk' (h.next hk' (Nat.not_lt.1 hmany)) (by omega)

/-- The symbols before `i` have been filled in. -/
structure FilledTo (lens : List Nat) (i : Nat) (offs : Fin 16 → Nat) (symbols : Nat → Option Nat) :
    Prop where
  offs : ∀ l : Fin 16, l ≠ 0 → offs l = before lens l + (lens.take i).count l.val
  symbols : ∀ s l, s < i → HasLength lens s l → symbols (before lens l + rank lens s) = some s

theorem fillSymbols_spec (rest : List (Fin 16)) {i : Nat} {offs : Fin 16 → Nat}
    {symbols : Nat → Option Nat} (hshort : lens.length ≤ 288) (hlens : ∀ l ∈ lens, l < 16)
    (hrest : rest.map Fin.val = lens.drop i) (h : FilledTo lens i offs symbols) :
    ∃ symbols', fillSymbols i rest offs symbols = some symbols' ∧
      ∀ s l, HasLength lens s l → symbols' (before lens l + rank lens s) = some s := by
  induction rest generalizing i offs symbols with
  | nil =>
      refine ⟨symbols, rfl, fun s l hs => h.symbols s l ?_ hs⟩
      have hlen := (List.getElem?_eq_some_iff.1 hs.get).1
      have hnil : lens.length ≤ i := List.drop_eq_nil_iff.1 hrest.symm
      omega
  | cons len rest ih =>
      have hget : lens[i]? = some len.val := by
        rw [← List.head?_drop, ← hrest]
        rfl
      have htail : rest.map Fin.val = lens.drop (i + 1) := by
        rw [← List.tail_drop, ← hrest]
        rfl
      have htake : ∀ l : Fin 16, (lens.take (i + 1)).count l.val =
          (lens.take i).count l.val + if len = l then 1 else 0 := by
        intro l
        rw [List.take_add_one, hget, List.count_append, Option.toList_some, List.count_singleton]
        simp only [beq_iff_eq, Fin.val_inj]
      rw [fillSymbols]
      by_cases hlen : len ≠ 0
      · have hval : len.val ≠ 0 := fun hz => hlen (Fin.ext hz)
        have hlength : HasLength lens i len := ⟨hget, hval⟩
        have hrank : rank lens i = (lens.take i).count len.val := by rw [rank, hlength.getD]
        have hoffs : offs len = before lens len + rank lens i := by rw [h.offs len hlen, hrank]
        have hroom : offs len < 288 := by
          have hlt := hlength.rank_lt
          have hbefore := before_lt lens len.isLt
          rw [before_eq_used hlens] at hbefore
          have hused : used lens ≤ lens.length := List.countP_le_length
          omega
        rw [if_pos hlen, if_pos hroom]
        refine ih htail ⟨fun l hl => ?_, fun s l hs hsl => ?_⟩
        · by_cases hll : l = len
          · subst hll
            rw [Function.update_self, h.offs l hl, htake, if_pos rfl, Nat.add_assoc]
          · rw [Function.update_of_ne hll, h.offs l hl, htake, if_neg (Ne.symm hll), Nat.add_zero]
        · by_cases hsi : s = i
          · subst hsi
            obtain rfl : l = len.val := Option.some.inj (hsl.get.symm.trans hget)
            rw [← hoffs, Function.update_self]
          · have hne : before lens l + rank lens s ≠ offs len := by
              rw [hoffs]
              exact fun heq => hsi (position_inj hsl hlength heq)
            rw [Function.update_of_ne hne]
            exact h.symbols s l (lt_of_le_of_ne (Nat.lt_succ_iff.1 hs) hsi) hsl
      · rw [if_neg hlen]
        rw [not_not] at hlen
        refine ih htail ⟨fun l hl => ?_, fun s l hs hsl => ?_⟩
        · rw [h.offs l hl, htake, if_neg (fun heq : len = l => hl (heq.symm.trans hlen)),
            Nat.add_zero]
        · refine h.symbols s l (lt_of_le_of_ne (Nat.lt_succ_iff.1 hs) ?_) hsl
          rintro rfl
          have hl : l = len.val := Option.some.inj (hsl.get.symm.trans hget)
          exact hsl.pos (hl.trans (congrArg Fin.val hlen))

theorem used_pos_iff : used lens ≠ 0 ↔ ∃ s, HasCode lens s := by
  rw [used, ne_eq, List.countP_eq_zero]
  push Not
  constructor
  · rintro ⟨l, hl, hne⟩
    obtain ⟨s, hs⟩ := List.getElem?_of_mem hl
    exact ⟨s, l, hs, by simpa using hne⟩
  · rintro ⟨s, l, hs⟩
    exact ⟨l, List.mem_of_getElem? hs.get, by simpa using hs.pos⟩

/-- Where one symbol has a code, of one bit, there is no other. -/
theorem single_code {s u l : Nat} (hlens : ∀ l ∈ lens, l < 16) (hused : used lens = 1)
    (hone : count lens 1 = 1) (hs : HasLength lens s 1) (hu : HasLength lens u l) : u = s := by
  have hbefore := before_eq_used hlens
  have hl := hlens l (List.mem_of_getElem? hu.get)
  have hpos := hu.pos
  have hrank := hu.rank_lt
  have hl1 : l = 1 := by
    by_contra hne
    have h₂ := before_lt lens (show 1 < l by omega)
    have h₁₆ := before_lt lens hl
    omega
  subst hl1
  have hrank' := hs.rank_lt
  exact hu.rank_inj hs (by omega)

/-- The code of `s` and the one that is added to it. -/
def twoCodes (s : Nat) : List Nat :=
  List.replicate s 0 ++ [1, 1]

theorem twoCodes_get {s u l : Nat} (h : HasLength (twoCodes s) u l) :
    l = 1 ∧ (u = s ∨ u = s + 1) := by
  have hget := h.get
  rw [twoCodes] at hget
  rcases Nat.lt_or_ge u s with hlt | hge
  · rw [List.getElem?_append_left (by simpa using hlt), List.getElem?_replicate, if_pos hlt] at hget
    exact absurd (Option.some.inj hget).symm h.pos
  · obtain ⟨k, rfl⟩ := Nat.exists_eq_add_of_le hge
    rw [List.getElem?_append_right (by simp), List.length_replicate, Nat.add_sub_cancel_left]
      at hget
    match k with
    | 0 => exact ⟨(Option.some.inj hget).symm, .inl rfl⟩
    | 1 => exact ⟨(Option.some.inj hget).symm, .inr rfl⟩
    | k + 2 => cases hget

theorem twoCodes_zero (s : Nat) : HasLength (twoCodes s) s 1 ∧ rank (twoCodes s) s = 0 := by
  have hs : HasLength (twoCodes s) s 1 := by
    refine ⟨?_, by decide⟩
    rw [twoCodes, List.getElem?_append_right (by simp), List.length_replicate, Nat.sub_self]
    rfl
  refine ⟨hs, ?_⟩
  rw [rank, hs.getD, twoCodes, List.take_left' (by simp), List.count_replicate]
  rfl

theorem twoCodes_one (s : Nat) :
    HasLength (twoCodes s) (s + 1) 1 ∧ rank (twoCodes s) (s + 1) = 1 := by
  have hs : HasLength (twoCodes s) (s + 1) 1 := by
    refine ⟨?_, by decide⟩
    rw [twoCodes, List.getElem?_append_right (by simp), List.length_replicate,
      Nat.add_sub_cancel_left]
    rfl
  refine ⟨hs, ?_⟩
  have hsplit : twoCodes s = (List.replicate s 0 ++ [1]) ++ [1] := by
    rw [twoCodes, List.append_assoc]
    rfl
  rw [rank, hs.getD, hsplit, List.take_left' (by simp), List.count_append, List.count_replicate]
  rfl

theorem twoCodes_count (s l : Nat) : count (twoCodes s) l = if l = 1 then 2 else 0 := by
  rw [count, twoCodes, List.count_append, List.count_replicate]
  by_cases hl : l = 1
  · subst hl
    rfl
  · rw [if_neg hl]
    by_cases hz : l = 0
    · rw [if_pos hz]
    · rw [if_neg hz, List.count_cons_of_ne (Ne.symm hl), List.count_cons_of_ne (Ne.symm hl)]
      simpa using fun h : 0 = l => absurd h.symm hz

/-- The tree of a single code, with the code that is added to it. -/
theorem holds_addCode {s : Nat} (hlens : ∀ l ∈ lens, l < 16) (hused : used lens = 1)
    (hone : count lens 1 = 1) (hcounts : ∀ l : Fin 16, t.counts l = count lens l)
    (hsym : t.symbols 0 = some s) (hmax : t.maxSym = s) : Holds (addCode t) (twoCodes s) where
  short := by
    intro l hl
    rw [twoCodes] at hl
    simp only [List.mem_append, List.mem_replicate, List.mem_cons, List.not_mem_nil,
      or_false] at hl
    omega
  complete := by
    have hfirst : ∀ l, first (twoCodes s) (l + 1) = if l = 0 then 0 else 2 ^ (l + 1) := by
      intro l
      induction l with
      | zero => rw [first, first, twoCodes_count]; rfl
      | succ l ih =>
          rw [first, ih, twoCodes_count, if_neg (Nat.succ_ne_zero l)]
          by_cases hl : l = 0
          · subst hl
            rfl
          · rw [if_neg hl, if_neg (by omega), Nat.pow_succ 2 (l + 1)]
            omega
    rw [kraft_eq, hfirst, twoCodes_count]
    rfl
  counts := by
    intro l
    rw [twoCodes_count]
    by_cases hl : l = 1
    · subst hl
      show Function.update t.counts 1 2 1 = 2
      rw [Function.update_self]
    · have hval : l.val ≠ 1 := fun h => hl (Fin.ext h)
      rw [if_neg hval]
      show Function.update t.counts 1 2 l = 0
      rw [Function.update_of_ne hl, hcounts]
      have hbefore := before_eq_used hlens
      rcases Nat.eq_zero_or_pos l.val with hz | hpos
      · rw [hz]
        rfl
      · have h₂ := before_lt lens (show 1 < l.val by omega)
        have h₁₆ := before_lt lens l.isLt
        omega
  symbols := by
    intro u l hu
    obtain ⟨rfl, rfl | rfl⟩ := twoCodes_get hu
    · rw [(twoCodes_zero u).2]
      show Function.update t.symbols 1 (some (t.maxSym + 1).toNat) 0 = _
      rw [Function.update_of_ne (by decide), hsym]
    · rw [(twoCodes_one s).2]
      show Function.update t.symbols 1 (some (t.maxSym + 1).toNat) 1 = some (s + 1)
      rw [Function.update_self, hmax]
      rfl

/-- The code of a single symbol does not depend on the code that is added. -/
theorem twoCodes_code {s : Nat} (hone : count lens 1 = 1) (hs : HasLength lens s 1) :
    code (twoCodes s) s = code lens s := by
  have hrank := hs.rank_lt
  have hrank : rank lens s = 0 := by omega
  rw [(twoCodes_zero s).1.code, hs.code, (twoCodes_zero s).2, hrank]
  rfl

/--
`tinf_build_tree` accepts the code lengths that a stream may bring, and no others, and
builds the tree of their code.
-/
theorem tinfBuildTree_spec (lengths : List (Fin 16)) (hlen : lengths.length ≤ 288) :
    (tinfBuildTree lengths = some (.error .data) ∧ ¬Usable (lengths.map Fin.val)) ∨
      ∃ t, tinfBuildTree lengths = some (.ok t) ∧ Built t (lengths.map Fin.val) := by
  have hlens : ∀ l ∈ lengths.map Fin.val, l < 16 := by
    intro l hl
    obtain ⟨i, _, rfl⟩ := List.mem_map.1 hl
    exact i.isLt
  obtain ⟨lens, hlensEq⟩ : ∃ lens, lens = lengths.map Fin.val := ⟨_, rfl⟩
  rw [← hlensEq] at hlens ⊢
  obtain ⟨t, ht⟩ : ∃ t, t = countCodes ⟨fun _ => 0, fun _ => none, -1⟩ 0 lengths := ⟨_, rfl⟩
  have hcounts : ∀ l : Fin 16, t.counts l = count lens l := by
    intro l
    rw [ht, countCodes_counts, hlensEq]
    exact Nat.zero_add _
  have hmax := countCodes_maxSym ⟨fun _ => 0, fun _ => none, -1⟩ 0 lengths
  rw [← ht, ← hlensEq] at hmax
  rw [tinfBuildTree]
  simp only [← ht]
  have hstart : OffsetsAt lens 0 ⟨1, 0, fun _ => 0⟩ :=
    ⟨rfl, rfl, fun j hj => absurd hj (Nat.not_lt_zero _)⟩
  rcases offsetTable_spec hcounts (Nat.zero_le _) hstart with ⟨hnone, l, hl, hmany⟩ | ⟨o, ho, hat⟩
  · rw [List.drop_zero] at hnone
    rw [hnone]
    exact .inl ⟨rfl, fun h => absurd (kraft_fits (usable_kraft h) hl) (Nat.not_le.2 hmany)⟩
  · rw [List.drop_zero] at ho
    simp only [ho]
    have hnum : o.numCodes = used lens := hat.numCodes.trans (before_eq_used hlens)
    have havail : o.available + 2 * kraft lens 15 = 2 ^ 16 := by
      rw [kraft_eq]
      exact hat.available
    have hkraft : kraft lens 15 ≤ used lens * 2 ^ 14 := kraft_le_used lens 14
    have hone : t.counts 1 = count lens 1 := hcounts 1
    rw [hnum, hone]
    by_cases hbad : (1 < used lens ∧ 0 < o.available) ∨ (used lens = 1 ∧ count lens 1 ≠ 1)
    · rw [if_pos hbad]
      refine .inl ⟨rfl, ?_⟩
      rintro (hcomplete | hzero | ⟨hone, hcount⟩)
      · rcases hbad with ⟨_, hpos⟩ | ⟨hone, _⟩
        · omega
        · rw [hone] at hkraft
          omega
      · omega
      · rcases hbad with ⟨hmany, _⟩ | ⟨_, hne⟩
        · omega
        · exact hne hcount
    · rw [if_neg hbad]
      have hfilled : FilledTo lens 0 o.offs t.symbols :=
        ⟨fun l _ => hat.offs l l.isLt, fun s l hs => absurd hs (Nat.not_lt_zero _)⟩
      obtain ⟨symbols, hfill, hsymbols⟩ := fillSymbols_spec lengths
        (by rw [hlensEq, List.length_map]; exact hlen) hlens (by rw [hlensEq]; rfl) hfilled
      simp only [hfill]
      refine .inr ⟨_, rfl, ?_⟩
      by_cases hused : used lens = 1
      · rw [if_pos hused]
        have hcount : count lens 1 = 1 := by
          by_contra hne
          exact hbad (.inr ⟨hused, hne⟩)
        obtain ⟨s, hs, hrank⟩ := exists_rank lens (l := 1) (r := 0) (by decide) (by omega)
        have honly : ∀ u, HasCode lens u ↔ u = s := fun u =>
          ⟨fun ⟨_, hu⟩ => single_code hlens hused hcount hs hu, fun h => h ▸ ⟨1, hs⟩⟩
        have hmaxSym : t.maxSym = s := by
          rcases hmax with ⟨_, hnone⟩ | ⟨u, hu, hmax, _⟩
          · exact absurd ⟨1, hs⟩ (hnone s)
          · rw [hmax, (honly u).1 hu]
            exact Int.zero_add _
        have hsym : symbols 0 = some s := by
          have h := hsymbols s 1 hs
          rw [hrank] at h
          exact h
        refine ⟨.inr (.inr ⟨hused, hcount⟩), fun u hu => ?_, ?_, fun _ => ⟨twoCodes s, ?_, ?_⟩⟩
        · show (u : Int) ≤ t.maxSym
          rw [(honly u).1 hu, hmaxSym]
        · show t.maxSym = -1 ↔ used lens = 0
          omega
        · exact holds_addCode hlens hused hcount hcounts hsym hmaxSym
        · intro u hu
          have hu : (u : Int) ≤ t.maxSym := hu
          constructor
          · rw [honly]
            constructor
            · rintro ⟨l, hl⟩
              rcases (twoCodes_get hl).2 with h | h <;> omega
            · rintro rfl
              exact ⟨1, (twoCodes_zero u).1⟩
          · intro h
            rw [(honly u).1 h]
            exact twoCodes_code hcount hs
      · rw [if_neg hused]
        have hcomplete : used lens ≠ 0 → kraft lens 15 = 2 ^ 15 := by
          intro hne
          have havail0 : ¬0 < o.available := fun hpos => hbad (.inl ⟨by omega, hpos⟩)
          omega
        refine ⟨?_, fun u hu => ?_, ?_, fun hne => ⟨lens, ⟨?_, hcomplete hne, hcounts, hsymbols⟩,
          fun _ _ => ⟨Iff.rfl, fun _ => rfl⟩⟩⟩
        · by_cases hne : used lens = 0
          · exact .inr (.inl hne)
          · exact .inl (hcomplete hne)
        · show (u : Int) ≤ t.maxSym
          rcases hmax with ⟨_, hnone⟩ | ⟨s, _, hmax, hle⟩
          · exact absurd hu (hnone u)
          · have := hle u hu
            omega
        · show t.maxSym = -1 ↔ used lens = 0
          rcases hmax with ⟨hmax, hnone⟩ | ⟨s, hs, hmax, _⟩
          · refine ⟨fun _ => ?_, fun _ => hmax⟩
            by_contra hne
            obtain ⟨s, hs⟩ := used_pos_iff.1 hne
            exact hnone s hs
          · have hne := used_pos_iff.2 ⟨s, hs⟩
            omega
        · exact fun l hl => Nat.lt_succ_iff.1 (hlens l hl)

end Inflate
end Cubiboot
