import Cubiboot.Inflate.Items

/-!
# The codes that a block brings

`tinf_decode_trees` reads a valid header and builds the trees of its codes, and nothing
else: what it accepts is a valid header, and valid headers are read back.

A header has the numbers of the codes, the lengths of the codes of a third code, and
with these the lengths of the two that the block uses, with repetitions.

Results: `readLengthCodes_spec`, the lengths of the third code; `lengthRun_spec` and
`readLengths_spec`, the repetitions and the loop over them; `buildTrees_spec`, the
trees; `tinfDecodeTrees_spec`, what has been read of any header that is accepted; and
`tinfDecodeTrees_eq`, that a header which was written is accepted as what it is.
-/

namespace Cubiboot
namespace Inflate

open BitStream CanonicalCode Deflate

variable {d d' : TinfData}

/-- `lengths` after these have been read. -/
def placed (sent : List (Fin 8)) : List (Fin 16) :=
  (List.range 19).map fun s =>
    (sent[lengthOrder.idxOf s]?).elim (codeLength 0) fun n => codeLength n

theorem placed_nil : placed [] = List.replicate 19 0 := by
  decide

theorem placed_val (h : Header) : (placed h.sent).map Fin.val = h.lengthCodes := by
  rw [placed, List.map_map, Header.lengthCodes]
  refine List.map_congr_left fun s _ => ?_
  show ((h.sent[lengthOrder.idxOf s]?).elim (codeLength 0) fun n => codeLength n).val = _
  cases h.sent[lengthOrder.idxOf s]? with
  | none => rfl
  | some n =>
      have hn : n.val < 16 := by omega
      exact Nat.mod_eq_of_lt hn

/-- The next one goes to its place. -/
theorem placed_snoc {sent : List (Fin 8)} (n : Fin 8) (hlen : sent.length < lengthOrder.length) :
    (placed sent).set lengthOrder[sent.length] (Fin.ofNat 16 n) = placed (sent ++ [n]) := by
  have hnodup : lengthOrder.Nodup := by decide
  refine List.ext_getElem (by simp [placed]) fun s hs hs' => ?_
  have hs19 : s < 19 := by simpa [placed] using hs'
  rw [List.getElem_set]
  simp only [placed, List.getElem_map, List.getElem_range]
  by_cases heq : lengthOrder[sent.length] = s
  · rw [if_pos heq, ← heq, hnodup.idxOf_getElem, List.getElem?_concat_length]
    rfl
  · rw [if_neg heq]
    have hmem : s ∈ lengthOrder := by
      have hall : ∀ s < 19, s ∈ lengthOrder := by decide
      exact hall s hs19
    have hne : lengthOrder.idxOf s ≠ sent.length := by
      intro h
      apply heq
      simp only [← h, List.getElem_idxOf]
    rcases Nat.lt_or_gt_of_ne hne with hlt | hgt
    · rw [List.getElem?_append_left hlt]
    · rw [List.getElem?_eq_none hgt.le, List.getElem?_eq_none]
      rw [List.length_append, List.length_singleton]
      exact hgt

theorem clcidx_drop {k m : Nat} (hk : k < lengthOrder.length) :
    (clcidx.drop k).take (m + 1) = lengthOrder[k] :: (clcidx.drop (k + 1)).take m := by
  have horder : clcidx = lengthOrder := rfl
  rw [horder, List.drop_eq_getElem_cons hk, List.take_succ_cons]

/-- The code lengths of code lengths are read. -/
theorem readLengthCodes_spec (h : Ready d) (sent : List (Fin 8)) {m : Nat}
    (hm : sent.length + m ≤ 19) :
    ∃ more, more.length = m ∧
      (readLengthCodes ((clcidx.drop sent.length).take m) (placed sent) d).1 =
        placed (sent ++ more) ∧
      Reads d (more.flatMap fun n => toBits 3 n.val)
        (readLengthCodes ((clcidx.drop sent.length).take m) (placed sent) d).2 := by
  induction m generalizing d sent with
  | zero => exact ⟨[], rfl, by simp [readLengthCodes], .refl h⟩
  | succ m ih =>
      have hlen : sent.length < lengthOrder.length := by
        show sent.length < 19
        omega
      obtain ⟨hlt, hreads⟩ := tinfGetbits_spec h 3
      obtain ⟨n, hn⟩ : ∃ n : Fin 8, n.val = (tinfGetbits d 3).1 := ⟨⟨_, hlt⟩, rfl⟩
      rw [clcidx_drop hlen, readLengthCodes, ← hn, placed_snoc n hlen]
      have hsucc : (sent ++ [n]).length = sent.length + 1 := by simp
      obtain ⟨more, hmore, hplaced, hreads'⟩ := ih hreads.ready (sent ++ [n]) (by omega)
      rw [hsucc] at hplaced hreads'
      refine ⟨n :: more, by simp [hmore], ?_, ?_⟩
      · rw [hplaced, List.append_assoc]
        rfl
      · rw [List.flatMap_cons, hn]
        exact hreads.trans hreads'

theorem readLengthCodes_at (h : Ready d) (hover : d.overflow = false) (sent : List (Fin 8))
    (more : List (Fin 8)) {rest : List Bool} (hm : sent.length + more.length ≤ 19)
    (hbits : d.bits = (more.flatMap fun n => toBits 3 n.val) ++ rest) :
    (readLengthCodes ((clcidx.drop sent.length).take more.length) (placed sent) d).1 =
        placed (sent ++ more) ∧
      At d (readLengthCodes ((clcidx.drop sent.length).take more.length) (placed sent) d).2 rest
        d.dest := by
  induction more generalizing d sent with
  | nil => exact ⟨by simp [readLengthCodes], h, hbits, hover, rfl, rfl⟩
  | cons n more ih =>
      rw [List.length_cons] at hm
      have hlen : sent.length < lengthOrder.length := by
        show sent.length < 19
        omega
      rw [List.flatMap_cons, List.append_assoc] at hbits
      obtain ⟨hval, hrest, ho⟩ := tinfGetbits_eq h hbits n.isLt
      obtain ⟨_, hreads⟩ := tinfGetbits_spec h 3
      rw [List.length_cons, clcidx_drop hlen, readLengthCodes, hval, placed_snoc n hlen]
      have hsucc : (sent ++ [n]).length = sent.length + 1 := by simp
      obtain ⟨hplaced, hat⟩ := ih hreads.ready (ho.trans hover) (sent ++ [n]) (by omega) hrest
      rw [hsucc] at hplaced hat
      refine ⟨?_, hat.ready, hat.bits, hat.overflow, ?_, ?_⟩
      · rw [hplaced, List.append_assoc]
        rfl
      · rw [hat.dest, hreads.dest]
      · rw [hat.destLen, hreads.destLen]

section Lengths

variable {lt : TinfTree} {lens : List Nat} {num : Nat} {lengths : List (Fin 16)}

/-- The bits that stand for code lengths. -/
def lengthsBits (lens : List Nat) (items : List LengthItem) : List Bool :=
  items.flatMap fun i => code lens i.symbol ++ i.extraBits

theorem map_replicate (lengths : List (Fin 16)) (n : Nat) (len : Fin 16) :
    (lengths ++ List.replicate n len).map Fin.val =
      lengths.map Fin.val ++ List.replicate n len.val := by
  rw [List.map_append, List.map_replicate]

/-- The `switch` over a symbol is what the symbol and its extra bits stand for. -/
theorem lengthRun_spec (lengths : List (Fin 16)) (h : Ready d) {sym : Nat} (hsym : sym < 19) :
    ∃ r, lengthRun d lengths sym = some r ∧ ∀ len n d', r = .ok (len, n, d') →
      0 < n ∧ ∃ item : LengthItem, item.symbol = sym ∧
        item.expand (lengths.map Fin.val) = some ((lengths ++ List.replicate n len).map Fin.val) ∧
        Reads d item.extraBits d' := by
  rw [lengthRun]
  by_cases h16 : sym = 16
  · rw [if_pos h16]
    cases hlast : lengths.getLast? with
    | none => exact ⟨_, rfl, fun _ _ _ hr => by cases hr⟩
    | some len =>
        obtain ⟨v, hv, hval, hreads⟩ := tinfGetbitsBase_spec h 2 3
        refine ⟨_, rfl, fun len' n d' hr => ?_⟩
        obtain ⟨rfl, hpair⟩ := Prod.mk.inj (Except.ok.inj hr)
        rw [hpair] at hval hreads
        obtain rfl : n = _ := hval
        refine ⟨by omega, .again ⟨v, hv⟩, h16.symm, ?_, hreads⟩
        rw [LengthItem.expand, List.getLast?_map, hlast, map_replicate]
        rfl
  rw [if_neg h16]
  by_cases h17 : sym = 17
  · rw [if_pos h17]
    obtain ⟨v, hv, hval, hreads⟩ := tinfGetbitsBase_spec h 3 3
    refine ⟨_, rfl, fun len' n d' hr => ?_⟩
    obtain ⟨rfl, hpair⟩ := Prod.mk.inj (Except.ok.inj hr)
    rw [hpair] at hval hreads
    obtain rfl : n = _ := hval
    refine ⟨by omega, .zeros ⟨v, hv⟩, h17.symm, ?_, hreads⟩
    rw [LengthItem.expand, map_replicate]
    rfl
  rw [if_neg h17]
  by_cases h18 : sym = 18
  · rw [if_pos h18]
    obtain ⟨v, hv, hval, hreads⟩ := tinfGetbitsBase_spec h 7 11
    refine ⟨_, rfl, fun len' n d' hr => ?_⟩
    obtain ⟨rfl, hpair⟩ := Prod.mk.inj (Except.ok.inj hr)
    rw [hpair] at hval hreads
    obtain rfl : n = _ := hval
    refine ⟨by omega, .moreZeros ⟨v, hv⟩, h18.symm, ?_, hreads⟩
    rw [LengthItem.expand, map_replicate]
    rfl
  rw [if_neg h18]
  have hlt : sym < 16 := by omega
  rw [dif_pos hlt]
  refine ⟨_, rfl, fun len n d' hr => ?_⟩
  obtain ⟨rfl, hpair⟩ := Prod.mk.inj (Except.ok.inj hr)
  obtain ⟨rfl, rfl⟩ := Prod.mk.inj hpair
  refine ⟨Nat.one_pos, .length ⟨sym, hlt⟩, rfl, ?_, .refl h⟩
  rw [LengthItem.expand, map_replicate]
  rfl

/-- Code lengths have been read. -/
structure LengthsRead (lens : List Nat) (num : Nat) (d d' : TinfData) (lengths : List (Fin 16))
    (items : List LengthItem) : Prop where
  codes : ∀ i ∈ items, HasCode lens i.symbol
  expand : items.foldlM LengthItem.expand [] = some (lengths.map Fin.val)
  reads : Reads d (lengthsBits lens items) d'
  count : lengths.length ≤ num

theorem LengthsRead.snoc {d'' : TinfData} {items : List LengthItem} {item : LengthItem}
    {lengths' : List (Fin 16)} (h : LengthsRead lens num d d' lengths items)
    (hcode : HasCode lens item.symbol)
    (hexpand : item.expand (lengths.map Fin.val) = some (lengths'.map Fin.val))
    (hreads : Reads d' (code lens item.symbol ++ item.extraBits) d'')
    (hcount : lengths'.length ≤ num) : LengthsRead lens num d d'' lengths' (items ++ [item]) := by
  refine ⟨fun i hi => ?_, ?_, ?_, hcount⟩
  · rcases List.mem_append.1 hi with hi | hi
    · exact h.codes i hi
    · exact List.mem_singleton.1 hi ▸ hcode
  · rw [List.foldlM_append, h.expand]
    simp [hexpand]
  · rw [lengthsBits, List.flatMap_append, List.flatMap_singleton]
    exact h.reads.trans hreads

/-- The code lengths that are accepted are those that the stream says. -/
theorem readLengths_spec (num : Nat) (hlt : Decodes lt lens) (hlen : lens.length = 19)
    (h : Ready d) :
    ∃ r, readLengths lt num d = some r ∧ ∀ d' lengths, r = .ok (d', lengths) →
      lengths.length = num ∧ ∃ items, LengthsRead lens num d d' lengths items := by
  rw [readLengths]
  refine FuelLoop.run_meets
    (fun s : TinfData × List (Fin 16) => ∃ items, LengthsRead lens num d s.1 s.2 items)
    (fun r : Except TinfError (TinfData × List (Fin 16)) =>
      ∀ d' lengths, r = .ok (d', lengths) →
        lengths.length = num ∧ ∃ items, LengthsRead lens num d d' lengths items)
    (fun s => num - s.2.length) ?_ ⟨[], ?_⟩ (Nat.lt_succ_of_le (Nat.sub_le _ _))
  · rintro ⟨s, lengths⟩ ⟨items, hitems⟩
    rw [lengthStep]
    by_cases hmore : lengths.length < num
    · simp only [if_pos hmore]
      obtain ⟨sym, d₁, w, hdec, _, hreads, hsym⟩ := hlt.spec hitems.reads.ready
      simp only [hdec]
      by_cases hbad : lt.maxSym < sym
      · rw [if_pos hbad]
        exact .inl ⟨_, rfl, fun _ _ hr => by cases hr⟩
      rw [if_neg hbad]
      obtain ⟨hcode, hw⟩ := hsym (not_lt.1 hbad)
      have hsym19 : sym < 19 := by
        obtain ⟨l, hl⟩ := hcode
        exact hlen ▸ (List.getElem?_eq_some_iff.1 hl.get).1
      obtain ⟨r, hr, hmeets⟩ := lengthRun_spec lengths hreads.ready hsym19
      simp only [hr]
      match r with
      | .error e => exact .inl ⟨_, rfl, fun _ _ hr => by cases hr⟩
      | .ok (len, n, d₂) =>
          obtain ⟨hpos, item, hitem, hexpand, hextra⟩ := hmeets len n d₂ rfl
          by_cases hover : num - lengths.length < n
          · simp only [if_pos hover]
            exact .inl ⟨_, rfl, fun _ _ hr => by cases hr⟩
          · simp only [if_neg hover]
            subst hitem
            have hcount : (lengths ++ List.replicate n len).length = lengths.length + n := by simp
            refine .inr ⟨_, rfl, ⟨items ++ [item], hitems.snoc hcode hexpand ?_ ?_⟩, ?_⟩
            · rw [hw]
              exact hreads.trans hextra
            · show (lengths ++ List.replicate n len).length ≤ num
              omega
            · show num - (lengths ++ List.replicate n len).length < num - lengths.length
              omega
    · simp only [if_neg hmore]
      refine .inl ⟨_, rfl, fun d' lengths' hr => ?_⟩
      obtain ⟨rfl, rfl⟩ := Prod.mk.inj (Except.ok.inj hr)
      have hcount : lengths.length ≤ num := hitems.count
      exact ⟨by omega, items, hitems⟩
  · exact ⟨fun i hi => absurd hi List.not_mem_nil, rfl, .refl h, Nat.zero_le _⟩

theorem lengthExpand_lt {item : LengthItem} {out out' : List Nat}
    (h : item.expand out = some out') : out.length < out'.length := by
  cases item with
  | length n =>
      obtain rfl := Option.some.inj h
      simp
  | again extra =>
      obtain ⟨n, _, rfl⟩ := Option.map_eq_some_iff.1 h
      rw [List.length_append, List.length_replicate]
      omega
  | zeros extra =>
      obtain rfl := Option.some.inj h
      rw [List.length_append, List.length_replicate]
      omega
  | moreZeros extra =>
      obtain rfl := Option.some.inj h
      rw [List.length_append, List.length_replicate]
      omega

theorem lengthsExpand_le {items : List LengthItem} {out out' : List Nat}
    (h : items.foldlM LengthItem.expand out = some out') :
    out.length + items.length ≤ out'.length := by
  induction items generalizing out with
  | nil => exact (congrArg List.length (Option.some.inj h)).le
  | cons item items ih =>
      rw [List.foldlM_cons] at h
      obtain ⟨mid, hmid, hrest⟩ := Option.bind_eq_some_iff.1 h
      have hlt := lengthExpand_lt hmid
      have hle := ih hrest
      rw [List.length_cons]
      omega

/-- A symbol of code lengths is read back. -/
theorem lengthRun_at (h : Ready d) (hover : d.overflow = false) {item : LengthItem}
    {out : List Nat} {rest : List Bool} (hbits : d.bits = item.extraBits ++ rest)
    (hexpand : item.expand (lengths.map Fin.val) = some out) :
    ∃ len n d', lengthRun d lengths item.symbol = some (.ok (len, n, d')) ∧
      (lengths ++ List.replicate n len).map Fin.val = out ∧ At d d' rest d.dest := by
  cases item with
  | length n =>
      have hne : n.val ≠ 16 ∧ n.val ≠ 17 ∧ n.val ≠ 18 := by omega
      refine ⟨n, 1, d, ?_, ?_, h, hbits, hover, rfl, rfl⟩
      · rw [lengthRun, LengthItem.symbol, if_neg hne.1, if_neg hne.2.1, if_neg hne.2.2,
          dif_pos n.isLt]
      · rw [map_replicate]
        exact Option.some.inj hexpand
  | again extra =>
      obtain ⟨hval, hat⟩ :=
        tinfGetbitsBase_at h hover 3 (show extra.val < 2 ^ 2 from extra.isLt) hbits
      rw [LengthItem.expand, List.getLast?_map, Option.map_map] at hexpand
      obtain ⟨len, hlast, rfl⟩ := Option.map_eq_some_iff.1 hexpand
      refine ⟨len, (tinfGetbitsBase d 2 3).1, _, ?_, ?_, hat⟩
      · rw [lengthRun, LengthItem.symbol, if_pos rfl, hlast]
      · rw [hval, map_replicate]
        rfl
  | zeros extra =>
      obtain ⟨hval, hat⟩ :=
        tinfGetbitsBase_at h hover 3 (show extra.val < 2 ^ 3 from extra.isLt) hbits
      refine ⟨0, (tinfGetbitsBase d 3 3).1, _, ?_, ?_, hat⟩
      · rw [lengthRun, LengthItem.symbol, if_neg (by decide), if_pos rfl]
      · rw [hval, map_replicate]
        exact Option.some.inj hexpand
  | moreZeros extra =>
      obtain ⟨hval, hat⟩ :=
        tinfGetbitsBase_at h hover 11 (show extra.val < 2 ^ 7 from extra.isLt) hbits
      refine ⟨0, (tinfGetbitsBase d 7 11).1, _, ?_, ?_, hat⟩
      · rw [lengthRun, LengthItem.symbol, if_neg (by decide), if_neg (by decide), if_pos rfl]
      · rw [hval, map_replicate]
        exact Option.some.inj hexpand

/-- Code lengths that have been written are read back. -/
theorem lengthsRun_at (lengths : List (Fin 16)) (num fuel : Nat) (hlt : Decodes lt lens)
    (hmax : ∀ s, HasCode lens s → (s : Int) ≤ lt.maxSym)
    {items : List LengthItem} {out : List Nat} {rest : List Bool} (h : Ready d)
    (hover : d.overflow = false) (hcodes : ∀ i ∈ items, HasCode lens i.symbol)
    (hexpand : items.foldlM LengthItem.expand (lengths.map Fin.val) = some out)
    (hbits : d.bits = lengthsBits lens items ++ rest) (hnum : out.length = num)
    (hfuel : items.length < fuel) :
    ∃ d' lengths', FuelLoop.run (lengthStep lt num) fuel (d, lengths) = some (.ok (d', lengths')) ∧
      lengths'.map Fin.val = out ∧ At d d' rest d.dest := by
  induction items generalizing d lengths fuel with
  | nil =>
      obtain ⟨fuel, rfl⟩ : ∃ n, fuel = n + 1 := ⟨fuel - 1, by omega⟩
      have hout : lengths.map Fin.val = out := Option.some.inj hexpand
      have hdone : ¬lengths.length < num := by
        rw [← hnum, ← hout, List.length_map]
        exact Nat.lt_irrefl _
      refine ⟨d, lengths, ?_, hout, h, hbits, hover, rfl, rfl⟩
      rw [FuelLoop.run, lengthStep, if_neg hdone]
  | cons item items ih =>
      obtain ⟨fuel, rfl⟩ : ∃ n, fuel = n + 1 := ⟨fuel - 1, by omega⟩
      have hcode := hcodes item List.mem_cons_self
      rw [List.foldlM_cons] at hexpand
      obtain ⟨mid, hmid, hrest⟩ := Option.bind_eq_some_iff.1 hexpand
      rw [lengthsBits, List.flatMap_cons, List.append_assoc, List.append_assoc, ← lengthsBits]
        at hbits
      obtain ⟨d₁, hdec, hat₁⟩ := tinfDecode_at hlt h hover hcode (hmax _ hcode) hbits
      obtain ⟨len, n, d₂, hrun, hmap, hat₂⟩ :=
        lengthRun_at hat₁.ready hat₁.overflow hat₁.bits hmid
      have hmidLe := lengthsExpand_le hrest
      have hlenMid : lengths.length + n = mid.length := by
        rw [← hmap, List.length_map, List.length_append, List.length_replicate]
      have hlt := lengthExpand_lt hmid
      rw [List.length_map] at hlt
      obtain ⟨d', lengths', hrun', hmap', hat'⟩ := ih (lengths ++ List.replicate n len) fuel
        hat₂.ready hat₂.overflow (fun i hi => hcodes i (List.mem_cons_of_mem _ hi))
        (by rw [hmap]; exact hrest) hat₂.bits (Nat.lt_of_succ_lt_succ hfuel)
      refine ⟨d', lengths', ?_, hmap', hat'.ready, hat'.bits, hat'.overflow, ?_, ?_⟩
      · rw [FuelLoop.run, lengthStep]
        simp only [if_pos (show lengths.length < num by omega), hdec,
          if_neg (Int.not_lt.2 (hmax _ hcode)), hrun,
          if_neg (show ¬num - lengths.length < n by omega)]
        exact hrun'
      · rw [hat'.dest, hat₂.dest, hat₁.dest]
      · rw [hat'.destLen, hat₂.destLen, hat₁.destLen]

end Lengths

section Trees

variable {c : Codes} {lt dt : TinfTree} {lengths : List (Fin 16)}

theorem blockTrees_of_built (hlt : Built lt c.litlen) (hdt : Built dt c.dist)
    (hend : HasCode c.litlen endOfBlock) : BlockTrees lt dt c where
  litlen := hlt.decodes (used_pos_iff.2 ⟨_, hend⟩)
  dist := fun hne => hdt.decodes fun hzero => hne (hdt.empty.2 hzero)
  endOfBlock := hlt.maxSym _ hend
  litlen_max := fun _ _ h => hlt.maxSym _ h
  dist_max := fun _ _ h => hdt.maxSym _ h

/-- The code lengths of the two alphabets. -/
def codesOf (hlit : Nat) (lengths : List (Fin 16)) : Codes where
  litlen := (lengths.take hlit).map Fin.val
  dist := (lengths.drop hlit).map Fin.val

theorem codesOf_hasEnd {hlit : Nat} (hlit257 : 257 ≤ hlit) {eob : Fin 16}
    (heob : lengths[256]? = some eob) :
    HasCode (codesOf hlit lengths).litlen endOfBlock ↔ eob ≠ 0 := by
  have hget : (codesOf hlit lengths).litlen[256]? = some eob.val := by
    rw [codesOf, List.getElem?_map, List.getElem?_take_of_lt (by omega), heob]
    rfl
  constructor
  · rintro ⟨l, hl⟩ rfl
    exact hl.pos (Option.some.inj (hl.get.symm.trans hget))
  · exact fun hne => ⟨eob, hget, fun hz => hne (Fin.ext hz)⟩

/-- The trees are built when the code lengths are usable and the end of a block has a code. -/
theorem buildTrees_spec (d : TinfData) (lengths : List (Fin 16)) {hlit : Nat}
    (hlit257 : 257 ≤ hlit) (hlit286 : hlit ≤ 286)
    (hlen : hlit ≤ lengths.length) (hdist : lengths.length ≤ hlit + 30) :
    (∃ e, buildTrees hlit (d, lengths) = some (.error e) ∧
        ¬(HasCode (codesOf hlit lengths).litlen endOfBlock ∧
          Usable (codesOf hlit lengths).litlen ∧ Usable (codesOf hlit lengths).dist)) ∨
      ∃ lt dt, buildTrees hlit (d, lengths) = some (.ok (d, lt, dt)) ∧
        HasCode (codesOf hlit lengths).litlen endOfBlock ∧
        Built lt (codesOf hlit lengths).litlen ∧ Built dt (codesOf hlit lengths).dist := by
  obtain ⟨eob, heob⟩ : ∃ eob, lengths[256]? = some eob :=
    ⟨_, List.getElem?_eq_getElem (by omega)⟩
  have hend := codesOf_hasEnd hlit257 heob
  have hbuild : buildTrees hlit (d, lengths) =
      if eob = 0 then some (.error .data)
      else
        andThen (tinfBuildTree (lengths.take hlit)) fun lt =>
          andThen (tinfBuildTree (lengths.drop hlit)) fun dt => some (.ok (d, lt, dt)) := by
    rw [buildTrees]
    simp only [heob]
  rw [hbuild]
  by_cases hzero : eob = 0
  · rw [if_pos hzero]
    exact .inl ⟨_, rfl, fun h => (hend.1 h.1) hzero⟩
  rw [if_neg hzero]
  rcases tinfBuildTree_spec (lengths.take hlit)
    (by rw [List.length_take]; omega) with ⟨herr, hnot⟩ | ⟨lt, hok, hbuilt⟩
  · rw [herr]
    exact .inl ⟨_, rfl, fun h => hnot h.2.1⟩
  rw [hok]
  simp only [andThen]
  rcases tinfBuildTree_spec (lengths.drop hlit)
    (by rw [List.length_drop]; omega) with ⟨herr, hnot⟩ | ⟨dt, hok', hbuilt'⟩
  · rw [herr]
    exact .inl ⟨_, rfl, fun h => hnot h.2.2⟩
  rw [hok']
  exact .inr ⟨lt, dt, rfl, hend.2 hzero, hbuilt, hbuilt'⟩

end Trees

/-- `tinf_decode_trees` returns, and what it accepts is a valid header. -/
theorem tinfDecodeTrees_spec (h : Ready d) :
    ∃ r, tinfDecodeTrees d = some r ∧ ∀ d' lt dt, r = .ok (d', lt, dt) →
      ∃ hd c, Header.Valid hd c ∧ BlockTrees lt dt c ∧ Reads d (hd.bits c) d' := by
  obtain ⟨hl, hhl, hlval, hlreads⟩ := tinfGetbitsBase_spec h 5 257
  obtain ⟨hdn, hhd, hdval, hdreads⟩ := tinfGetbitsBase_spec hlreads.ready 5 1
  obtain ⟨hc, hhc, hcval, hcreads⟩ := tinfGetbitsBase_spec hdreads.ready 4 4
  have hl32 : hl < 32 := hhl
  have hd32 : hdn < 32 := hhd
  have hc16 : hc < 16 := hhc
  rw [tinfDecodeTrees]
  simp only [hlval, hdval, hcval]
  by_cases hrange : 286 < 257 + hl ∨ 30 < 1 + hdn
  · rw [if_pos hrange]
    exact ⟨_, rfl, fun _ _ _ hr => by cases hr⟩
  rw [if_neg hrange]
  obtain ⟨sent, hsent, hplaced, hsreads⟩ :=
    readLengthCodes_spec hcreads.ready [] (m := 4 + hc) (by simp only [List.length_nil]; omega)
  rw [List.length_nil, List.drop_zero, placed_nil, List.nil_append] at hplaced
  rw [List.length_nil, List.drop_zero, placed_nil] at hsreads
  rw [hplaced]
  obtain ⟨d₃, hd₃⟩ : ∃ d₃, d₃ = (readLengthCodes (clcidx.take (4 + hc)) (List.replicate 19 0)
      (tinfGetbitsBase (tinfGetbitsBase (tinfGetbitsBase d 5 257).2 5 1).2 4 4).2).2 := ⟨_, rfl⟩
  rw [← hd₃] at hsreads ⊢
  have hplen : (placed sent).length = 19 := by simp [placed]
  rcases tinfBuildTree_spec (placed sent) (by omega) with ⟨herr, _⟩ | ⟨lt, hok, hbuilt⟩
  · rw [herr]
    exact ⟨_, rfl, fun _ _ _ hr => by cases hr⟩
  rw [hok]
  simp only [andThen]
  by_cases hempty : lt.maxSym = -1
  · rw [if_pos hempty]
    exact ⟨_, rfl, fun _ _ _ hr => by cases hr⟩
  rw [if_neg hempty]
  have hused : used ((placed sent).map Fin.val) ≠ 0 := fun hz => hempty (hbuilt.empty.2 hz)
  obtain ⟨r, hr, hmeets⟩ := readLengths_spec (257 + hl + (1 + hdn))
    (hbuilt.decodes hused) (by rw [List.length_map, hplen]) hsreads.ready
  rw [hr]
  match r with
  | .error e => exact ⟨_, rfl, fun _ _ _ hr => by cases hr⟩
  | .ok (d₄, lengths) =>
      obtain ⟨hnum, items, hitems⟩ := hmeets d₄ lengths rfl
      simp only
      rcases buildTrees_spec d₄ lengths (show 257 ≤ 257 + hl by omega)
        (by omega) (by omega) (by omega) with ⟨e, herr, _⟩ | ⟨lt', dt', hok', hend, hlit, hdist⟩
      · rw [herr]
        exact ⟨_, rfl, fun _ _ _ hr => by cases hr⟩
      rw [hok']
      refine ⟨_, rfl, fun d' lt dt hout => ?_⟩
      obtain ⟨rfl, htrees⟩ := Prod.mk.inj (Except.ok.inj hout)
      obtain ⟨rfl, rfl⟩ := Prod.mk.inj htrees
      obtain ⟨c, hc⟩ : ∃ c, c = codesOf (257 + hl) lengths := ⟨_, rfl⟩
      rw [← hc] at hend hlit hdist
      have hlitLen : c.litlen.length = 257 + hl := by
        rw [hc, codesOf, List.length_map, List.length_take]
        omega
      have hdistLen : c.dist.length = 1 + hdn := by
        rw [hc, codesOf, List.length_map, List.length_drop]
        omega
      have hsplit : c.litlen ++ c.dist = lengths.map Fin.val := by
        rw [hc, codesOf, ← List.map_append, List.take_append_drop]
      have hcodes : (Header.mk sent items).lengthCodes = (placed sent).map Fin.val :=
        (placed_val ⟨sent, items⟩).symm
      refine ⟨⟨sent, items⟩, c, ?_, blockTrees_of_built hlit hdist hend, ?_⟩
      · exact {
          litlen := by omega
          dist := by omega
          sent := show 4 ≤ sent.length ∧ sent.length ≤ 19 by omega
          usable := hcodes ▸ hbuilt.usable
          codes := hcodes ▸ hitems.codes
          lengths := hsplit ▸ hitems.expand
          endOfBlock := hend
          litlenUsable := hlit.usable
          distUsable := hdist.usable }
      · rw [Header.bits, hlitLen, hdistLen, hcodes]
        simp only [hsent, Nat.add_sub_cancel_left]
        exact hlreads.trans (hdreads.trans (hcreads.trans (hsreads.trans hitems.reads)))

/-- A header that has been written is read back. -/
theorem tinfDecodeTrees_eq {hd : Header} {c : Codes} (hvalid : hd.Valid c) {rest : List Bool}
    (h : Ready d) (hover : d.overflow = false) (hbits : d.bits = hd.bits c ++ rest) :
    ∃ d' lt dt, tinfDecodeTrees d = some (.ok (d', lt, dt)) ∧ BlockTrees lt dt c ∧
      At d d' rest d.dest := by
  have hlitlen := hvalid.litlen
  have hdist := hvalid.dist
  have hsent := hvalid.sent
  rw [Header.bits, List.append_assoc, List.append_assoc, List.append_assoc, List.append_assoc]
    at hbits
  obtain ⟨hval₁, hat₁⟩ := tinfGetbitsBase_at h hover 257 (by omega) hbits
  obtain ⟨hval₂, hat₂⟩ := tinfGetbitsBase_at hat₁.ready hat₁.overflow 1 (by omega) hat₁.bits
  obtain ⟨hval₃, hat₃⟩ := tinfGetbitsBase_at hat₂.ready hat₂.overflow 4 (by omega) hat₂.bits
  obtain ⟨hplaced, hat₄⟩ := readLengthCodes_at hat₃.ready hat₃.overflow [] hd.sent
    (by simp only [List.length_nil]; omega) hat₃.bits
  rw [List.length_nil, List.drop_zero, placed_nil, List.nil_append] at hplaced
  rw [List.length_nil, List.drop_zero, placed_nil] at hat₄
  rw [Nat.add_sub_cancel' hlitlen.1] at hval₁
  rw [Nat.add_sub_cancel' hdist.1] at hval₂
  rw [Nat.add_sub_cancel' hsent.1] at hval₃
  rw [tinfDecodeTrees]
  simp only [hval₁, hval₂, hval₃, hplaced]
  rw [if_neg (show ¬(286 < c.litlen.length ∨ 30 < c.dist.length) by omega)]
  obtain ⟨d₄, hd₄⟩ : ∃ d₄, d₄ = (readLengthCodes (clcidx.take hd.sent.length)
      (List.replicate 19 0)
      (tinfGetbitsBase (tinfGetbitsBase (tinfGetbitsBase d 5 257).2 5 1).2 4 4).2).2 := ⟨_, rfl⟩
  rw [← hd₄] at hat₄ ⊢
  have hplen : (placed hd.sent).length = 19 := by simp [placed]
  have husable := hvalid.usable
  rw [← placed_val] at husable
  rcases tinfBuildTree_spec (placed hd.sent) (by omega) with
    ⟨_, hnot⟩ | ⟨lt, hok, hbuilt⟩
  · exact absurd husable hnot
  rw [placed_val] at hbuilt
  rw [hok]
  simp only [andThen]
  have hexpand := hvalid.lengths
  have hitem : ∃ i, i ∈ hd.items := by
    refine List.exists_mem_of_ne_nil _ fun hnil => ?_
    rw [hnil] at hexpand
    have hlen := congrArg List.length (Option.some.inj hexpand)
    rw [List.length_append, List.length_nil] at hlen
    omega
  have hused : used hd.lengthCodes ≠ 0 := by
    obtain ⟨i, hi⟩ := hitem
    exact used_pos_iff.2 ⟨_, hvalid.codes i hi⟩
  rw [if_neg fun hempty => hused (hbuilt.empty.1 hempty)]
  have hcount := lengthsExpand_le hexpand
  obtain ⟨d₅, lengths, hrun, hmap, hat₅⟩ := lengthsRun_at []
    (c.litlen.length + c.dist.length) (c.litlen.length + c.dist.length + 1)
    (hbuilt.decodes hused) hbuilt.maxSym hat₄.ready hat₄.overflow hvalid.codes hexpand hat₄.bits
    List.length_append (by rw [List.length_append, List.length_nil] at hcount; omega)
  rw [readLengths, hrun]
  have hlen : lengths.length = c.litlen.length + c.dist.length := by
    rw [← List.length_append, ← hmap, List.length_map]
  have hcodes : codesOf c.litlen.length lengths = c := by
    rw [codesOf, List.map_take, List.map_drop, hmap, List.take_left, List.drop_left]
  rcases buildTrees_spec d₅ lengths hlitlen.1
    (by omega) (by omega) (by omega) with ⟨_, _, hnot⟩ | ⟨lt', dt', hok', hend, hlit, hdist'⟩
  · rw [hcodes] at hnot
    exact absurd ⟨hvalid.endOfBlock, hvalid.litlenUsable, hvalid.distUsable⟩ hnot
  rw [hcodes] at hend hlit hdist'
  refine ⟨d₅, lt', dt', hok', blockTrees_of_built hlit hdist' hend, hat₅.ready, hat₅.bits,
    hat₅.overflow, ?_, ?_⟩
  · rw [hat₅.dest, hat₄.dest, hat₃.dest, hat₂.dest, hat₁.dest]
  · rw [hat₅.destLen, hat₄.destLen, hat₃.destLen, hat₂.destLen, hat₁.destLen]

end Inflate
end Cubiboot
