import Cubiboot.Inflate.BuildTree

/-!
# The items of a block

`tinf_inflate_block_data` reads the items of a block and expands them, and nothing else:
what it accepts are valid items, and it reads back valid items whose bytes have room.

Results: `inflateMatch_spec` and `inflateStep_spec`, what one turn of the loop reads and
writes; `ItemRead.turns`, that turns use up the stream, so that the loop ends;
`tinfInflateBlockData_spec`, what has been read of a block that is accepted;
`inflateStep_literal` and `inflateStep_pair`, the turns on items that were written; and
`tinfInflateBlockData_eq`, the block of such items.
-/

namespace Cubiboot
namespace Inflate

open BitStream CanonicalCode Deflate

variable {d d' : TinfData} {c : Codes} {lt dt : TinfTree}

section Decodes

variable {t : TinfTree} {lens : List Nat}

theorem Decodes.spec (hd : Decodes t lens) (h : Ready d) :
    ∃ s d' w, tinfDecodeSymbol d t = some (s, d') ∧ w ≠ [] ∧ Reads d w d' ∧
      ((s : Int) ≤ t.maxSym → HasCode lens s ∧ code lens s = w) := by
  obtain ⟨lens', hholds, hsame⟩ := hd
  obtain ⟨s, d', hdec, hcode, hne, hreads⟩ := tinfDecodeSymbol_spec hholds h
  refine ⟨s, d', _, hdec, hne, hreads, fun hle => ?_⟩
  have hs := (hsame s hle).1.1 hcode
  exact ⟨hs, ((hsame s hle).2 hs).symm⟩

theorem Decodes.eq (hd : Decodes t lens) (h : Ready d) {s : Nat} {rest : List Bool}
    (hs : HasCode lens s) (hle : (s : Int) ≤ t.maxSym) (hbits : d.bits = code lens s ++ rest) :
    ∃ d', tinfDecodeSymbol d t = some (s, d') ∧ Ready d' ∧ d'.bits = rest ∧
      d'.overflow = d.overflow ∧ d'.dest = d.dest ∧ d'.destLen = d.destLen := by
  obtain ⟨lens', hholds, hsame⟩ := hd
  refine tinfDecodeSymbol_eq hholds h ((hsame s hle).1.2 hs) ?_
  rw [(hsame s hle).2 hs]
  exact hbits

end Decodes

/-- The trees of a block with these codes. -/
structure BlockTrees (lt dt : TinfTree) (c : Codes) : Prop where
  litlen : Decodes lt c.litlen
  dist : dt.maxSym ≠ -1 → Decodes dt c.dist
  endOfBlock : (endOfBlock : Int) ≤ lt.maxSym
  litlen_max : ∀ l, l < 29 → HasCode c.litlen (257 + l) → ((257 + l : Nat) : Int) ≤ lt.maxSym
  dist_max : ∀ s, s < 30 → HasCode c.dist s → (s : Int) ≤ dt.maxSym

/-- The tables are those of the format. -/
theorem length_tables {l : Nat} (hl : l < 29) :
    lengthBits[l]? = some (lengthExtra l) ∧
      ∃ base, lengthBase[l]? = some base ∧
        ∀ extra, extra < 2 ^ lengthExtra l → lengthOf l extra = base + extra := by
  have hall : ∀ l < 29, lengthBits[l]? = some (lengthExtra l) ∧
      lengthBase[l]? = some (if l = 28 then 258 else Deflate.lengthBase l) := by
    decide
  obtain ⟨hbits, hbase⟩ := hall l hl
  refine ⟨hbits, _, hbase, fun extra hextra => ?_⟩
  rw [lengthOf]
  split
  · rename_i h28
    subst h28
    have hextra : extra < 1 := hextra
    omega
  · rfl

theorem dist_tables {s : Nat} (hs : s < 30) :
    distBits[s]? = some (distExtra s) ∧ distBase[s]? = some (Deflate.distBase s) := by
  have hall : ∀ s < 30, distBits[s]? = some (distExtra s) ∧
      distBase[s]? = some (Deflate.distBase s) := by
    decide
  exact hall s hs

theorem copyMatch_eq (offs : Nat) (hpos : 0 < offs) (n : Nat) {out : List UInt8}
    (hle : offs ≤ out.length) :
    copyMatch offs n out = some (copyBack offs n out) ∧
      (copyBack offs n out).length = out.length + n := by
  induction n generalizing out with
  | zero => exact ⟨rfl, rfl⟩
  | succ n ih =>
      have hget : out[out.length - offs]? = some out[out.length - offs] :=
        List.getElem?_eq_getElem (by omega)
      rw [copyMatch, if_pos hle, copyBack, hget, Option.bind_some, Option.toList_some]
      have hlen : (out ++ [out[out.length - offs]]).length = out.length + 1 := by simp
      obtain ⟨hcopy, hlength⟩ := ih (show offs ≤ (out ++ [out[out.length - offs]]).length by omega)
      exact ⟨hcopy, by omega⟩

/-- What has been read of the bits does not depend on the output. -/
theorem Reads.setDest {bits : List Bool} (h : Reads d bits d') (dest : List UInt8) :
    Reads { d with dest := dest } bits { d' with dest := dest } :=
  ⟨⟨⟨h.ready.tag, h.ready.overflow⟩, h.ready.bitcount⟩, rfl, h.destLen, h.bits⟩

/-- The output has room. -/
def Roomy (d : TinfData) : Prop :=
  d.dest.length ≤ d.destLen

/-- An item has been read and expanded. -/
structure ItemRead (c : Codes) (d d' : TinfData) (item : Item) : Prop where
  valid : item.Valid c
  expand : item.expand d.dest = some d'.dest
  reads : Reads { d with dest := d'.dest } (item.bits c) d'
  nonempty : item.bits c ≠ []
  roomy : Roomy d'

/-- What a turn of the loop does. -/
def StepMeets (c : Codes) (d : TinfData) : TinfData ⊕ Except TinfError TinfData → Prop
  | .inl d' => d.overflow = false ∧ ∃ item, ItemRead c d d' item
  | .inr (.ok d') => d'.overflow = false ∧ Reads d (code c.litlen endOfBlock) d'
  | .inr (.error _) => True

/-- The length and the distance of a copy. -/
theorem inflateMatch_spec (hb : BlockTrees lt dt c) (h : Ready d') (hroomy : Roomy d')
    (hover : d.overflow = false) {l : Nat} (hl : l < 29) (hne : dt.maxSym ≠ -1)
    (hcode : HasCode c.litlen (257 + l)) (hreads : Reads d (code c.litlen (257 + l)) d') :
    ∃ r, inflateMatch dt l d' = some r ∧ StepMeets c d r := by
  obtain ⟨hbits, base, hbase, hlength⟩ := length_tables hl
  obtain ⟨lv, hlv, hlval, hlreads⟩ := tinfGetbitsBase_spec h (lengthExtra l) base
  obtain ⟨s, d₁, w, hdec, _, hsreads, hsym⟩ := (hb.dist hne).spec hlreads.ready
  simp only [inflateMatch, hbits, hbase, hdec, Option.bind_eq_bind, Option.bind_some]
  by_cases hbad : dt.maxSym < s ∨ 29 < s
  · rw [if_pos hbad]
    exact ⟨_, rfl, trivial⟩
  rw [if_neg hbad]
  rw [not_or, not_lt, not_lt] at hbad
  obtain ⟨hscode, hsw⟩ := hsym hbad.1
  obtain ⟨hdbits, hdbase⟩ := dist_tables (Nat.lt_succ_of_le hbad.2)
  obtain ⟨dv, hdv, hdval, hdreads⟩ :=
    tinfGetbitsBase_spec hsreads.ready (distExtra s) (Deflate.distBase s)
  simp only [hdbits, hdbase, Option.bind_some, hlval, hdval]
  obtain ⟨d₂, hd₂⟩ : ∃ d₂, d₂ = (tinfGetbitsBase d₁ (distExtra s) (Deflate.distBase s)).2 :=
    ⟨_, rfl⟩
  rw [← hd₂] at hdreads ⊢
  have hall : Reads d (Item.bits c (.pair l lv s dv)) d₂ := by
    rw [Item.bits, hsw]
    exact hreads.trans (hlreads.trans (hsreads.trans hdreads))
  by_cases hfar : d₂.dest.length < Deflate.distBase s + dv
  · rw [if_pos hfar]
    exact ⟨_, rfl, trivial⟩
  rw [if_neg hfar]
  by_cases hfull : d₂.destLen - d₂.dest.length < base + lv
  · rw [if_pos hfull]
    exact ⟨_, rfl, trivial⟩
  rw [if_neg hfull]
  have hroom : d₂.dest.length ≤ d₂.destLen := by
    rw [hdreads.dest, hdreads.destLen, hsreads.dest, hsreads.destLen, hlreads.dest,
      hlreads.destLen]
    exact hroomy
  obtain ⟨hcopy, hclen⟩ := copyMatch_eq (Deflate.distBase s + dv)
    (Nat.add_pos_left (distBase_pos s) _) (base + lv) (Nat.not_lt.1 hfar)
  rw [hcopy, Option.bind_some]
  refine ⟨_, rfl, hover, .pair l lv s dv, ?_⟩
  exact {
    valid := ⟨hl, hcode, hlv, Nat.lt_succ_of_le hbad.2, hscode, hdv⟩
    expand := by
      rw [Item.expand, ← hall.dest, if_pos (Nat.not_lt.1 hfar), hlength lv hlv]
    reads := hall.setDest _
    nonempty := by
      obtain ⟨k, hk⟩ := hcode
      intro hnil
      have hlen := congrArg List.length hnil
      rw [Item.bits, List.length_append, hk.code_length] at hlen
      exact hk.pos (by simpa using (Nat.add_eq_zero_iff.1 hlen).1)
    roomy := by
      show (copyBack _ _ _).length ≤ d₂.destLen
      omega }

/-- A turn of the loop reads an item, or the end of the block. -/
theorem inflateStep_spec (hb : BlockTrees lt dt c) (h : Ready d) (hroomy : Roomy d) :
    ∃ r, inflateStep lt dt d = some r ∧ StepMeets c d r := by
  obtain ⟨s, d', w, hdec, hne, hreads, hsym⟩ := hb.litlen.spec h
  simp only [inflateStep, hdec, Option.bind_eq_bind, Option.bind_some]
  by_cases hover : d'.overflow = true
  · rw [if_pos hover]
    exact ⟨_, rfl, trivial⟩
  rw [if_neg hover]
  have hover : d'.overflow = false := by simpa using hover
  have hd := (hreads.took hover).2
  have hroomy' : Roomy d' := by
    rw [Roomy, hreads.dest, hreads.destLen]
    exact hroomy
  have hend := hb.endOfBlock
  by_cases hlit : s < 256
  · rw [if_pos hlit]
    by_cases hfull : d'.dest.length = d'.destLen
    · rw [if_pos hfull]
      exact ⟨_, rfl, trivial⟩
    · rw [if_neg hfull]
      have hle : (s : Int) ≤ lt.maxSym := by
        simp only [endOfBlock] at hend
        omega
      obtain ⟨hcode, hw⟩ := hsym hle
      have hbyte : (UInt8.ofNat s).toNat = s := Nat.mod_eq_of_lt hlit
      refine ⟨_, rfl, hd, .literal (UInt8.ofNat s), ?_⟩
      exact {
        valid := by
          rw [Item.Valid, hbyte]
          exact hcode
        expand := by rw [Item.expand, hreads.dest]
        reads := by
          rw [Item.bits, hbyte, hw]
          exact hreads.setDest _
        nonempty := by
          rw [Item.bits, hbyte, hw]
          exact hne
        roomy := by
          show (d'.dest ++ [UInt8.ofNat s]).length ≤ d'.destLen
          rw [Roomy] at hroomy'
          rw [List.length_append, List.length_singleton]
          omega }
  rw [if_neg hlit]
  by_cases hendb : s = 256
  · subst hendb
    rw [if_pos rfl]
    obtain ⟨_, hw⟩ := hsym hend
    refine ⟨_, rfl, hover, ?_⟩
    rw [endOfBlock, hw]
    exact hreads
  rw [if_neg hendb]
  by_cases hbad : lt.maxSym < s ∨ 28 < s - 257 ∨ dt.maxSym = -1
  · rw [if_pos hbad]
    exact ⟨_, rfl, trivial⟩
  rw [if_neg hbad]
  rw [not_or, not_or, not_lt, not_lt] at hbad
  obtain ⟨hcode, hw⟩ := hsym hbad.1
  have hs : s = 257 + (s - 257) := by omega
  rw [hs] at hcode hw
  exact inflateMatch_spec hb hreads.ready hroomy' hd (Nat.lt_succ_of_le hbad.2.1) hbad.2.2 hcode
    (hw ▸ hreads)

/-- The turns that are left: one for every bit, and one to notice the end. -/
def turnsLeft (d : TinfData) : Nat :=
  if d.overflow then 0 else d.bits.length + 1

theorem ItemRead.turns {item : Item} (h : ItemRead c d d' item) (hd : d.overflow = false) :
    turnsLeft d' < turnsLeft d := by
  rw [turnsLeft, turnsLeft, hd]
  by_cases hover : d'.overflow = true
  · rw [if_pos hover]
    exact Nat.succ_pos _
  · rw [if_neg hover]
    have hover : d'.overflow = false := by simpa using hover
    have hbits : d.bits = item.bits c ++ d'.bits := (h.reads.took hover).1
    have hpos := List.length_pos_iff.2 h.nonempty
    have hlen := congrArg List.length hbits
    rw [List.length_append] at hlen
    show d'.bits.length + 1 < d.bits.length + 1
    omega

/-- Items have been read and expanded. -/
structure ItemsRead (c : Codes) (d d' : TinfData) (items : List Item) : Prop where
  valid : ∀ i ∈ items, i.Valid c
  expand : expandItems items d.dest = some d'.dest
  reads : Reads { d with dest := d'.dest } (items.flatMap (Item.bits c)) d'
  roomy : Roomy d'

theorem ItemsRead.nil (h : Ready d) (hroomy : Roomy d) : ItemsRead c d d [] :=
  ⟨fun _ hi => absurd hi List.not_mem_nil, rfl, .refl h, hroomy⟩

theorem ItemsRead.snoc {d'' : TinfData} {items : List Item} {item : Item}
    (h : ItemsRead c d d' items) (hi : ItemRead c d' d'' item) :
    ItemsRead c d d'' (items ++ [item]) := by
  refine ⟨fun i hmem => ?_, ?_, ?_, hi.roomy⟩
  · rcases List.mem_append.1 hmem with hmem | hmem
    · exact h.valid i hmem
    · exact List.mem_singleton.1 hmem ▸ hi.valid
  · have hexpand := h.expand
    rw [expandItems] at hexpand ⊢
    rw [List.foldlM_append, hexpand]
    simp [hi.expand]
  · rw [List.flatMap_append, List.flatMap_singleton]
    exact (h.reads.setDest d''.dest).trans hi.reads

/-- A block has been read to its end. -/
structure BlockRead (c : Codes) (d d' : TinfData) (items : List Item) : Prop where
  valid : ∀ i ∈ items, i.Valid c
  expand : expandItems items d.dest = some d'.dest
  reads : Reads { d with dest := d'.dest } (itemsBits c items) d'
  overflow : d'.overflow = false
  roomy : Roomy d'

/-- `tinf_inflate_block_data` returns, and what it accepts is a block. -/
theorem tinfInflateBlockData_spec (hb : BlockTrees lt dt c) (h : Ready d) (hroomy : Roomy d) :
    ∃ r, tinfInflateBlockData lt dt d = some r ∧
      ∀ d', r = .ok d' → ∃ items, BlockRead c d d' items := by
  rw [tinfInflateBlockData]
  refine FuelLoop.run_meets (fun s => Ready s ∧ ∃ items, ItemsRead c d s items)
    (fun r : Except TinfError TinfData => ∀ d', r = .ok d' → ∃ items, BlockRead c d d' items)
    turnsLeft ?_ ⟨h, [], .nil h hroomy⟩ ?_
  · rintro s ⟨hs, items, hitems⟩
    obtain ⟨r, hr, hmeets⟩ := inflateStep_spec hb hs hitems.roomy
    match r with
    | .inl s' =>
        obtain ⟨hover, item, hitem⟩ := hmeets
        exact .inr ⟨s', hr, ⟨hitem.reads.ready, _, hitems.snoc hitem⟩, hitem.turns hover⟩
    | .inr (.ok s') =>
        obtain ⟨hover, hreads⟩ := hmeets
        refine .inl ⟨_, hr, fun d' hd' => ?_⟩
        obtain rfl : s' = d' := Except.ok.inj hd'
        refine ⟨items, hitems.valid, ?_, ?_, hover, ?_⟩
        · rw [hreads.dest]
          exact hitems.expand
        · exact (hitems.reads.setDest s'.dest).trans (hreads.setDest s'.dest)
        · rw [Roomy, hreads.dest, hreads.destLen]
          exact hitems.roomy
    | .inr (.error e) => exact .inl ⟨_, hr, fun d' hd' => by cases hd'⟩
  · rw [turnsLeft]
    split
    · omega
    · rw [TinfData.bits, List.length_append, toBits_length, bitsOf_length]
      omega

/-- The state after what is at the front of the stream has been read. -/
structure At (d d' : TinfData) (rest : List Bool) (out : List UInt8) : Prop where
  ready : Ready d'
  bits : d'.bits = rest
  overflow : d'.overflow = false
  dest : d'.dest = out
  destLen : d'.destLen = d.destLen

theorem tinfDecode_at {t : TinfTree} {lens : List Nat} (hd : Decodes t lens) (h : Ready d)
    (hover : d.overflow = false) {s : Nat} {rest : List Bool} (hs : HasCode lens s)
    (hle : (s : Int) ≤ t.maxSym) (hbits : d.bits = code lens s ++ rest) :
    ∃ d', tinfDecodeSymbol d t = some (s, d') ∧ At d d' rest d.dest := by
  obtain ⟨d', hdec, hready, hrest, ho, hdest, hlen⟩ := hd.eq h hs hle hbits
  exact ⟨d', hdec, hready, hrest, ho.trans hover, hdest, hlen⟩

theorem tinfGetbitsBase_at (h : Ready d) (hover : d.overflow = false) {num v : Nat} (base : Nat)
    {rest : List Bool} (hv : v < 2 ^ num) (hbits : d.bits = toBits num v ++ rest) :
    (tinfGetbitsBase d num base).1 = base + v ∧
      At d (tinfGetbitsBase d num base).2 rest d.dest := by
  obtain ⟨hval, hrest, ho⟩ := tinfGetbitsBase_eq base h hbits hv
  obtain ⟨_, _, _, hreads⟩ := tinfGetbitsBase_spec h num base
  exact ⟨hval, hreads.ready, hrest, ho.trans hover, hreads.dest, hreads.destLen⟩

theorem inflateStep_literal (hb : BlockTrees lt dt c) (h : Ready d) (hover : d.overflow = false)
    {b : UInt8} {rest : List Bool} (hvalid : (Item.literal b).Valid c)
    (hbits : d.bits = (Item.literal b).bits c ++ rest) (hroom : d.dest.length < d.destLen) :
    ∃ d', inflateStep lt dt d = some (.inl d') ∧ At d d' rest (d.dest ++ [b]) := by
  have hend : (256 : Int) ≤ lt.maxSym := hb.endOfBlock
  have hlt : b.toNat < 256 := b.toNat_lt
  obtain ⟨d', hdec, hat⟩ := tinfDecode_at hb.litlen h hover hvalid (by omega) hbits
  have hnofull : d'.dest.length ≠ d'.destLen := by
    rw [hat.dest, hat.destLen]
    omega
  have hbyte : UInt8.ofNat b.toNat = b := UInt8.ofNat_toNat
  refine ⟨{ d' with dest := d'.dest ++ [b] }, ?_, ⟨⟨hat.ready.tag, hat.ready.overflow⟩,
    hat.ready.bitcount⟩, hat.bits, hat.overflow, ?_, hat.destLen⟩
  · simp only [inflateStep, hdec, Option.bind_eq_bind, Option.bind_some, hat.overflow,
      Bool.false_eq_true, if_false, if_pos hlt, if_neg hnofull, hbyte]
  · show d'.dest ++ [b] = d.dest ++ [b]
    rw [hat.dest]

theorem inflateStep_pair (hb : BlockTrees lt dt c) (h : Ready d) (hover : d.overflow = false)
    {l lv s dv : Nat} {rest : List Bool} {out : List UInt8}
    (hvalid : (Item.pair l lv s dv).Valid c)
    (hbits : d.bits = (Item.pair l lv s dv).bits c ++ rest)
    (hexpand : (Item.pair l lv s dv).expand d.dest = some out) (hroom : out.length ≤ d.destLen) :
    ∃ d', inflateStep lt dt d = some (.inl d') ∧ At d d' rest out := by
  obtain ⟨hl, hcode, hlv, hs, hscode, hdv⟩ := hvalid
  rw [Item.bits, List.append_assoc, List.append_assoc, List.append_assoc] at hbits
  rw [Item.expand] at hexpand
  split at hexpand
  case isFalse => cases hexpand
  rename_i hnear
  obtain ⟨hlbits, base, hbase, hlength⟩ := length_tables hl
  obtain ⟨hdbits, hdbase⟩ := dist_tables hs
  have hlmax := hb.litlen_max l hl hcode
  have hdmax := hb.dist_max s hs hscode
  have hdist : dt.maxSym ≠ -1 := by omega
  obtain ⟨d₁, hdec₁, hat₁⟩ := tinfDecode_at hb.litlen h hover hcode hlmax hbits
  obtain ⟨hval₂, hat₂⟩ := tinfGetbitsBase_at hat₁.ready hat₁.overflow base hlv hat₁.bits
  obtain ⟨d₃, hdec₃, hat₃⟩ :=
    tinfDecode_at (hb.dist hdist) hat₂.ready hat₂.overflow hscode hdmax hat₂.bits
  obtain ⟨hval₄, hat₄⟩ :=
    tinfGetbitsBase_at hat₃.ready hat₃.overflow (Deflate.distBase s) hdv hat₃.bits
  obtain ⟨d₄, hd₄⟩ : ∃ d₄, d₄ = (tinfGetbitsBase d₃ (distExtra s) (Deflate.distBase s)).2 :=
    ⟨_, rfl⟩
  rw [← hd₄] at hat₄
  have hdest : d₄.dest = d.dest := by
    rw [hat₄.dest, hat₃.dest, hat₂.dest, hat₁.dest]
  have hdestLen : d₄.destLen = d.destLen := by
    rw [hat₄.destLen, hat₃.destLen, hat₂.destLen, hat₁.destLen]
  obtain ⟨hcopy, hclen⟩ := copyMatch_eq (Deflate.distBase s + dv)
    (Nat.add_pos_left (distBase_pos s) _) (base + lv) hnear
  rw [hlength lv hlv] at hexpand
  have hout := Option.some.inj hexpand
  have hclen' : out.length = d.dest.length + (base + lv) := by rw [← hout, hclen]
  refine ⟨{ d₄ with dest := out }, ?_, ⟨⟨hat₄.ready.tag, hat₄.ready.overflow⟩,
    hat₄.ready.bitcount⟩, hat₄.bits, hat₄.overflow, rfl, hdestLen⟩
  have hmatch : inflateMatch dt l d₁ = some (.inl { d₄ with dest := out }) := by
    simp only [inflateMatch, hlbits, hbase, hdec₃, hdbits, hdbase, hval₂, hval₄, ← hd₄,
      Option.bind_eq_bind, Option.bind_some]
    rw [if_neg (by omega), hdest, hdestLen, if_neg (by omega), if_neg (by omega), hcopy, hout]
    rfl
  simp only [inflateStep, hdec₁, Option.bind_eq_bind, Option.bind_some, hat₁.overflow,
    Bool.false_eq_true, if_false]
  rw [if_neg (by omega), if_neg (by omega), if_neg (by omega), Nat.add_sub_cancel_left]
  exact hmatch

/-- The items of a block are read back. -/
theorem inflateRun_eq (hb : BlockTrees lt dt c) (hend : HasCode c.litlen endOfBlock)
    {items : List Item} {rest : List Bool} {out : List UInt8} {fuel : Nat} (h : Ready d)
    (hover : d.overflow = false) (hvalid : ∀ i ∈ items, i.Valid c)
    (hbits : d.bits = itemsBits c items ++ rest) (hexpand : expandItems items d.dest = some out)
    (hroom : out.length ≤ d.destLen) (hfuel : items.length < fuel) :
    ∃ d', FuelLoop.run (inflateStep lt dt) fuel d = some (.ok d') ∧ At d d' rest out := by
  induction items generalizing d fuel with
  | nil =>
      obtain ⟨fuel, rfl⟩ : ∃ n, fuel = n + 1 := ⟨fuel - 1, by omega⟩
      obtain ⟨d', hdec, hat⟩ := tinfDecode_at hb.litlen h hover hend hb.endOfBlock hbits
      have hout : d.dest = out := Option.some.inj hexpand
      refine ⟨d', ?_, hout ▸ hat⟩
      have hstep : inflateStep lt dt d = some (.inr (.ok d')) := by
        simp only [inflateStep, hdec, Option.bind_eq_bind, Option.bind_some, hat.overflow,
          Bool.false_eq_true, if_false]
        rw [if_neg (by decide), if_pos (by rfl)]
      rw [FuelLoop.run, hstep]
  | cons item items ih =>
      obtain ⟨fuel, rfl⟩ : ∃ n, fuel = n + 1 := ⟨fuel - 1, by omega⟩
      have hitem := hvalid item List.mem_cons_self
      rw [itemsBits, List.flatMap_cons, List.append_assoc, List.append_assoc, ← List.append_assoc
        (items.flatMap (Item.bits c)), ← itemsBits] at hbits
      rw [expandItems, List.foldlM_cons] at hexpand
      obtain ⟨mid, hmid, hrest⟩ := Option.bind_eq_some_iff.1 hexpand
      have hmidLe : mid.length ≤ d.destLen := (expandItems_length_le hrest).trans hroom
      have hstep : ∃ d', inflateStep lt dt d = some (.inl d') ∧
          At d d' (itemsBits c items ++ rest) mid := by
        cases item with
        | literal b =>
            have hmid' : d.dest ++ [b] = mid := Option.some.inj hmid
            have hlen : d.dest.length < d.destLen := by
              rw [← hmid', List.length_append, List.length_singleton] at hmidLe
              exact hmidLe
            rw [← hmid']
            exact inflateStep_literal hb h hover hitem hbits hlen
        | pair l lv s dv => exact inflateStep_pair hb h hover hitem hbits hmid hmidLe
      obtain ⟨d₁, hd₁, hat⟩ := hstep
      obtain ⟨d', hrun, hat'⟩ := ih hat.ready hat.overflow
        (fun i hi => hvalid i (List.mem_cons_of_mem _ hi)) hat.bits
        (by rw [hat.dest]; exact hrest) (by rw [hat.destLen]; exact hroom)
        (Nat.lt_of_succ_lt_succ hfuel)
      refine ⟨d', ?_, hat'.ready, hat'.bits, hat'.overflow, hat'.dest,
        hat'.destLen.trans hat.destLen⟩
      rw [FuelLoop.run, hd₁]
      exact hrun

/-- A block that has been written is read back. -/
theorem tinfInflateBlockData_eq (hb : BlockTrees lt dt c) (hend : HasCode c.litlen endOfBlock)
    {items : List Item} {rest : List Bool} {out : List UInt8} (h : Ready d)
    (hover : d.overflow = false) (hvalid : ∀ i ∈ items, i.Valid c)
    (hbits : d.bits = itemsBits c items ++ rest) (hexpand : expandItems items d.dest = some out)
    (hroom : out.length ≤ d.destLen) :
    ∃ d', tinfInflateBlockData lt dt d = some (.ok d') ∧ At d d' rest out := by
  refine inflateRun_eq hb hend h hover hvalid hbits hexpand hroom ?_
  have hcount : items.length ≤ (items.flatMap (Item.bits c)).length := by
    clear hbits hexpand
    induction items with
    | nil => exact Nat.zero_le _
    | cons item items ih =>
        have hpos := Item.bits_pos (hvalid item List.mem_cons_self)
        have hrest := ih fun i hi => hvalid i (List.mem_cons_of_mem _ hi)
        rw [List.flatMap_cons, List.length_append, List.length_cons]
        omega
  have hlen := congrArg List.length hbits
  rw [TinfData.bits, List.length_append, toBits_length, bitsOf_length, itemsBits,
    List.length_append, List.length_append] at hlen
  omega

end Inflate
end Cubiboot
