import Cubiboot.Inflate.Headers

/-!
# Whole streams

`tinf_uncompress` returns for every source and every size of the destination, stays within
both, and accepts exactly the streams whose bytes fit.

The trees of the fixed codes are tables of the source, and hold the codes of the format
(`holds_fixedLitlen`, `holds_fixedDist`). A stored block drops the bits that are left of
its first byte, and copies.

Results: `storedBlock_spec` and `inflateBlock_spec`, what has been read of a block;
`uncompressStep_spec`, a turn of the outer loop; `uncompressRun_sound` and
`uncompressRun_eq`, by induction on the turns and on the blocks;
`tinfUncompress_returns` and `tinfUncompress_ok`, whole streams; and `deflated_unique`,
that a stream expands to one string, since it is decompressed to one.
-/

namespace Cubiboot
namespace Inflate

open BitStream CanonicalCode Deflate

variable {d d' : TinfData}

theorem fixed_before : before Codes.fixed.litlen 7 = 0 ∧ before Codes.fixed.litlen 8 = 24 ∧
    before Codes.fixed.litlen 9 = 176 := by
  decide +kernel

/-- Where the symbols of the four runs of lengths are. -/
theorem fixedLitlen_place {s : Nat} (hs : s < 288) :
    before Codes.fixed.litlen (Codes.fixed.litlen.getD s 0) + rank Codes.fixed.litlen s =
      if s < 144 then 24 + s else if s < 256 then 32 + s else if s < 280 then s - 256
      else s - 112 := by
  obtain ⟨h7, h8, h9⟩ := fixed_before
  have hruns : Codes.fixed.litlen = List.replicate 144 8 ++ List.replicate 112 9 ++
      List.replicate 24 7 ++ List.replicate 8 8 := rfl
  have hrun₁ := rank_run (s := s) (k := 0) (c := 0)
    (hruns.trans (by rw [List.append_assoc, List.append_assoc]; rfl) :
      Codes.fixed.litlen = [] ++ (List.replicate 144 8 ++ _)) rfl rfl
  have hrun₂ := rank_run (s := s) (hruns.trans (by rw [List.append_assoc, List.append_assoc]) :
    Codes.fixed.litlen = List.replicate 144 8 ++ (List.replicate 112 9 ++ _)) List.length_replicate
    (show List.count 9 _ = 0 by decide +kernel)
  have hrun₃ := rank_run (s := s) (hruns.trans (by rw [List.append_assoc]) :
    Codes.fixed.litlen = List.replicate 144 8 ++ List.replicate 112 9 ++ (List.replicate 24 7 ++ _))
    (show _ = 256 by rw [List.length_append, List.length_replicate, List.length_replicate])
    (show List.count 7 _ = 0 by decide +kernel)
  have hrun₄ := rank_run (s := s) (hruns.trans (by rw [List.append_nil]) :
    Codes.fixed.litlen = List.replicate 144 8 ++ List.replicate 112 9 ++ List.replicate 24 7 ++
      (List.replicate 8 8 ++ []))
    (show _ = 280 by
      rw [List.length_append, List.length_append, List.length_replicate, List.length_replicate,
        List.length_replicate])
    (show List.count 8 _ = 144 by decide +kernel)
  split
  · obtain ⟨hget, hrank⟩ := hrun₁ (Nat.zero_le s) (by omega)
    rw [hget, h8, hrank]
    omega
  split
  · obtain ⟨hget, hrank⟩ := hrun₂ (by omega) (by omega)
    rw [hget, h9, hrank]
    omega
  split
  · obtain ⟨hget, hrank⟩ := hrun₃ (by omega) (by omega)
    rw [hget, h7, hrank]
    omega
  · obtain ⟨hget, hrank⟩ := hrun₄ (by omega) (by omega)
    rw [hget, h8, hrank]
    omega

theorem fixedLitlen_symbols {s : Nat} (hs : s < 288) :
    fixedLitlenTree.symbols (if s < 144 then 24 + s else if s < 256 then 32 + s
      else if s < 280 then s - 256 else s - 112) = some s := by
  have hsymbols : ∀ i, fixedLitlenTree.symbols i =
      if i < 24 then some (256 + i)
      else if i < 168 then some (i - 24)
      else if i < 176 then some (280 + (i - 168))
      else if i < 288 then some (144 + (i - 176))
      else none := fun _ => rfl
  rw [hsymbols]
  split_ifs <;> first | omega | exact congrArg some (by omega)

theorem holds_fixedLitlen : Holds fixedLitlenTree Codes.fixed.litlen where
  short := by decide +kernel
  complete := by decide +kernel
  counts := by decide +kernel
  symbols := fun s l hs => by
    have hlt := (List.getElem?_eq_some_iff.1 hs.get).1
    rw [show Codes.fixed.litlen.length = 288 by decide +kernel] at hlt
    have hsym := fixedLitlen_symbols hlt
    rwa [← fixedLitlen_place hlt, hs.getD] at hsym

theorem holds_fixedDist : Holds fixedDistTree Codes.fixed.dist where
  short := by decide +kernel
  complete := by decide +kernel
  counts := by decide +kernel
  symbols := by
    have hall : ∀ s < 32, fixedDistTree.symbols
        (before Codes.fixed.dist (Codes.fixed.dist.getD s 0) + rank Codes.fixed.dist s) =
          some s := by
      decide +kernel
    intro s l hs
    have h := hall s (List.getElem?_eq_some_iff.1 hs.get).1
    rwa [hs.getD] at h

theorem fixed_hasEnd : HasCode Codes.fixed.litlen endOfBlock :=
  ⟨7, by decide +kernel, by decide⟩

theorem blockTrees_fixed : BlockTrees fixedLitlenTree fixedDistTree .fixed where
  litlen := ⟨_, holds_fixedLitlen, fun _ _ => ⟨Iff.rfl, fun _ => rfl⟩⟩
  dist := fun _ => ⟨_, holds_fixedDist, fun _ _ => ⟨Iff.rfl, fun _ => rfl⟩⟩
  endOfBlock := by decide
  litlen_max := fun l hl _ => by
    show ((257 + l : Nat) : Int) ≤ 285
    omega
  dist_max := fun s hs _ => by
    show (s : Int) ≤ 29
    omega

theorem readLe16_eq (lo hi : UInt8) : readLe16 lo hi = lo.toNat + hi.toNat * 2 ^ 8 := by
  rw [readLe16, Nat.or_comm,
    ← Nat.shiftLeft_add_eq_or_of_lt (show lo.toNat < 2 ^ 8 from lo.toNat_lt),
    Nat.shiftLeft_eq, Nat.add_comm]

theorem readLe16_bits (lo hi : UInt8) : toBits 16 (readLe16 lo hi) = bitsOf [lo, hi] := by
  rw [readLe16_eq, show (16 : Nat) = 8 + 8 from rfl, toBits_join lo.toNat_lt, bitsOf_cons,
    bitsOf_cons, bitsOf_nil, List.append_nil]

theorem readLe16_lt (lo hi : UInt8) : readLe16 lo hi < 2 ^ 16 := by
  have hlo := lo.toNat_lt
  have hhi := hi.toNat_lt
  rw [readLe16_eq]
  omega

theorem leBytes_readLe16 (lo hi : UInt8) : leBytes 2 (readLe16 lo hi) = [lo, hi] := by
  refine bitsOf_inj ?_
  rw [bitsOf_leBytes, ← readLe16_bits]

theorem readLe16_leBytes {n : Nat} (hn : n < 2 ^ 16) :
    readLe16 (UInt8.ofNat n) (UInt8.ofNat (n / 2 ^ 8)) = n :=
  leBytes_inj (readLe16_lt _ _) hn (leBytes_readLe16 _ _)

/-- A block has been read. -/
structure BlockTaken (d d' : TinfData) (b : Block) : Prop where
  valid : b.Valid
  aligned : ∀ pos, (pos + 3 + d.bits.length) % 8 = 0 → b.Aligned pos
  expand : b.expand d.dest = some d'.dest
  bits : d.bits = b.body ++ d'.bits
  overflow : d.overflow = false
  overflow' : d'.overflow = false
  ready : Ready d'
  roomy : Roomy d'
  destLen : d'.destLen = d.destLen

/-- A stored block that is accepted. -/
theorem storedBlock_spec (h : Ready d) (hroomy : Roomy d)
    (hok : tinfInflateUncompressedBlock d = .ok d') :
    ∃ pad data, BlockTaken d d' (.stored pad data) := by
  rw [tinfInflateUncompressedBlock] at hok
  split at hok
  case h_2 => cases hok
  rename_i l₀ l₁ n₀ n₁ source hsource
  simp only at hok
  split at hok
  case isTrue => cases hok
  rename_i hcheck
  split at hok
  case isTrue => cases hok
  rename_i hlong
  split at hok
  case isTrue => cases hok
  rename_i hfits
  obtain rfl := Except.ok.inj hok
  rw [not_not] at hcheck
  have hover : d.overflow = false := by
    cases ho : d.overflow with
    | false => rfl
    | true =>
        have hnil := h.overflow ho
        rw [hsource] at hnil
        cases hnil
  obtain ⟨data, hdata⟩ : ∃ data, data = source.take (readLe16 l₀ l₁) := ⟨_, rfl⟩
  have hdlen : data.length = readLe16 l₀ l₁ := by
    rw [hdata, List.length_take]
    omega
  have hinv : 0xFFFF - data.length = readLe16 n₀ n₁ := by
    have hn := readLe16_lt n₀ n₁
    omega
  refine ⟨toBits d.bitcount d.tag, data, ?_⟩
  exact {
    valid := by
      show data.length < 2 ^ 16
      rw [hdlen]
      exact readLe16_lt l₀ l₁
    aligned := fun pos hpos => by
      have hcount := h.bitcount
      rw [TinfData.bits, List.length_append, toBits_length, bitsOf_length] at hpos
      refine ⟨by rw [toBits_length]; exact hcount, ?_⟩
      rw [toBits_length]
      omega
    expand := by rw [Block.expand, hdata]
    bits := by
      have hsplit : bitsOf source = bitsOf data ++ bitsOf (source.drop (readLe16 l₀ l₁)) := by
        rw [hdata, ← bitsOf_append, List.take_append_drop]
      have hhead : bitsOf d.source = toBits 16 data.length ++
          (toBits 16 (0xFFFF - data.length) ++ bitsOf source) := by
        rw [hinv, hdlen, readLe16_bits, readLe16_bits, ← bitsOf_append, ← bitsOf_append, hsource]
        rfl
      rw [TinfData.bits, hhead, hsplit, Block.body]
      simp only [TinfData.bits, toBits, List.nil_append, List.append_assoc]
    overflow := hover
    overflow' := hover
    ready := ⟨⟨Nat.one_pos, fun ho => by simp [hover] at ho⟩, Nat.succ_pos 7⟩
    roomy := by
      rw [Roomy] at hroomy ⊢
      simp only [List.length_append, ← hdata]
      omega
    destLen := rfl }

/-- A stored block is read back. -/
theorem storedBlock_eq (h : Ready d) (hover : d.overflow = false) {pad : List Bool}
    {data : List UInt8} {rest : List Bool} {pos : Nat} (hvalid : (Block.stored pad data).Valid)
    (haligned : (Block.stored pad data).Aligned pos) (hpos : (pos + 3 + d.bits.length) % 8 = 0)
    (hbits : d.bits = (Block.stored pad data).body ++ rest)
    (hroom : (d.dest ++ data).length ≤ d.destLen) :
    ∃ d', tinfInflateUncompressedBlock d = .ok d' ∧ At d d' rest (d.dest ++ data) := by
  obtain ⟨hpad8, hpad⟩ := haligned
  have hvalid : data.length < 2 ^ 16 := hvalid
  have hcount := h.bitcount
  have hlen : pad.length = d.bitcount := by
    rw [TinfData.bits, List.length_append, toBits_length, bitsOf_length] at hpos
    omega
  rw [Block.body, TinfData.bits, List.append_assoc] at hbits
  obtain ⟨_, hsource⟩ := List.append_inj hbits (by rw [toBits_length, hlen])
  have hbytes : bitsOf d.source =
      bitsOf (leBytes 2 data.length ++ (leBytes 2 (0xFFFF - data.length) ++ data)) ++ rest := by
    rw [hsource, bitsOf_append, bitsOf_append, bitsOf_leBytes, bitsOf_leBytes, List.append_assoc,
      List.append_assoc]
  obtain ⟨more, hmore, hrest⟩ := bitsOf_prefix hbytes
  have hcheck : data.length = 0xFFFF - (0xFFFF - data.length) := by omega
  have hfull : ¬d.destLen - d.dest.length < data.length := by
    rw [List.length_append] at hroom
    omega
  refine ⟨{ d with source := more, dest := d.dest ++ data, tag := 0, bitcount := 0 }, ?_,
    ⟨⟨Nat.one_pos, fun ho => ?_⟩, Nat.succ_pos 7⟩, hrest.symm, hover, rfl, rfl⟩
  · rw [tinfInflateUncompressedBlock, hmore]
    simp only [leBytes, List.cons_append, List.nil_append, readLe16_leBytes hvalid,
      readLe16_leBytes (show 0xFFFF - data.length < 2 ^ 16 by omega)]
    rw [if_neg (not_not.2 hcheck), if_neg (by rw [List.length_append]; omega), if_neg hfull,
      List.drop_left, List.take_left]
  · rw [show d.overflow = false from hover] at ho
    cases ho

/-- What has been read of a block up to its items, and its items. -/
theorem BlockRead.taken {c : Codes} {items : List Item} {pre : List Bool} {d₁ : TinfData}
    {b : Block} (hread : BlockRead c d₁ d' items) (hpre : Reads d pre d₁)
    (hbody : b.body = pre ++ itemsBits c items) (hvalid : b.Valid)
    (haligned : ∀ pos, b.Aligned pos) (hexpand : b.expand d.dest = expandItems items d.dest) :
    BlockTaken d d' b := by
  obtain ⟨hitems, hover₁⟩ := hread.reads.took hread.overflow
  have hitems : d₁.bits = itemsBits c items ++ d'.bits := hitems
  obtain ⟨hbits, hover⟩ := hpre.took hover₁
  have hdest := hread.expand
  rw [hpre.dest] at hdest
  have hlen : d'.destLen = d₁.destLen := hread.reads.destLen
  exact {
    valid := hvalid
    aligned := fun pos _ => haligned pos
    expand := hexpand.trans hdest
    bits := by rw [hbits, hitems, hbody, List.append_assoc]
    overflow := hover
    overflow' := hread.overflow
    ready := hread.reads.ready
    roomy := hread.roomy
    destLen := hlen.trans hpre.destLen }

/-- A block is read whatever follows its type, and what is accepted is a block. -/
theorem inflateBlock_spec (btype : Nat) (h : Ready d) (hroomy : Roomy d) :
    ∃ r, inflateBlock btype d = some r ∧
      ∀ d', r = .ok d' → ∃ b : Block, b.type = btype ∧ BlockTaken d d' b := by
  rw [inflateBlock]
  by_cases hstored : btype = 0
  · rw [if_pos hstored]
    refine ⟨_, rfl, fun d' hok => ?_⟩
    obtain ⟨pad, data, htaken⟩ := storedBlock_spec h hroomy hok
    exact ⟨.stored pad data, hstored.symm, htaken⟩
  rw [if_neg hstored]
  by_cases hfixed : btype = 1
  · rw [if_pos hfixed]
    obtain ⟨r, hr, hread⟩ := tinfInflateBlockData_spec blockTrees_fixed h hroomy
    refine ⟨r, hr, fun d' hok => ?_⟩
    obtain ⟨items, hread⟩ := hread d' hok
    exact ⟨.fixed items, hfixed.symm,
      hread.taken (.refl h) rfl hread.valid (fun _ => trivial) rfl⟩
  rw [if_neg hfixed]
  by_cases hdynamic : btype = 2
  · rw [if_pos hdynamic, tinfInflateDynamicBlock]
    obtain ⟨r, hr, htrees⟩ := tinfDecodeTrees_spec h
    rw [hr]
    match r with
    | .error e => exact ⟨_, rfl, fun d' hok => by cases hok⟩
    | .ok (d₁, lt, dt) =>
        obtain ⟨header, c, hheader, hb, hreads⟩ := htrees d₁ lt dt rfl
        have hroomy₁ : Roomy d₁ := by
          rw [Roomy, hreads.dest, hreads.destLen]
          exact hroomy
        obtain ⟨r, hr, hread⟩ := tinfInflateBlockData_spec hb hreads.ready hroomy₁
        refine ⟨r, hr, fun d' hok => ?_⟩
        obtain ⟨items, hread⟩ := hread d' hok
        exact ⟨.dynamic header c items, hdynamic.symm,
          hread.taken hreads rfl ⟨hheader, hread.valid⟩ (fun _ => trivial) rfl⟩
  · rw [if_neg hdynamic]
    exact ⟨_, rfl, fun d' hok => by cases hok⟩

/-- A block is read back. -/
theorem inflateBlock_eq (h : Ready d) (hover : d.overflow = false) {b : Block}
    {rest : List Bool} {out : List UInt8} {pos : Nat} (hvalid : b.Valid)
    (haligned : b.Aligned pos) (hpos : (pos + 3 + d.bits.length) % 8 = 0)
    (hbits : d.bits = b.body ++ rest) (hexpand : b.expand d.dest = some out)
    (hroom : out.length ≤ d.destLen) :
    ∃ d', inflateBlock b.type d = some (.ok d') ∧ At d d' rest out := by
  cases b with
  | stored pad data =>
      obtain rfl := Option.some.inj hexpand
      obtain ⟨d', hd', hat⟩ := storedBlock_eq h hover hvalid haligned hpos hbits hroom
      refine ⟨d', ?_, hat⟩
      rw [Block.type, inflateBlock, if_pos rfl, hd']
  | fixed items =>
      exact tinfInflateBlockData_eq blockTrees_fixed fixed_hasEnd h hover hvalid hbits hexpand
        hroom
  | dynamic header c items =>
      obtain ⟨hheader, hitems⟩ := hvalid
      rw [Block.body, List.append_assoc] at hbits
      obtain ⟨d₁, lt, dt, htrees, hb, hat⟩ := tinfDecodeTrees_eq hheader h hover hbits
      obtain ⟨d', hd', hat'⟩ := tinfInflateBlockData_eq hb hheader.endOfBlock hat.ready
        hat.overflow hitems hat.bits (by rw [hat.dest]; exact hexpand)
        (by rw [hat.destLen]; exact hroom)
      refine ⟨d', ?_, hat'.ready, hat'.bits, hat'.overflow, hat'.dest,
        hat'.destLen.trans hat.destLen⟩
      rw [Block.type, inflateBlock, if_neg (by decide), if_neg (by decide), if_pos rfl,
        tinfInflateDynamicBlock, htrees]
      exact hd'

theorem toBits_one {v : Nat} (hv : v < 2) : toBits 1 v = [decide (v ≠ 0)] := by
  rcases Nat.le_one_iff_eq_zero_or_eq_one.1 (Nat.le_of_lt_succ hv) with rfl | rfl <;> rfl

/-- A block has been read with the flag and the type before it. -/
structure Took (final : Bool) (d d' : TinfData) (b : Block) : Prop where
  valid : b.Valid
  aligned : ∀ pos, (pos + d.bits.length) % 8 = 0 → b.Aligned pos
  expand : b.expand d.dest = some d'.dest
  bits : d.bits = b.bits final ++ d'.bits
  ready : Ready d'
  roomy : Roomy d'
  destLen : d'.destLen = d.destLen

/-- What a turn of the loop does. -/
def TurnMeets (d : TinfData) : TinfData ⊕ Except TinfError (List UInt8) → Prop
  | .inl d' => ∃ b, Took false d d' b
  | .inr (.ok out) => ∃ d' b, Took true d d' b ∧ d'.dest = out
  | .inr (.error _) => True

/-- A turn of the loop reads a block. -/
theorem uncompressStep_spec (h : Ready d) (hroomy : Roomy d) :
    ∃ r, uncompressStep d = some r ∧ TurnMeets d r := by
  obtain ⟨hv₁, hreads₁⟩ := tinfGetbits_spec h 1
  obtain ⟨d₁, hd₁⟩ : ∃ d₁, d₁ = (tinfGetbits d 1).2 := ⟨_, rfl⟩
  obtain ⟨v, hv⟩ : ∃ v, v = (tinfGetbits d 1).1 := ⟨_, rfl⟩
  rw [← hd₁, ← hv] at hreads₁
  rw [← hv] at hv₁
  obtain ⟨-, hreads₂⟩ := tinfGetbits_spec hreads₁.ready 2
  obtain ⟨d₂, hd₂⟩ : ∃ d₂, d₂ = (tinfGetbits d₁ 2).2 := ⟨_, rfl⟩
  rw [← hd₂] at hreads₂
  have hreads := hreads₁.trans hreads₂
  have hroomy₂ : Roomy d₂ := by
    rw [Roomy, hreads.dest, hreads.destLen]
    exact hroomy
  obtain ⟨r, hr, hblock⟩ := inflateBlock_spec (tinfGetbits d₁ 2).1 hreads.ready hroomy₂
  simp only [uncompressStep, ← hd₁, ← hd₂, ← hv, hr]
  cases r with
  | error e => exact ⟨_, rfl, trivial⟩
  | ok d' =>
      obtain ⟨b, htype, htaken⟩ := hblock d' rfl
      obtain ⟨hbits, -⟩ := hreads.took htaken.overflow
      have htook : Took (decide (v ≠ 0)) d d' b := {
        valid := htaken.valid
        aligned := fun pos hpos => by
          refine htaken.aligned pos ?_
          rw [hbits, List.length_append, List.length_append, toBits_length, toBits_length,
            ← Nat.add_assoc] at hpos
          exact hpos
        expand := by
          rw [← hreads.dest]
          exact htaken.expand
        bits := by
          rw [hbits, toBits_one hv₁, htaken.bits, Block.bits, htype]
          rw [List.append_assoc, List.singleton_append, List.cons_append, List.append_assoc]
        ready := htaken.ready
        roomy := htaken.roomy
        destLen := htaken.destLen.trans hreads.destLen }
      by_cases hfinal : v = 0
      · have hflag : decide (v ≠ 0) = false := by simp [hfinal]
        rw [hflag] at htook
        simp only [if_pos hfinal]
        exact ⟨_, rfl, b, htook⟩
      · have hflag : decide (v ≠ 0) = true := by simp [hfinal]
        rw [hflag] at htook
        simp only [if_neg hfinal, htaken.overflow', Bool.false_eq_true, if_false]
        exact ⟨_, rfl, d', b, htook, rfl⟩

theorem tinfGetbits_at (h : Ready d) (hover : d.overflow = false) {num v : Nat}
    {rest : List Bool} (hv : v < 2 ^ num) (hbits : d.bits = toBits num v ++ rest) :
    (tinfGetbits d num).1 = v ∧ At d (tinfGetbits d num).2 rest d.dest := by
  obtain ⟨hval, hrest, ho⟩ := tinfGetbits_eq h hbits hv
  obtain ⟨_, hreads⟩ := tinfGetbits_spec h num
  exact ⟨hval, hreads.ready, hrest, ho.trans hover, hreads.dest, hreads.destLen⟩

/-- A turn of the loop reads a block back. -/
theorem uncompressStep_eq (h : Ready d) (hover : d.overflow = false) {b : Block} {final : Bool}
    {rest : List Bool} {out : List UInt8} {pos : Nat} (hvalid : b.Valid)
    (haligned : b.Aligned pos) (hpos : (pos + d.bits.length) % 8 = 0)
    (hbits : d.bits = b.bits final ++ rest) (hexpand : b.expand d.dest = some out)
    (hroom : out.length ≤ d.destLen) :
    ∃ d', At d d' rest out ∧
      uncompressStep d = some (if final then .inr (.ok out) else .inl d') := by
  have hflag : d.bits = toBits 1 final.toNat ++ (toBits 2 b.type ++ (b.body ++ rest)) := by
    rw [hbits, Block.bits, List.cons_append, List.append_assoc]
    cases final <;> rfl
  have hfinal : final.toNat < 2 ^ 1 := by
    cases final <;> decide
  obtain ⟨hval₁, hat₁⟩ := tinfGetbits_at h hover hfinal hflag
  obtain ⟨hval₂, hat₂⟩ := tinfGetbits_at hat₁.ready hat₁.overflow b.type_lt hat₁.bits
  have hpos₂ : (pos + 3 + (tinfGetbits (tinfGetbits d 1).2 2).2.bits.length) % 8 = 0 := by
    rw [hflag, List.length_append, List.length_append, toBits_length, toBits_length] at hpos
    rw [hat₂.bits]
    omega
  obtain ⟨d', hd', hat⟩ := inflateBlock_eq hat₂.ready hat₂.overflow hvalid haligned hpos₂
    hat₂.bits (by rw [hat₂.dest, hat₁.dest]; exact hexpand)
    (by rw [hat₂.destLen, hat₁.destLen]; exact hroom)
  refine ⟨d', ⟨hat.ready, hat.bits, hat.overflow, hat.dest, ?_⟩, ?_⟩
  · rw [hat.destLen, hat₂.destLen, hat₁.destLen]
  · simp only [uncompressStep, hval₁, hval₂, hd', hat.overflow, hat.dest]
    cases final <;> rfl

/-- Every turn takes bits, so the loop ends. -/
theorem uncompressRun_returns {fuel : Nat} (h : Ready d) (hroomy : Roomy d)
    (hfuel : d.bits.length < fuel) : ∃ r, FuelLoop.run uncompressStep fuel d = some r := by
  refine FuelLoop.run_total (fun s => Ready s ∧ Roomy s) (fun s => s.bits.length) ?_
    ⟨h, hroomy⟩ hfuel
  rintro s ⟨hs, hsroomy⟩
  obtain ⟨r, hr, hmeets⟩ := uncompressStep_spec hs hsroomy
  match r with
  | .inr r => exact .inl ⟨r, hr⟩
  | .inl s' =>
      obtain ⟨b, htook⟩ := hmeets
      refine .inr ⟨s', hr, ⟨htook.ready, htook.roomy⟩, ?_⟩
      rw [htook.bits, Block.bits, List.length_append, List.length_cons]
      omega

/-- What the loop accepts is a stream. -/
theorem uncompressRun_sound {fuel pos : Nat} {out : List UInt8} (h : Ready d) (hroomy : Roomy d)
    (hpos : (pos + d.bits.length) % 8 = 0)
    (hrun : FuelLoop.run uncompressStep fuel d = some (.ok out)) :
    ∃ blocks, blocks ≠ [] ∧ StreamValid pos blocks ∧ streamBits blocks <+: d.bits ∧
      blocks.foldlM Block.expand d.dest = some out ∧ out.length ≤ d.destLen := by
  induction fuel generalizing d pos with
  | zero => cases hrun
  | succ fuel ih =>
      obtain ⟨r, hr, hmeets⟩ := uncompressStep_spec h hroomy
      rw [FuelLoop.run, hr] at hrun
      cases r with
      | inl d' =>
          obtain ⟨b, htook⟩ := hmeets
          have hpos' : (pos + (b.bits false).length + d'.bits.length) % 8 = 0 := by
            rw [htook.bits, List.length_append, ← Nat.add_assoc] at hpos
            exact hpos
          obtain ⟨blocks, hne, hvalid, hprefix, hexpand, hlen⟩ :=
            ih htook.ready htook.roomy hpos' hrun
          have hempty : blocks.isEmpty = false := by simpa using hne
          refine ⟨b :: blocks, List.cons_ne_nil _ _, ⟨htook.valid, htook.aligned pos hpos, ?_⟩,
            ?_, ?_, ?_⟩
          · rw [hempty]
            exact hvalid
          · rw [streamBits, hempty, htook.bits]
            exact (List.prefix_append_right_inj _).2 hprefix
          · rw [List.foldlM_cons, htook.expand]
            exact hexpand
          · rw [← htook.destLen]
            exact hlen
      | inr r =>
          cases r with
          | error e => cases hrun
          | ok out' =>
              obtain rfl : out' = out := Except.ok.inj (Option.some.inj hrun)
              obtain ⟨d', b, htook, rfl⟩ := hmeets
              refine ⟨[b], List.cons_ne_nil _ _, ⟨htook.valid, htook.aligned pos hpos, trivial⟩,
                ?_, ?_, ?_⟩
              · rw [streamBits, streamBits, List.append_nil, htook.bits]
                exact List.prefix_append _ _
              · rw [List.foldlM_cons, htook.expand]
                rfl
              · rw [← htook.destLen]
                exact htook.roomy

/-- A stream that has been written is read back. -/
theorem uncompressRun_eq {blocks : List Block} {fuel pos : Nat} {rest : List Bool}
    {out : List UInt8} (h : Ready d) (hover : d.overflow = false) (hne : blocks ≠ [])
    (hvalid : StreamValid pos blocks) (hpos : (pos + d.bits.length) % 8 = 0)
    (hbits : d.bits = streamBits blocks ++ rest)
    (hexpand : blocks.foldlM Block.expand d.dest = some out) (hroom : out.length ≤ d.destLen)
    (hfuel : blocks.length ≤ fuel) :
    FuelLoop.run uncompressStep fuel d = some (.ok out) := by
  induction blocks generalizing d fuel pos with
  | nil => exact absurd rfl hne
  | cons b blocks ih =>
      obtain ⟨fuel, rfl⟩ : ∃ n, fuel = n + 1 :=
        ⟨fuel - 1, by rw [List.length_cons] at hfuel; omega⟩
      obtain ⟨hb, haligned, hvalid⟩ := hvalid
      rw [streamBits, List.append_assoc] at hbits
      rw [List.foldlM_cons] at hexpand
      obtain ⟨mid, hmid, hexpand⟩ := Option.bind_eq_some_iff.1 hexpand
      obtain ⟨d', hat, hstep⟩ := uncompressStep_eq h hover hb haligned hpos hbits hmid
        ((blocks_length_le hexpand).trans hroom)
      rw [FuelLoop.run, hstep]
      cases hblocks : blocks.isEmpty with
      | true =>
          obtain rfl := List.isEmpty_iff.1 hblocks
          obtain rfl : mid = out := Option.some.inj hexpand
          rfl
      | false =>
          have hpos' : (pos + (b.bits blocks.isEmpty).length + d'.bits.length) % 8 = 0 := by
            rw [hat.bits, Nat.add_assoc, ← List.length_append, ← hbits]
            exact hpos
          exact ih hat.ready hat.overflow (by simpa using hblocks) hvalid hpos' hat.bits
            (by rw [hat.dest]; exact hexpand) (by rw [hat.destLen]; exact hroom)
            (Nat.le_of_succ_le_succ hfuel)

/-- The state that `tinf_uncompress` starts from. -/
theorem started_ready (destLen : Nat) (source : List UInt8) :
    Ready ⟨source, 0, 0, false, [], destLen⟩ :=
  ⟨⟨Nat.one_pos, fun ho => by cases ho⟩, Nat.succ_pos 7⟩

/-- `tinf_uncompress` stays within `source` and `dest`, and returns. -/
theorem tinfUncompress_returns (destLen : Nat) (source : List UInt8) :
    ∃ r, tinfUncompress destLen source = some r := by
  refine uncompressRun_returns (started_ready destLen source) (Nat.zero_le _) ?_
  rw [TinfData.bits, toBits, List.nil_append, bitsOf_length]
  exact Nat.lt_succ_self _

/-- `tinf_uncompress` accepts the streams whose bytes fit, and writes these bytes. -/
theorem tinfUncompress_ok (destLen : Nat) (source out : List UInt8) :
    tinfUncompress destLen source = some (.ok out) ↔
      Deflated source out ∧ out.length ≤ destLen := by
  have hready := started_ready destLen source
  have hpos : (0 + (TinfData.bits ⟨source, 0, 0, false, [], destLen⟩).length) % 8 = 0 := by
    rw [TinfData.bits, toBits, List.nil_append, bitsOf_length, Nat.zero_add]
    exact Nat.mul_mod_right 8 _
  constructor
  · intro hrun
    obtain ⟨blocks, hne, hvalid, hprefix, hexpand, hlen⟩ :=
      uncompressRun_sound hready (Nat.zero_le _) hpos hrun
    exact ⟨⟨blocks, hne, hvalid, hprefix, hexpand⟩, hlen⟩
  · rintro ⟨⟨blocks, hne, hvalid, ⟨rest, hrest⟩, hexpand⟩, hlen⟩
    refine uncompressRun_eq hready rfl hne hvalid hpos hrest.symm hexpand hlen ?_
    have hcount := streamBits_length_ge blocks
    have htotal := congrArg List.length hrest
    rw [List.length_append, bitsOf_length] at htotal
    omega

/-- A stream expands to one string only. -/
theorem deflated_unique {source out out' : List UInt8} (h : Deflated source out)
    (h' : Deflated source out') : out = out' := by
  have hok := (tinfUncompress_ok (out.length + out'.length) source out).2
    ⟨h, Nat.le_add_right _ _⟩
  have hok' := (tinfUncompress_ok (out.length + out'.length) source out').2
    ⟨h', Nat.le_add_left _ _⟩
  rw [hok] at hok'
  exact Except.ok.inj (Option.some.inj hok')

/-- `tinf_uncompress` returns, and accepts the streams whose bytes fit. -/
theorem tinfUncompress_spec (destLen : Nat) (source : List UInt8) :
    (∃ r, tinfUncompress destLen source = some r) ∧
      ∀ out, tinfUncompress destLen source = some (.ok out) ↔
        Deflated source out ∧ out.length ≤ destLen :=
  ⟨tinfUncompress_returns destLen source, tinfUncompress_ok destLen source⟩

end Inflate
end Cubiboot
