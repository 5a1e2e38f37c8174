import Cubiboot.Release.PicoLoader

/-!
# Nothing of a firmware or a payload is lost

`Lossless` says what an image has to have of the two.  It does exactly when no block of
the firmware says that it has more than `payloadSize` bytes, the payload ends where the
addresses do, and the counts of blocks fit in a word (`ImageFits`).

Results: `sizes_iff`, `payload_addresses_iff` and `image_returns_iff`, one for each of
the three conditions; `splitOf_pieces`, that the pieces of a payload follow each other
and make it up; `familyBlocks_image`, which blocks of the image are of a family, in
their order; and `uf2_lossless_iff`, for which firmwares and payloads nothing is lost.
-/

namespace Cubiboot
namespace Release

open Chunks

variable {firmware payload out : List UInt8} {blocks parsed : List Uf2Block} {fam : Nat}

/-- The addresses and the data of the blocks of a family. -/
def familyBlocks (fam : Nat) (blocks : List Uf2Block) : List (Nat × List UInt8) :=
  (blocks.filter fun b => b.fam = fam).map fun b => (b.addr, b.data)

/-- Blocks of data that follow each other in flash. -/
def Contiguous : Nat → List (Nat × List UInt8) → Prop
  | _, [] => True
  | base, piece :: pieces => piece.1 = base ∧ Contiguous (base + piece.2.length) pieces

/-- These are a payload. -/
structure SplitOf (payload : List UInt8) (pieces : List (Nat × List UInt8)) : Prop where
  places : Contiguous payloadBase pieces
  bytes : (pieces.map Prod.snd).flatten = payload

/-- An image that has all of the firmware and of the payload. -/
structure Lossless
    (blocks : List Uf2Block) (payload out : List UInt8) (parsed : List Uf2Block) : Prop where
  reads : parseUf2 out = some parsed
  keeps : ∀ fam, ∃ pieces, familyBlocks fam parsed = familyBlocks fam blocks ++ pieces ∧
    if fam ∈ families then SplitOf payload pieces else pieces = []
  numbers : ∀ fam, numbering fam out = (List.range (familyBlocks fam parsed).length).map
    fun i => (i, (familyBlocks fam parsed).length)

/-- The number of blocks of a family in the file of the firmware. -/
def firmwareCount (fam : Nat) (firmware : List UInt8) : Nat :=
  (chunks uf2Size firmware).countP fun blk => headerWord 7 blk = fam

/-- The number of blocks that the payload has for a family. -/
def payloadCount (fam : Nat) (payload : List UInt8) : Nat :=
  if fam ∈ families then (payload.length + payloadSize - 1) / payloadSize else 0

/-- What fits in an image. -/
structure ImageFits (firmware payload : List UInt8) : Prop where
  sizes : ∀ blk ∈ chunks uf2Size firmware, headerWord 4 blk ≤ payloadSize
  addresses : payload.length ≤ wordRange - payloadBase
  counts : ∀ fam, firmwareCount fam firmware + payloadCount fam payload < wordRange

/-- The blocks that are read from a file. -/
theorem parseUf2_blocks (h : parseUf2 firmware = some blocks) :
    List.Forall₂ (fun blk b => b.fam = headerWord 7 blk ∧
      b.data.length = min (headerWord 4 blk) 480 ∧ b.flags < wordRange ∧ b.addr < wordRange ∧
      b.fam < wordRange) (chunks uf2Size firmware) blocks := by
  rw [parseUf2_eq, Folds.mapM_some_iff] at h
  have hlength : ∀ blk ∈ chunks uf2Size firmware, blk.length = uf2Size := by
    intro blk hblk
    obtain ⟨i, hi, rfl⟩ := List.mem_map.1 hblk
    rw [List.mem_range] at hi
    refine chunk_length ?_
    simp only [uf2Size] at *
    omega
  rw [List.forall₂_iff_zip] at h ⊢
  refine ⟨h.1, fun {blk b} hmem => ?_⟩
  exact parseUf2Block_data (h.2 hmem) (hlength blk (List.of_mem_zip hmem).1)

theorem firmwareCount_eq (h : parseUf2 firmware = some blocks) (fam : Nat) :
    firmwareCount fam firmware = ofFamily fam blocks := by
  have hblocks := parseUf2_blocks h
  rw [firmwareCount, ofFamily]
  generalize chunks uf2Size firmware = blks at hblocks ⊢
  clear h
  induction hblocks with
  | nil => rfl
  | cons hb _ ih => rw [List.countP_cons, List.countP_cons, ih, hb.1]

theorem parseUf2_words (h : parseUf2 firmware = some blocks) :
    ∀ b ∈ blocks, b.flags < wordRange ∧ b.addr < wordRange ∧ b.fam < wordRange := by
  have hblocks := parseUf2_blocks h
  generalize chunks uf2Size firmware = blks at hblocks
  clear h
  induction hblocks with
  | nil => exact fun _ hb => absurd hb List.not_mem_nil
  | cons hb _ ih => exact List.forall_mem_cons.2 ⟨⟨hb.2.2.1, hb.2.2.2.1, hb.2.2.2.2⟩, ih⟩

/-- The sizes that the blocks have in the file say how much data is read. -/
theorem sizes_iff (h : parseUf2 firmware = some blocks) :
    (∀ blk ∈ chunks uf2Size firmware, headerWord 4 blk ≤ payloadSize) ↔
      ∀ b ∈ blocks, b.data.length ≤ payloadSize := by
  have hblocks := parseUf2_blocks h
  generalize chunks uf2Size firmware = blks at hblocks ⊢
  clear h
  induction hblocks with
  | nil =>
      exact iff_of_true (fun _ hb => absurd hb List.not_mem_nil)
        (fun _ hb => absurd hb List.not_mem_nil)
  | @cons blk b _ _ hb _ ih =>
      have hsize : headerWord 4 blk ≤ payloadSize ↔ b.data.length ≤ payloadSize := by
        rw [hb.2.1, payloadSize]
        omega
      rw [List.forall_mem_cons, List.forall_mem_cons]
      exact and_congr hsize ih

theorem familyBlocks_append (fam : Nat) (blocks blocks' : List Uf2Block) :
    familyBlocks fam (blocks ++ blocks') = familyBlocks fam blocks ++ familyBlocks fam blocks' := by
  rw [familyBlocks, List.filter_append, List.map_append]
  rfl

theorem familyBlocks_length (fam : Nat) (blocks : List Uf2Block) :
    (familyBlocks fam blocks).length = ofFamily fam blocks := by
  rw [familyBlocks, List.length_map, ← List.countP_eq_length_filter, ofFamily]

/-- What is stored of the blocks of a family. -/
theorem familyBlocks_stored (fam : Nat) (blocks : List Uf2Block) :
    familyBlocks fam (blocks.map Uf2Block.stored) =
      (familyBlocks fam blocks).map fun piece => (piece.1, piece.2.take payloadSize) := by
  rw [familyBlocks, List.filter_map, List.map_map, familyBlocks, List.map_map]
  rfl

/-- The pieces of the payload. -/
def payloadPieces (payload : List UInt8) : List (Nat × List UInt8) :=
  (List.range ((payload.length + payloadSize - 1) / payloadSize)).map fun i =>
    (payloadBase + i * payloadSize, chunk payloadSize i payload)

theorem mem_familyPayload {b : Uf2Block} (h : b ∈ familyPayload payload fam) :
    b.flags = uf2FlagFamily ∧ b.fam = fam := by
  obtain ⟨i, _, rfl⟩ := List.mem_map.1 h
  exact ⟨rfl, rfl⟩

theorem familyBlocks_familyPayload (payload : List UInt8) (fam : Nat) :
    familyBlocks fam (familyPayload payload fam) = payloadPieces payload := by
  have hfilter : (familyPayload payload fam).filter (fun b => b.fam = fam) =
      familyPayload payload fam :=
    List.filter_eq_self.2 fun b hb => decide_eq_true (mem_familyPayload hb).2
  rw [familyBlocks, hfilter, familyPayload, List.map_map]
  rfl

theorem familyBlocks_familyPayload_ne {other : Nat} (h : other ≠ fam) :
    familyBlocks fam (familyPayload payload other) = [] := by
  have hfilter : (familyPayload payload other).filter (fun b => b.fam = fam) = [] := by
    refine List.filter_eq_nil_iff.2 fun b hb => ?_
    rw [(mem_familyPayload hb).2, decide_eq_true_eq]
    exact h
  rw [familyBlocks, hfilter, List.map_nil]

/-- A payload is there once for each chip. -/
theorem familyBlocks_flatMap (chips : List Nat) (hchips : chips.Nodup) :
    familyBlocks fam (chips.flatMap (familyPayload payload)) =
      if fam ∈ chips then payloadPieces payload else [] := by
  induction chips with
  | nil => rfl
  | cons chip chips ih =>
      obtain ⟨hnew, hnodup⟩ := List.nodup_cons.1 hchips
      rw [List.flatMap_cons, familyBlocks_append, ih hnodup]
      by_cases hchip : chip = fam
      · obtain rfl := hchip
        rw [familyBlocks_familyPayload, if_neg hnew, if_pos List.mem_cons_self, List.append_nil]
      · rw [familyBlocks_familyPayload_ne hchip, List.nil_append]
        refine if_congr ?_ rfl rfl
        rw [List.mem_cons]
        exact ⟨Or.inr, fun h => h.resolve_left fun heq => hchip heq.symm⟩

theorem familyBlocks_payload (payload : List UInt8) (fam : Nat) :
    familyBlocks fam (makePayloadBlocks payload) =
      if fam ∈ families then payloadPieces payload else [] :=
  familyBlocks_flatMap families (by decide)

theorem payloadCount_eq (payload : List UInt8) (fam : Nat) :
    payloadCount fam payload = ofFamily fam (makePayloadBlocks payload) := by
  rw [← familyBlocks_length, familyBlocks_payload, payloadCount]
  split
  · rw [payloadPieces, List.length_map, List.length_range]
  · rfl

/-- The pieces follow each other: only the last one can be short. -/
theorem contiguous_pieces (k m : Nat)
    (h : ∀ i, k ≤ i → i + 1 < k + m → (i + 1) * payloadSize ≤ payload.length) :
    Contiguous (payloadBase + k * payloadSize) ((List.range' k m).map fun i =>
      (payloadBase + i * payloadSize, chunk payloadSize i payload)) := by
  induction m generalizing k with
  | zero => exact trivial
  | succ m ih =>
      rw [List.range'_succ, List.map_cons]
      refine ⟨rfl, ?_⟩
      cases m with
      | zero => exact trivial
      | succ m =>
          have hnext : payloadBase + k * payloadSize + (chunk payloadSize k payload).length =
              payloadBase + (k + 1) * payloadSize := by
            rw [chunk_length (h k (Nat.le_refl k) (by omega)), Nat.succ_mul, Nat.add_assoc]
          rw [hnext]
          exact ih (k + 1) fun i hi hlt => h i (by omega) (by omega)

theorem splitOf_pieces (payload : List UInt8) : SplitOf payload (payloadPieces payload) where
  places := by
    rw [payloadPieces, List.range_eq_range']
    refine contiguous_pieces 0 _ fun i _ hi => ?_
    simp only [payloadSize] at *
    omega
  bytes := by
    rw [payloadPieces, List.map_map]
    refine chunks_cover ?_
    simp only [payloadSize]
    omega

/-- The pieces are as large as a block of the image. -/
theorem payloadPieces_stored (payload : List UInt8) :
    (payloadPieces payload).map (fun piece => (piece.1, piece.2.take payloadSize)) =
      payloadPieces payload := by
  rw [payloadPieces, List.map_map]
  refine List.map_congr_left fun i _ => Prod.ext rfl ?_
  exact List.take_of_length_le chunk_length_le

theorem ofFamily_append (fam : Nat) (blocks blocks' : List Uf2Block) :
    ofFamily fam (blocks ++ blocks') = ofFamily fam blocks + ofFamily fam blocks' :=
  List.countP_append

theorem imageCount_eq (h : parseUf2 firmware = some blocks) (payload : List UInt8) (fam : Nat) :
    ofFamily fam (blocks ++ makePayloadBlocks payload) =
      firmwareCount fam firmware + payloadCount fam payload := by
  rw [ofFamily_append, ← firmwareCount_eq h, ← payloadCount_eq]

/-- The addresses of the payload are words. -/
theorem payload_addresses_iff (payload : List UInt8) :
    (∀ b ∈ makePayloadBlocks payload, b.addr < wordRange) ↔
      payload.length ≤ wordRange - payloadBase := by
  constructor
  · intro h
    by_contra hlong
    let last := (payload.length + payloadSize - 1) / payloadSize - 1
    have hlast : payloadBase + last * payloadSize < wordRange := by
      refine h ⟨uf2FlagFamily, payloadBase + last * payloadSize, 0xE48BFF56,
        chunk payloadSize last payload⟩ (List.mem_flatMap.2 ⟨_, List.mem_cons_self, ?_⟩)
      refine List.mem_map.2 ⟨last, List.mem_range.2 ?_, rfl⟩
      simp only [last, payloadSize, wordRange, payloadBase] at *
      omega
    simp only [last, payloadSize, wordRange, payloadBase] at *
    omega
  · intro h b hb
    obtain ⟨chip, _, hb⟩ := List.mem_flatMap.1 hb
    obtain ⟨i, hi, rfl⟩ := List.mem_map.1 hb
    rw [List.mem_range] at hi
    simp only [payloadSize, wordRange, payloadBase] at *
    omega

theorem image_words (h : parseUf2 firmware = some blocks) (payload : List UInt8) :
    ∀ b ∈ blocks ++ makePayloadBlocks payload, b.flags < wordRange ∧ b.fam < wordRange := by
  intro b hb
  rcases List.mem_append.1 hb with hb | hb
  · obtain ⟨hflags, _, hfam⟩ := parseUf2_words h b hb
    exact ⟨hflags, hfam⟩
  · obtain ⟨chip, hchip, hb⟩ := List.mem_flatMap.1 hb
    obtain ⟨hflags, hfam⟩ := mem_familyPayload hb
    have hchips : ∀ chip ∈ families, chip < wordRange := by decide
    rw [hflags, hfam]
    exact ⟨by decide, hchips chip hchip⟩

/-- When there is an image. -/
theorem image_returns_iff (h : parseUf2 firmware = some blocks) (payload : List UInt8) :
    (∃ out, emit (blocks ++ makePayloadBlocks payload) = some out) ↔
      payload.length ≤ wordRange - payloadBase ∧
        ∀ fam, firmwareCount fam firmware + payloadCount fam payload < wordRange := by
  rw [emit_returns_iff (image_words h payload), ← payload_addresses_iff]
  simp only [imageCount_eq h]
  constructor
  · intro hall
    refine ⟨fun b hb => (hall b (List.mem_append_right _ hb)).1, fun fam => ?_⟩
    by_cases hnone : ofFamily fam (blocks ++ makePayloadBlocks payload) = 0
    · rw [← imageCount_eq h, hnone]
      decide
    · obtain ⟨b, hb, hfam⟩ := List.countP_pos_iff.1 (Nat.pos_of_ne_zero hnone)
      rw [← of_decide_eq_true hfam]
      exact (hall b hb).2
  · rintro ⟨haddr, hcounts⟩ b hb
    refine ⟨?_, hcounts b.fam⟩
    rcases List.mem_append.1 hb with hb | hb
    · exact (parseUf2_words h b hb).2.1
    · exact haddr b hb

/-- What an image has of each family. -/
theorem familyBlocks_image (blocks : List Uf2Block) (payload : List UInt8) (fam : Nat) :
    familyBlocks fam ((blocks ++ makePayloadBlocks payload).map Uf2Block.stored) =
      (familyBlocks fam blocks).map (fun piece => (piece.1, piece.2.take payloadSize)) ++
        if fam ∈ families then payloadPieces payload else [] := by
  rw [familyBlocks_stored, familyBlocks_append, List.map_append, familyBlocks_payload]
  split
  · rw [payloadPieces_stored]
  · rfl

/-- When nothing is lost, no block of the firmware is cut off. -/
theorem Lossless.sizes (h : Lossless blocks payload out parsed)
    (hemit : emit (blocks ++ makePayloadBlocks payload) = some out) :
    ∀ b ∈ blocks, b.data.length ≤ payloadSize := by
  intro b hb
  obtain rfl := Option.some.inj ((parseUf2_emit hemit).symm.trans h.reads)
  obtain ⟨pieces, hpieces, _⟩ := h.keeps b.fam
  rw [familyBlocks_image] at hpieces
  have hsame := (List.append_inj hpieces (List.length_map _)).1
  have hpiece : (b.addr, b.data) ∈ familyBlocks b.fam blocks :=
    List.mem_map_of_mem (List.mem_filter.2 ⟨hb, by simp⟩)
  have htake : b.data.take payloadSize = b.data := by
    have hkept := List.map_eq_map_iff.1 (hsame.trans (List.map_id _).symm) _ hpiece
    exact congrArg Prod.snd hkept
  rw [← htake, List.length_take]
  exact Nat.min_le_left _ _

/--
An image of a firmware and a payload is made and loses nothing exactly when both fit: no
block of the firmware has more than `payloadSize` bytes.
-/
theorem uf2_lossless_iff (h : parseUf2 firmware = some blocks) (payload : List UInt8) :
    (∃ out parsed, emit (blocks ++ makePayloadBlocks payload) = some out ∧
        Lossless blocks payload out parsed) ↔
      ImageFits firmware payload := by
  constructor
  · rintro ⟨out, parsed, hemit, hlossless⟩
    obtain ⟨haddresses, hcounts⟩ := (image_returns_iff h payload).1 ⟨out, hemit⟩
    exact ⟨(sizes_iff h).2 (hlossless.sizes hemit), haddresses, hcounts⟩
  · intro hfits
    obtain ⟨out, hemit⟩ := (image_returns_iff h payload).2 ⟨hfits.addresses, hfits.counts⟩
    refine ⟨out, _, hemit, parseUf2_emit hemit, fun fam => ?_, fun fam => ?_⟩
    · have hkept : (familyBlocks fam blocks).map
          (fun piece => (piece.1, piece.2.take payloadSize)) = familyBlocks fam blocks := by
        refine (List.map_congr_left fun piece hpiece => ?_).trans (List.map_id _)
        obtain ⟨b, hb, rfl⟩ := List.mem_map.1 hpiece
        have hsize := (sizes_iff h).1 hfits.sizes b (List.mem_of_mem_filter hb)
        exact Prod.ext rfl (List.take_of_length_le hsize)
      refine ⟨_, by rw [familyBlocks_image, hkept], ?_⟩
      split
      · exact splitOf_pieces payload
      · rfl
    · have hcount : (familyBlocks fam
          ((blocks ++ makePayloadBlocks payload).map Uf2Block.stored)).length =
          ofFamily fam (blocks ++ makePayloadBlocks payload) := by
        rw [familyBlocks_stored, List.length_map, familyBlocks_length]
      rw [numbering_emit hemit, hcount]

/-- A block of `n` bytes for the first chip. -/
def sampleBlock (n : Nat) : Uf2Block where
  flags := uf2FlagFamily
  addr := 0x10000000
  fam := 0xE48BFF56
  data := List.replicate n 7

/-- A firmware of one such block. -/
theorem parseUf2_sample {n : Nat} (hn : n ≤ 476) :
    parseUf2 (uf2Bytes (sampleBlock n) n 0 1) = some [sampleBlock n] := by
  have hfits : HeaderFits (sampleBlock n) n 0 1 := by
    intro w hw
    simp only [headerOf, sampleBlock, List.mem_cons, List.not_mem_nil, or_false] at hw
    simp only [uf2Magic0, uf2Magic1, uf2FlagFamily, wordRange] at *
    omega
  have hlength : (sampleBlock n).data.length = n := List.length_replicate
  rw [parseUf2_uf2Bytes hfits hlength.ge (hlength.trans_le hn),
    List.take_of_length_le hlength.le]

/-- A full block and a payload of three bytes fit. -/
theorem imageFits_sample : ImageFits (uf2Bytes (sampleBlock 256) 256 0 1) [1, 2, 3] where
  sizes := by decide +kernel
  addresses := by decide
  counts fam := by
    have hone : (chunks uf2Size (uf2Bytes (sampleBlock 256) 256 0 1)).length = 1 := by
      decide +kernel
    have hfirmware : firmwareCount fam (uf2Bytes (sampleBlock 256) 256 0 1) ≤ 1 :=
      List.countP_le_length.trans_eq hone
    have hpayload : payloadCount fam [1, 2, 3] ≤ 1 := by
      rw [payloadCount]
      split <;> decide
    rw [wordRange]
    omega

/-- Full blocks and a payload that ends in a short one. -/
theorem uf2_lossless_sample :
    ∃ out parsed, emit ([sampleBlock 256] ++ makePayloadBlocks [1, 2, 3]) = some out ∧
      Lossless [sampleBlock 256] [1, 2, 3] out parsed :=
  (uf2_lossless_iff (parseUf2_sample (by decide)) [1, 2, 3]).2 imageFits_sample

/-- A firmware with a block of 300 bytes is read, and an image of it has 256 of them. -/
theorem large_block_is_cut :
    parseUf2 (uf2Bytes (sampleBlock 300) 300 0 1) = some [sampleBlock 300] ∧
      (∃ out, emit ([sampleBlock 300] ++ makePayloadBlocks []) = some out) ∧
      ¬ ∃ out parsed, emit ([sampleBlock 300] ++ makePayloadBlocks []) = some out ∧
        Lossless [sampleBlock 300] [] out parsed := by
  have hparse : parseUf2 (uf2Bytes (sampleBlock 300) 300 0 1) = some [sampleBlock 300] :=
    parseUf2_sample (by decide)
  refine ⟨hparse, ?_, ?_⟩
  · refine (emit_returns_iff (image_words hparse [])).2 fun b hb => ?_
    obtain rfl := List.mem_singleton.1 hb
    decide
  · rintro ⟨out, parsed, hemit, hlossless⟩
    have hsize := hlossless.sizes hemit _ List.mem_cons_self
    rw [sampleBlock, List.length_replicate] at hsize
    exact absurd hsize (by decide)

end Release
end Cubiboot
