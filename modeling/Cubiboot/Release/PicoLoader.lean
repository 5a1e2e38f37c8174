import Cubiboot.Foundations.Folds
import Cubiboot.Release.Uf2

/-!
# The PicoLoader image

What `emit` writes is read as the blocks that it was given, in their order, each as it is
stored; the blocks of a family are numbered as they follow each other.  The image of a
firmware and a payload has all of both exactly when no block of the firmware is larger
than `payloadSize`, the payload ends where the addresses do, and the numbers of blocks fit
in a word.

Results: `parseUf2_eq` and `parseUf2_emit`, the blocks that are read of a file and of an
image; `numbering_emit`, their numbers; `emit_returns_iff`, for which blocks there is an
image.
-/

namespace Cubiboot
namespace Release

open Chunks

variable {blocks : List Uf2Block} {data out : List UInt8} {fam : Nat}

theorem parseUf2Loop_chunks (data : List UInt8) (k m : Nat) :
    parseUf2Loop data ((List.range' k m).map fun i => i * uf2Size) =
      ((List.range' k (min m (data.length / uf2Size - k))).map
        fun i => chunk uf2Size i data).mapM parseUf2Block := by
  induction m generalizing k with
  | zero =>
      rw [Nat.zero_min]
      rfl
  | succ m ih =>
      rw [List.range'_succ, List.map_cons, parseUf2Loop]
      have hlength : ((data.drop (k * uf2Size)).take uf2Size).length =
          min uf2Size (data.length - k * uf2Size) := by
        rw [List.length_take, List.length_drop]
      by_cases hk : k < data.length / uf2Size
      · have hfull : ¬ ((data.drop (k * uf2Size)).take uf2Size).length < uf2Size := by
          rw [hlength]
          simp only [uf2Size] at *
          omega
        have hmin : min (m + 1) (data.length / uf2Size - k) =
            min m (data.length / uf2Size - (k + 1)) + 1 := by
          omega
        rw [if_neg hfull, ih, hmin, List.range'_succ, List.map_cons, Folds.mapM_cons]
        rfl
      · have hcut : ((data.drop (k * uf2Size)).take uf2Size).length < uf2Size := by
          rw [hlength]
          simp only [uf2Size] at *
          omega
        have hnone : min (m + 1) (data.length / uf2Size - k) = 0 := by
          omega
        rw [if_pos hcut, hnone]
        rfl

/-- The blocks of a file are its chunks; what is left at its end is not read. -/
theorem parseUf2_eq (data : List UInt8) :
    parseUf2 data = (chunks uf2Size data).mapM parseUf2Block := by
  have hmin : min ((data.length + uf2Size - 1) / uf2Size) (data.length / uf2Size - 0) =
      data.length / uf2Size := by
    simp only [uf2Size]
    omega
  rw [parseUf2, List.range_eq_range', parseUf2Loop_chunks, hmin, chunks, List.range_eq_range']

/-- A file of one block. -/
theorem parseUf2_uf2Bytes {b : Uf2Block} {size bno nblk : Nat} (h : HeaderFits b size bno nblk)
    (hsize : size ≤ b.data.length) (hdata : b.data.length ≤ 476) :
    parseUf2 (uf2Bytes b size bno nblk) = some [{ b with data := b.data.take size }] := by
  have hchunks : chunks uf2Size [uf2Bytes b size bno nblk].flatten =
      [uf2Bytes b size bno nblk] :=
    chunks_flatten (by decide) fun l hl => by
      rw [List.mem_singleton.1 hl]
      exact uf2Bytes_length hdata
  rw [List.flatten_singleton] at hchunks
  rw [parseUf2_eq, hchunks, Folds.mapM_cons, parseUf2Block_uf2Bytes h hsize]
  rfl

/-- The blocks with the numbers that they get. -/
def numbered : (Nat → Nat) → List Uf2Block → List (Uf2Block × Nat)
  | _, [] => []
  | idx, b :: blocks =>
      (b, idx b.fam) :: numbered (Function.update idx b.fam (idx b.fam + 1)) blocks

/-- A block with its number, in the file. -/
def written (counts : Nat → Nat) (e : Uf2Block × Nat) : List UInt8 :=
  uf2Bytes e.1.stored e.1.stored.data.length e.2 (counts e.1.fam)

/-- It can be written. -/
def WrittenFits (counts : Nat → Nat) (e : Uf2Block × Nat) : Prop :=
  HeaderFits e.1.stored e.1.stored.data.length e.2 (counts e.1.fam)

theorem stored_length (b : Uf2Block) : b.stored.data.length ≤ payloadSize := by
  rw [Uf2Block.stored, List.length_take]
  exact Nat.min_le_left _ _

theorem written_length (counts : Nat → Nat) (e : Uf2Block × Nat) :
    (written counts e).length = uf2Size :=
  uf2Bytes_length ((stored_length e.1).trans (by decide))

theorem emitBlock_iff {counts : Nat → Nat} {s s' : EmitState} {b : Uf2Block} :
    emitBlock counts s b = some s' ↔
      WrittenFits counts (b, s.idx b.fam) ∧
        s' = ⟨Function.update s.idx b.fam (s.idx b.fam + 1),
          s.out ++ written counts (b, s.idx b.fam)⟩ := by
  have hheader : packWords
      [uf2Magic0, uf2Magic1, b.flags ||| uf2FlagFamily, b.addr, (b.data.take payloadSize).length,
        s.idx b.fam, counts b.fam, b.fam] =
      packWords (headerOf b.stored b.stored.data.length (s.idx b.fam) (counts b.fam)) := rfl
  have htail : packWords [uf2MagicEnd] = some (toBytes 4 uf2MagicEnd) := by
    rw [packWords, if_pos (by decide), List.map_singleton, List.flatten_singleton]
  have hlength := written_length counts (b, s.idx b.fam)
  rw [emitBlock, hheader, packWords]
  by_cases hfits : WrittenFits counts (b, s.idx b.fam)
  · have hwords : ∀ w ∈ headerOf b.stored b.stored.data.length (s.idx b.fam) (counts b.fam),
        w < wordRange := hfits
    rw [if_pos hwords, Option.bind_some, htail, Option.bind_some]
    show (if (written counts (b, s.idx b.fam)).length = uf2Size then
        some ⟨Function.update s.idx b.fam (s.idx b.fam + 1),
          s.out ++ written counts (b, s.idx b.fam)⟩ else none) = some s' ↔ _
    rw [if_pos (written_length counts (b, s.idx b.fam)), Option.some_inj, and_iff_right hfits]
    exact eq_comm
  · have hwords : ¬ ∀ w ∈ headerOf b.stored b.stored.data.length (s.idx b.fam) (counts b.fam),
        w < wordRange := hfits
    rw [if_neg hwords, Option.bind_none]
    constructor
    · intro h
      cases h
    · exact fun h => absurd h.1 hfits

/-- The second loop of `emit`. -/
theorem emitLoop_iff {counts idx : Nat → Nat} {out' : List UInt8} :
    (blocks.foldlM (emitBlock counts) ⟨idx, out⟩).map EmitState.out = some out' ↔
      (∀ e ∈ numbered idx blocks, WrittenFits counts e) ∧
        out' = out ++ ((numbered idx blocks).map (written counts)).flatten := by
  induction blocks generalizing idx out with
  | nil =>
      rw [numbered, List.map_nil, List.flatten_nil, List.append_nil,
        and_iff_right (fun _ he => absurd he List.not_mem_nil)]
      exact Option.some_inj.trans eq_comm
  | cons b blocks ih =>
      rw [List.foldlM_cons, numbered, List.forall_mem_cons, List.map_cons, List.flatten_cons,
        and_assoc, ← List.append_assoc]
      by_cases hfits : WrittenFits counts (b, idx b.fam)
      · have hpass : emitBlock counts ⟨idx, out⟩ b =
            some ⟨Function.update idx b.fam (idx b.fam + 1),
              out ++ written counts (b, idx b.fam)⟩ := emitBlock_iff.2 ⟨hfits, rfl⟩
        rw [hpass, and_iff_right hfits]
        exact ih
      · have hpass : emitBlock counts ⟨idx, out⟩ b = none := by
          cases h : emitBlock counts ⟨idx, out⟩ b with
          | none => rfl
          | some s' => exact absurd (emitBlock_iff.1 h).1 hfits
        rw [hpass]
        constructor
        · intro h
          cases h
        · exact fun h => absurd h.1 hfits

theorem emit_iff :
    emit blocks = some out ↔
      (∀ e ∈ numbered (fun _ => 0) blocks, WrittenFits (countFamilies blocks) e) ∧
        out = ((numbered (fun _ => 0) blocks).map (written (countFamilies blocks))).flatten := by
  rw [emit, emitLoop_iff, List.nil_append]

theorem numbered_fst (idx : Nat → Nat) (blocks : List Uf2Block) :
    (numbered idx blocks).map Prod.fst = blocks := by
  induction blocks generalizing idx with
  | nil => rfl
  | cons b blocks ih => rw [numbered, List.map_cons, ih]

/-- How many blocks there are of a family. -/
def ofFamily (fam : Nat) (blocks : List Uf2Block) : Nat :=
  blocks.countP fun b => b.fam = fam

theorem ofFamily_cons_self (b : Uf2Block) (blocks : List Uf2Block) :
    ofFamily b.fam (b :: blocks) = ofFamily b.fam blocks + 1 :=
  List.countP_cons_of_pos (by simp)

theorem ofFamily_cons_ne {b : Uf2Block} (h : b.fam ≠ fam) :
    ofFamily fam (b :: blocks) = ofFamily fam blocks :=
  List.countP_cons_of_neg (by simpa using h)

/-- A family is numbered from where its counter is. -/
theorem numbered_family (idx : Nat → Nat) (blocks : List Uf2Block) (fam : Nat) :
    ((numbered idx blocks).filter fun e => e.1.fam = fam).map Prod.snd =
      List.range' (idx fam) (ofFamily fam blocks) := by
  induction blocks generalizing idx with
  | nil => rfl
  | cons b blocks ih =>
      by_cases hb : b.fam = fam
      · obtain rfl := hb
        rw [numbered, List.filter_cons_of_pos (by simp), List.map_cons, ih, ofFamily_cons_self,
          List.range'_succ, Function.update_self]
      · rw [numbered, List.filter_cons_of_neg (by simpa using hb), ih, ofFamily_cons_ne hb,
          Function.update_of_ne (fun h => hb h.symm)]

theorem numbered_lt {idx : Nat → Nat} {e : Uf2Block × Nat} (he : e ∈ numbered idx blocks) :
    e.2 < idx e.1.fam + ofFamily e.1.fam blocks := by
  have hmem : e.2 ∈ ((numbered idx blocks).filter fun e' => e'.1.fam = e.1.fam).map Prod.snd :=
    List.mem_map_of_mem (List.mem_filter.2 ⟨he, by simp⟩)
  rw [numbered_family, List.mem_range'_1] at hmem
  exact hmem.2

theorem countFamilies_eq (blocks : List Uf2Block) (fam : Nat) :
    countFamilies blocks fam = ofFamily fam blocks := by
  have hloop : ∀ (blocks : List Uf2Block) (counts : Nat → Nat),
      blocks.foldl (fun counts b => Function.update counts b.fam (counts b.fam + 1)) counts fam =
        counts fam + ofFamily fam blocks := by
    intro blocks
    induction blocks with
    | nil => exact fun _ => rfl
    | cons b blocks ih =>
        intro counts
        rw [List.foldl_cons, ih]
        by_cases hb : b.fam = fam
        · obtain rfl := hb
          rw [ofFamily_cons_self, Function.update_self]
          omega
        · rw [ofFamily_cons_ne hb, Function.update_of_ne (fun h => hb h.symm)]
  exact (hloop blocks _).trans (Nat.zero_add _)

theorem parseUf2Block_written {counts : Nat → Nat} {e : Uf2Block × Nat}
    (h : WrittenFits counts e) : parseUf2Block (written counts e) = some e.1.stored := by
  rw [written, parseUf2Block_uf2Bytes h (Nat.le_refl _), List.take_length]

theorem chunks_emit (h : emit blocks = some out) :
    chunks uf2Size out =
      (numbered (fun _ => 0) blocks).map (written (countFamilies blocks)) := by
  obtain ⟨_, rfl⟩ := emit_iff.1 h
  refine chunks_flatten (by decide) fun l hl => ?_
  obtain ⟨e, _, rfl⟩ := List.mem_map.1 hl
  exact written_length _ e

/-- An image is read as its blocks, as they are stored. -/
theorem parseUf2_emit (h : emit blocks = some out) :
    parseUf2 out = some (blocks.map Uf2Block.stored) := by
  obtain ⟨hfits, _⟩ := emit_iff.1 h
  have hblocks : (numbered (fun _ => 0) blocks).map (fun e => e.1.stored) =
      blocks.map Uf2Block.stored := by
    rw [← numbered_fst (fun _ => 0) blocks, List.map_map, numbered_fst]
    rfl
  rw [parseUf2_eq, chunks_emit h, List.mapM_map, ← hblocks]
  refine Folds.mapM_of_forall fun e he => ?_
  rw [Function.comp_apply, parseUf2Block_written (hfits e he)]

/-- The numbers and the counts that the blocks of a family have in a file. -/
def numbering (fam : Nat) (file : List UInt8) : List (Nat × Nat) :=
  ((chunks uf2Size file).filter fun blk => headerWord 7 blk = fam).map fun blk =>
    (headerWord 5 blk, headerWord 6 blk)

/-- The blocks of a family are numbered as they follow each other. -/
theorem numbering_emit (h : emit blocks = some out) (fam : Nat) :
    numbering fam out =
      (List.range (ofFamily fam blocks)).map fun i => (i, ofFamily fam blocks) := by
  obtain ⟨hfits, _⟩ := emit_iff.1 h
  have hword : ∀ e ∈ numbered (fun _ => 0) blocks, ∀ i w,
      (headerOf e.1.stored e.1.stored.data.length e.2 (countFamilies blocks e.1.fam))[i]? =
        some w → headerWord i (written (countFamilies blocks) e) = w :=
    fun e he _ _ => headerWord_uf2Bytes (hfits e he)
  have hfilter : (numbered (fun _ => 0) blocks).filter
      ((fun blk => decide (headerWord 7 blk = fam)) ∘ written (countFamilies blocks)) =
      (numbered (fun _ => 0) blocks).filter fun e => e.1.fam = fam := by
    refine List.filter_congr fun e he => ?_
    rw [Function.comp_apply, hword e he 7 _ rfl]
    rfl
  have hmap : ∀ e ∈ (numbered (fun _ => 0) blocks).filter fun e => e.1.fam = fam,
      (headerWord 5 (written (countFamilies blocks) e),
        headerWord 6 (written (countFamilies blocks) e)) = (e.2, ofFamily fam blocks) := by
    intro e he
    obtain ⟨hmem, hfam⟩ := List.mem_filter.1 he
    have hcount : countFamilies blocks e.1.fam = ofFamily fam blocks := by
      rw [countFamilies_eq, of_decide_eq_true hfam]
    rw [hword e hmem 5 _ rfl, hword e hmem 6 _ rfl, hcount]
  rw [numbering, chunks_emit h, List.filter_map, hfilter, List.map_map]
  calc ((numbered (fun _ => 0) blocks).filter fun e => e.1.fam = fam).map
        ((fun blk => (headerWord 5 blk, headerWord 6 blk)) ∘ written (countFamilies blocks))
      = (((numbered (fun _ => 0) blocks).filter fun e => e.1.fam = fam).map Prod.snd).map
          fun i => (i, ofFamily fam blocks) := by
        rw [List.map_map]
        exact List.map_congr_left hmap
    _ = _ := by
        rw [numbered_family, List.range_eq_range']

theorem writtenFits_iff {counts : Nat → Nat} {e : Uf2Block × Nat}
    (hflags : e.1.flags < wordRange) (hfam : e.1.fam < wordRange)
    (hbno : e.2 < counts e.1.fam) :
    WrittenFits counts e ↔ e.1.addr < wordRange ∧ counts e.1.fam < wordRange := by
  have hstored : e.1.flags ||| uf2FlagFamily < wordRange :=
    Nat.or_lt_two_pow (n := 32) hflags (by decide)
  have hlength : e.1.stored.data.length < wordRange :=
    Nat.lt_of_le_of_lt (stored_length e.1) (by decide)
  have hmagic : uf2Magic0 < wordRange ∧ uf2Magic1 < wordRange := by decide
  rw [WrittenFits, HeaderFits, headerOf]
  simp only [List.forall_mem_cons, List.not_mem_nil, false_implies, implies_true, and_true]
  constructor
  · rintro ⟨_, _, _, haddr, _, _, hcount, _⟩
    exact ⟨haddr, hcount⟩
  · rintro ⟨haddr, hcount⟩
    exact ⟨hmagic.1, hmagic.2, hstored, haddr, hlength, hbno.trans hcount, hcount, hfam⟩

/-- Addresses and counts are what can be too large for an image. -/
theorem emit_returns_iff
    (hwords : ∀ b ∈ blocks, b.flags < wordRange ∧ b.fam < wordRange) :
    (∃ out, emit blocks = some out) ↔
      ∀ b ∈ blocks, b.addr < wordRange ∧ ofFamily b.fam blocks < wordRange := by
  have hnumbered : (∀ e ∈ numbered (fun _ => 0) blocks, WrittenFits (countFamilies blocks) e) ↔
      ∀ e ∈ numbered (fun _ => 0) blocks,
        e.1.addr < wordRange ∧ ofFamily e.1.fam blocks < wordRange := by
    refine forall₂_congr fun e he => ?_
    have hmem : e.1 ∈ blocks := by
      rw [← numbered_fst (fun _ => 0) blocks]
      exact List.mem_map_of_mem he
    have hbno := numbered_lt he
    rw [Nat.zero_add, ← countFamilies_eq] at hbno
    rw [← countFamilies_eq]
    exact writtenFits_iff (hwords _ hmem).1 (hwords _ hmem).2 hbno
  simp only [emit_iff, exists_and_left, exists_eq, and_true, hnumbered]
  constructor
  · intro h b hb
    rw [← numbered_fst (fun _ => 0) blocks] at hb
    obtain ⟨e, he, rfl⟩ := List.mem_map.1 hb
    exact h e he
  · intro h e he
    refine h e.1 ?_
    rw [← numbered_fst (fun _ => 0) blocks]
    exact List.mem_map_of_mem he

end Release
end Cubiboot
