import Cubiboot.Foundations.Chunks
import Mathlib.Data.Nat.Bitwise

/-!
# UF2 images

`parse_uf2`, `make_payload_blocks` and `emit` of `make_picoloader_uf2.py`.  A result of
`none` is an exception: a bad magic, or a number that does not fit in a word.

A block has a header of eight words, 476 bytes for its data and a magic word at its end
(`uf2Bytes`).  What `emit` writes for a block is read as that block with its data cut off
at `payloadSize` bytes (`Uf2Block.stored`).

Results: `headerWord_uf2Bytes`, the words of the header of a block;
`parseUf2Block_uf2Bytes`, that a block is read as it was written, up to the size that it
says it has; and `parseUf2Block_data`, what any block that is accepted has.
-/

namespace Cubiboot
namespace Release

open Chunks

def uf2Magic0 : Nat := 0x0A324655
def uf2Magic1 : Nat := 0x9E5D5157
def uf2MagicEnd : Nat := 0x0AB16F30
def uf2FlagFamily : Nat := 0x00002000

/-- The bytes of the payload in a block. -/
def payloadSize : Nat := 256

/-- Where the payload is in flash. -/
def payloadBase : Nat := 0x10031000

/-- The chips, RP2040 and RP2350. -/
def families : List Nat := [0xE48BFF56, 0xE48BFF59]

/-- The size of a block in a file. -/
def uf2Size : Nat := 512

/-- The numbers that `struct.pack` takes for an `I`. -/
def wordRange : Nat := 0x100000000

/-- A block, as the program has it. -/
structure Uf2Block where
  flags : Nat
  addr : Nat
  fam : Nat
  data : List UInt8

/-- Word `i` of `struct.unpack_from("<8I", blk, 0)`. -/
def headerWord (i : Nat) (blk : List UInt8) : Nat :=
  ofBytes (chunk 4 i blk)

/-- One block of `parse_uf2`. -/
def parseUf2Block (blk : List UInt8) : Option Uf2Block :=
  if headerWord 0 blk ≠ uf2Magic0 ∨ headerWord 1 blk ≠ uf2Magic1 then
    none
  else
    some
      { flags := headerWord 2 blk
        addr := headerWord 3 blk
        fam := headerWord 7 blk
        data := (blk.drop 32).take (headerWord 4 blk) }

/-- The loop of `parse_uf2`.  A block that is cut off ends it. -/
def parseUf2Loop (data : List UInt8) : List Nat → Option (List Uf2Block)
  | [] => some []
  | off :: offs =>
      let blk := (data.drop off).take uf2Size
      if blk.length < uf2Size then
        some []
      else
        (parseUf2Block blk).bind fun b =>
          (parseUf2Loop data offs).map fun blocks => b :: blocks

/-- `parse_uf2`. -/
def parseUf2 (data : List UInt8) : Option (List Uf2Block) :=
  parseUf2Loop data
    ((List.range ((data.length + uf2Size - 1) / uf2Size)).map fun i => i * uf2Size)

/-- The blocks of the payload for one family. -/
def familyPayload (payload : List UInt8) (fam : Nat) : List Uf2Block :=
  let nblk := (payload.length + payloadSize - 1) / payloadSize
  (List.range nblk).map fun i =>
    { flags := uf2FlagFamily
      addr := payloadBase + i * payloadSize
      fam := fam
      data := chunk payloadSize i payload }

/-- `make_payload_blocks`. -/
def makePayloadBlocks (payload : List UInt8) : List Uf2Block :=
  families.flatMap (familyPayload payload)

/-- `struct.pack` of words. -/
def packWords (ws : List Nat) : Option (List UInt8) :=
  if ∀ w ∈ ws, w < wordRange then some (ws.map (toBytes 4)).flatten else none

/-- `counts` of `emit`. -/
def countFamilies (blocks : List Uf2Block) : Nat → Nat :=
  blocks.foldl
    (fun counts b => Function.update counts b.fam (counts b.fam + 1)) (fun _ => 0)

/-- The variables of `emit` in its second loop. -/
structure EmitState where
  idx : Nat → Nat
  out : List UInt8

/-- One pass of it. -/
def emitBlock (counts : Nat → Nat) (s : EmitState) (b : Uf2Block) : Option EmitState :=
  let fam := b.fam
  let bno := s.idx fam
  let idx := Function.update s.idx fam (bno + 1)
  let data := b.data.take payloadSize
  (packWords
    [uf2Magic0, uf2Magic1, b.flags ||| uf2FlagFamily, b.addr, data.length, bno, counts fam,
      fam]).bind fun header =>
    (packWords [uf2MagicEnd]).bind fun tail =>
      let blk := header ++ (data ++ List.replicate (476 - data.length) 0) ++ tail
      if blk.length = uf2Size then some ⟨idx, s.out ++ blk⟩ else none

/-- `emit`. -/
def emit (blocks : List Uf2Block) : Option (List UInt8) :=
  (blocks.foldlM (emitBlock (countFamilies blocks)) ⟨fun _ => 0, []⟩).map EmitState.out

/-- The words of a header. -/
def headerOf (b : Uf2Block) (size bno nblk : Nat) : List Nat :=
  [uf2Magic0, uf2Magic1, b.flags, b.addr, size, bno, nblk, b.fam]

/-- A block in a file. -/
def uf2Bytes (b : Uf2Block) (size bno nblk : Nat) : List UInt8 :=
  ((headerOf b size bno nblk).map (toBytes 4)).flatten ++
    (b.data ++ List.replicate (476 - b.data.length) 0) ++ toBytes 4 uf2MagicEnd

/-- Every word of the header is a word. -/
def HeaderFits (b : Uf2Block) (size bno nblk : Nat) : Prop :=
  ∀ w ∈ headerOf b size bno nblk, w < wordRange

/-- What is kept of a block. -/
def Uf2Block.stored (b : Uf2Block) : Uf2Block :=
  { b with flags := b.flags ||| uf2FlagFamily, data := b.data.take payloadSize }

section Blocks

variable {b : Uf2Block} {size bno nblk : Nat} {blk : List UInt8}

theorem headerWord_lt (i : Nat) (blk : List UInt8) : headerWord i blk < wordRange := by
  have hlt := ofBytes_lt (chunk 4 i blk)
  have hle : 256 ^ (chunk 4 i blk).length ≤ 256 ^ 4 :=
    Nat.pow_le_pow_right (by decide) chunk_length_le
  exact Nat.lt_of_lt_of_le hlt hle

theorem header_bytes_length (b : Uf2Block) (size bno nblk : Nat) :
    ((headerOf b size bno nblk).map (toBytes 4)).flatten.length = 32 := by
  rw [length_flatten_of (c := 4) fun l hl => ?_, List.length_map]
  · rfl
  · obtain ⟨w, _, rfl⟩ := List.mem_map.1 hl
    exact toBytes_length 4 w

theorem uf2Bytes_length (h : b.data.length ≤ 476) :
    (uf2Bytes b size bno nblk).length = uf2Size := by
  rw [uf2Bytes, List.length_append, List.length_append, List.length_append,
    header_bytes_length, toBytes_length, List.length_replicate, uf2Size]
  omega

theorem headerWord_uf2Bytes (h : HeaderFits b size bno nblk) {i w : Nat}
    (hw : (headerOf b size bno nblk)[i]? = some w) :
    headerWord i (uf2Bytes b size bno nblk) = w := by
  have hblocks : ∀ l ∈ (headerOf b size bno nblk).map (toBytes 4), l.length = 4 := by
    intro l hl
    obtain ⟨v, _, rfl⟩ := List.mem_map.1 hl
    exact toBytes_length 4 v
  rw [headerWord, uf2Bytes, List.append_assoc,
    chunk_flatten_append hblocks (by rw [List.getElem?_map, hw, Option.map_some])]
  exact ofBytes_toBytes (h w (List.mem_of_getElem? hw))

/-- A block is read as it was written, up to its size. -/
theorem parseUf2Block_uf2Bytes (h : HeaderFits b size bno nblk) (hsize : size ≤ b.data.length) :
    parseUf2Block (uf2Bytes b size bno nblk) = some { b with data := b.data.take size } := by
  have hword : ∀ i w, (headerOf b size bno nblk)[i]? = some w →
      headerWord i (uf2Bytes b size bno nblk) = w := fun _ _ => headerWord_uf2Bytes h
  have hdata : ((uf2Bytes b size bno nblk).drop 32).take size = b.data.take size := by
    rw [uf2Bytes, List.append_assoc, List.drop_left' (header_bytes_length b size bno nblk),
      List.append_assoc, List.take_append_of_le_length hsize]
  rw [parseUf2Block, hword 0 _ rfl, hword 1 _ rfl, hword 2 _ rfl, hword 3 _ rfl, hword 4 _ rfl,
    hword 7 _ rfl, hdata, if_neg]
  rintro (h | h) <;> exact h rfl

/-- What a file has for a block that is accepted. -/
theorem parseUf2Block_data (h : parseUf2Block blk = some b) (hlength : blk.length = uf2Size) :
    b.fam = headerWord 7 blk ∧ b.data.length = min (headerWord 4 blk) 480 ∧
      b.flags < wordRange ∧ b.addr < wordRange ∧ b.fam < wordRange := by
  rw [parseUf2Block] at h
  split at h
  · cases h
  · obtain rfl := Option.some.inj h
    refine ⟨rfl, ?_, headerWord_lt _ _, headerWord_lt _ _, headerWord_lt _ _⟩
    rw [List.length_take, List.length_drop, hlength]
    rfl

end Blocks

end Release
end Cubiboot
