import Cubiboot.Foundations.CanonicalCode

/-!
# Deflate streams

What a stream of deflated data is, from the side of whoever writes it: blocks of items with
the bits that stand for them, and the bytes that they expand to.  Nothing here decodes.

A stored block starts at a byte, so how much padding comes before it depends on where it is
(`Aligned`).

Results: `stored_deflated`, that every short string has a stream that expands to it;
`Item.bits_pos` and `streamBits_length_ge`, that items and blocks have bits, so that a
stream has no more of them than bits; and `blocks_length_le`, that blocks only ever add
to what has been expanded.
-/

namespace Cubiboot
namespace Deflate

open BitStream CanonicalCode

/-- The code lengths of the two alphabets of a block. -/
structure Codes where
  litlen : List Nat
  dist : List Nat

/-- The codes of blocks that do not bring their own. -/
def Codes.fixed : Codes where
  litlen :=
    List.replicate 144 8 ++ List.replicate 112 9 ++ List.replicate 24 7 ++ List.replicate 8 8
  dist := List.replicate 32 5

/-- The symbol has a code. -/
def HasCode (lens : List Nat) (s : Nat) : Prop :=
  ∃ l, HasLength lens s l

/-- Code lengths that a block may bring: no bit string is left over, or there is one code. -/
def Usable (lens : List Nat) : Prop :=
  kraft lens 15 = 2 ^ 15 ∨ used lens = 0 ∨ used lens = 1 ∧ count lens 1 = 1

/-- The symbol after the last item of a block. -/
def endOfBlock : Nat := 256

/-- The extra bits of a length code. -/
def lengthExtra (l : Nat) : Nat :=
  if l = 28 then 0 else (l - 4) / 4

/-- The first length of a length code; the lengths of one come after those of the other. -/
def lengthBase : Nat → Nat
  | 0 => 3
  | l + 1 => lengthBase l + 2 ^ lengthExtra l

/-- The length of a code and its extra bits; the last code is a length of its own. -/
def lengthOf (l extra : Nat) : Nat :=
  if l = 28 then 258 else lengthBase l + extra

/-- The extra bits of a distance code. -/
def distExtra (d : Nat) : Nat :=
  (d - 2) / 2

/-- The first distance of a distance code. -/
def distBase : Nat → Nat
  | 0 => 1
  | d + 1 => distBase d + 2 ^ distExtra d

/-- A byte, or a length and a distance with their extra bits. -/
inductive Item where
  | literal (b : UInt8)
  | pair (l lengthBits d distBits : Nat)

/-- The bits that stand for an item. -/
def Item.bits (c : Codes) : Item → List Bool
  | .literal b => code c.litlen b.toNat
  | .pair l lengthBits d distBits =>
      code c.litlen (257 + l) ++ (toBits (lengthExtra l) lengthBits ++
        (code c.dist d ++ toBits (distExtra d) distBits))

/-- The item can be written. -/
def Item.Valid (c : Codes) : Item → Prop
  | .literal b => HasCode c.litlen b.toNat
  | .pair l lengthBits d distBits =>
      l < 29 ∧ HasCode c.litlen (257 + l) ∧ lengthBits < 2 ^ lengthExtra l ∧
        d < 30 ∧ HasCode c.dist d ∧ distBits < 2 ^ distExtra d

/-- The bytes of a copy from `dist` bytes back, which may reach into the copy itself. -/
def copyBack (dist : Nat) : Nat → List UInt8 → List UInt8
  | 0, out => out
  | n + 1, out => copyBack dist n (out ++ (out[out.length - dist]?).toList)

/-- What an item adds to the output. -/
def Item.expand (out : List UInt8) : Item → Option (List UInt8)
  | .literal b => some (out ++ [b])
  | .pair l lengthBits d distBits =>
      if distBase d + distBits ≤ out.length then
        some (copyBack (distBase d + distBits) (lengthOf l lengthBits) out)
      else none

/-- What items expand to. -/
def expandItems (items : List Item) (out : List UInt8) : Option (List UInt8) :=
  items.foldlM Item.expand out

/-- The bits of the items of a block and of its end. -/
def itemsBits (c : Codes) (items : List Item) : List Bool :=
  items.flatMap (Item.bits c) ++ code c.litlen endOfBlock

/-- A code length, the last one again, or a number of zeros. -/
inductive LengthItem where
  | length (n : Fin 16)
  | again (extra : Fin 4)
  | zeros (extra : Fin 8)
  | moreZeros (extra : Fin 128)

/-- The symbol of the alphabet of code lengths. -/
def LengthItem.symbol : LengthItem → Nat
  | .length n => n
  | .again _ => 16
  | .zeros _ => 17
  | .moreZeros _ => 18

/-- Its extra bits. -/
def LengthItem.extraBits : LengthItem → List Bool
  | .length _ => []
  | .again extra => toBits 2 extra
  | .zeros extra => toBits 3 extra
  | .moreZeros extra => toBits 7 extra

/-- What it adds to the code lengths. -/
def LengthItem.expand (lens : List Nat) : LengthItem → Option (List Nat)
  | .length n => some (lens ++ [n.val])
  | .again extra => lens.getLast?.map fun n => lens ++ List.replicate (3 + extra) n
  | .zeros extra => some (lens ++ List.replicate (3 + extra) 0)
  | .moreZeros extra => some (lens ++ List.replicate (11 + extra) 0)

/-- The order in which the code lengths of code lengths are sent. -/
def lengthOrder : List Nat :=
  [16, 17, 18, 0, 8, 7, 9, 6, 10, 5, 11, 4, 12, 3, 13, 2, 14, 1, 15]

/-- What a block says of its codes. -/
structure Header where
  sent : List (Fin 8)
  items : List LengthItem

/-- The code lengths of the alphabet of code lengths. -/
def Header.lengthCodes (h : Header) : List Nat :=
  (List.range 19).map fun s => (h.sent[lengthOrder.idxOf s]?).elim 0 Fin.val

/-- The bits of a header for codes. -/
def Header.bits (h : Header) (c : Codes) : List Bool :=
  toBits 5 (c.litlen.length - 257) ++ (toBits 5 (c.dist.length - 1) ++
    (toBits 4 (h.sent.length - 4) ++ ((h.sent.flatMap fun n => toBits 3 n.val) ++
      h.items.flatMap fun i => code h.lengthCodes i.symbol ++ i.extraBits)))

/-- A header that describes usable codes. -/
structure Header.Valid (h : Header) (c : Codes) : Prop where
  litlen : 257 ≤ c.litlen.length ∧ c.litlen.length ≤ 286
  dist : 1 ≤ c.dist.length ∧ c.dist.length ≤ 30
  sent : 4 ≤ h.sent.length ∧ h.sent.length ≤ 19
  usable : Usable h.lengthCodes
  codes : ∀ i ∈ h.items, HasCode h.lengthCodes i.symbol
  lengths : h.items.foldlM LengthItem.expand [] = some (c.litlen ++ c.dist)
  endOfBlock : HasCode c.litlen endOfBlock
  litlenUsable : Usable c.litlen
  distUsable : Usable c.dist

/-- A block of a stream. -/
inductive Block where
  | stored (pad : List Bool) (data : List UInt8)
  | fixed (items : List Item)
  | dynamic (header : Header) (codes : Codes) (items : List Item)

/-- The number of the type of a block. -/
def Block.type : Block → Nat
  | .stored _ _ => 0
  | .fixed _ => 1
  | .dynamic _ _ _ => 2

/-- The bits of a block after its type. -/
def Block.body : Block → List Bool
  | .stored pad data =>
      pad ++ (toBits 16 data.length ++ (toBits 16 (0xFFFF - data.length) ++ bitsOf data))
  | .fixed items => itemsBits .fixed items
  | .dynamic header codes items => header.bits codes ++ itemsBits codes items

/-- The block can be written. -/
def Block.Valid : Block → Prop
  | .stored _ data => data.length < 2 ^ 16
  | .fixed items => ∀ i ∈ items, i.Valid .fixed
  | .dynamic header codes items => header.Valid codes ∧ ∀ i ∈ items, i.Valid codes

/-- What a block adds to the output. -/
def Block.expand (out : List UInt8) : Block → Option (List UInt8)
  | .stored _ data => some (out ++ data)
  | .fixed items => expandItems items out
  | .dynamic _ _ items => expandItems items out

/-- The data of a stored block starts at a byte, when the block starts at the bit `pos`. -/
def Block.Aligned (pos : Nat) : Block → Prop
  | .stored pad _ => pad.length < 8 ∧ (pos + 3 + pad.length) % 8 = 0
  | .fixed _ => True
  | .dynamic _ _ _ => True

/-- The bits of a block, which may be the last. -/
def Block.bits (final : Bool) (b : Block) : List Bool :=
  final :: (toBits 2 b.type ++ b.body)

/-- The bits of blocks, the last of which says so. -/
def streamBits : List Block → List Bool
  | [] => []
  | b :: bs => b.bits bs.isEmpty ++ streamBits bs

/-- The blocks can be written one after the other from the bit `pos` on. -/
def StreamValid : Nat → List Block → Prop
  | _, [] => True
  | pos, b :: bs =>
      b.Valid ∧ b.Aligned pos ∧ StreamValid (pos + (b.bits bs.isEmpty).length) bs

/-- `source` starts with a stream that expands to `out`. -/
def Deflated (source out : List UInt8) : Prop :=
  ∃ blocks, blocks ≠ [] ∧ StreamValid 0 blocks ∧ streamBits blocks <+: bitsOf source ∧
    blocks.foldlM Block.expand [] = some out

variable {c : Codes}

theorem distBase_pos (s : Nat) : 0 < distBase s := by
  induction s with
  | zero => exact Nat.one_pos
  | succ s ih => exact Nat.add_pos_left ih _

theorem copyBack_length_le (offs n : Nat) (out : List UInt8) :
    out.length ≤ (copyBack offs n out).length := by
  induction n generalizing out with
  | zero => exact Nat.le_refl _
  | succ n ih =>
      refine Nat.le_trans ?_ (ih _)
      rw [List.length_append]
      omega

theorem Item.expand_length_le {item : Item} {out out' : List UInt8}
    (h : item.expand out = some out') : out.length ≤ out'.length := by
  cases item with
  | literal b =>
      obtain rfl := Option.some.inj h
      simp
  | pair l lv s dv =>
      rw [Item.expand] at h
      split at h
      · obtain rfl := Option.some.inj h
        exact copyBack_length_le _ _ _
      · cases h

theorem expandItems_length_le {items : List Item} {out out' : List UInt8}
    (h : expandItems items out = some out') : out.length ≤ out'.length := by
  induction items generalizing out with
  | nil => exact (congrArg List.length (Option.some.inj h)).le
  | cons item items ih =>
      rw [expandItems, List.foldlM_cons] at h
      obtain ⟨mid, hmid, hrest⟩ := Option.bind_eq_some_iff.1 h
      exact (Item.expand_length_le hmid).trans (ih hrest)

/-- Every item has bits. -/
theorem Item.bits_pos {item : Item} (h : item.Valid c) : 0 < (item.bits c).length := by
  cases item with
  | literal b =>
      obtain ⟨k, hk⟩ := h
      rw [Item.bits, hk.code_length]
      exact Nat.pos_of_ne_zero hk.pos
  | pair l lv s dv =>
      obtain ⟨_, ⟨k, hk⟩, _⟩ := h
      rw [Item.bits, List.length_append, hk.code_length]
      exact Nat.add_pos_left (Nat.pos_of_ne_zero hk.pos) _

theorem Block.expand_length_le {b : Block} {out out' : List UInt8}
    (h : b.expand out = some out') : out.length ≤ out'.length := by
  cases b with
  | stored pad data =>
      obtain rfl := Option.some.inj h
      simp
  | fixed items => exact expandItems_length_le h
  | dynamic header c items => exact expandItems_length_le h

theorem blocks_length_le {blocks : List Block} {out out' : List UInt8}
    (h : blocks.foldlM Block.expand out = some out') : out.length ≤ out'.length := by
  induction blocks generalizing out with
  | nil => exact (congrArg List.length (Option.some.inj h)).le
  | cons b blocks ih =>
      rw [List.foldlM_cons] at h
      obtain ⟨mid, hmid, hrest⟩ := Option.bind_eq_some_iff.1 h
      exact (Block.expand_length_le hmid).trans (ih hrest)

theorem Block.type_lt (b : Block) : b.type < 2 ^ 2 := by
  cases b with
  | stored pad data => exact (show 0 < 2 ^ 2 by decide)
  | fixed items => exact (show 1 < 2 ^ 2 by decide)
  | dynamic header c items => exact (show 2 < 2 ^ 2 by decide)

theorem streamBits_length_ge (blocks : List Block) :
    blocks.length ≤ (streamBits blocks).length := by
  induction blocks with
  | nil => exact Nat.le_refl _
  | cons b blocks ih =>
      rw [streamBits, Block.bits, List.length_append, List.length_cons, List.length_cons]
      omega

/-- Data in one stored block. -/
def stored (out : List UInt8) : List UInt8 :=
  1 :: (leBytes 2 out.length ++ (leBytes 2 (0xFFFF - out.length) ++ out))

/-- Short data can be stored. -/
theorem stored_deflated {out : List UInt8} (h : out.length < 2 ^ 16) :
    Deflated (stored out) out := by
  refine ⟨[.stored (List.replicate 5 false) out], List.cons_ne_nil _ _,
    ⟨h, ⟨by decide, by decide⟩, trivial⟩, ⟨[], ?_⟩, rfl⟩
  rw [streamBits, streamBits, List.append_nil, List.append_nil, Block.bits, Block.body, stored,
    bitsOf_cons, bitsOf_append, bitsOf_append, bitsOf_leBytes, bitsOf_leBytes]
  rfl

end Deflate
end Cubiboot
