import Mathlib.Data.List.FinRange
import Mathlib.Logic.Function.Basic
import Cubiboot.Foundations.FuelLoop

/-!
# `tinflate.c`

The decompressor in the entry stub.  `none` is a read or a write out of bounds, a symbol of
a tree that nothing has written, or a loop that its bound does not end; errors that the
code reports are `TinfError`.

The bytes from `dest_start` to `dest` are a list, as are those from `source` on.  The two
trees of `tinf_data` are built anew for every block and passed beside it.

Results: `andThen_ok` and `andThen_returns`, when two steps one after the other succeed,
and when they have a result.
-/

namespace Cubiboot
namespace Inflate

/-- `TINF_DATA_ERROR` and `TINF_BUF_ERROR`. -/
inductive TinfError where
  | data
  | buf
deriving DecidableEq

/-- `struct tinf_tree`; a symbol that has not been written is `none`. -/
structure TinfTree where
  counts : Fin 16 → Nat
  symbols : Nat → Option Nat
  maxSym : Int

/-- `struct tinf_data`; `destLen` is `dest_end - dest_start`. -/
structure TinfData where
  source : List UInt8
  tag : Nat
  bitcount : Nat
  overflow : Bool
  dest : List UInt8
  destLen : Nat

/-- The result of a function that may report an error. -/
abbrev Outcome (ρ : Type) : Type :=
  Option (Except TinfError ρ)

/-- A call whose error is returned at once. -/
def andThen {ρ τ : Type} (o : Outcome ρ) (k : ρ → Outcome τ) : Outcome τ :=
  match o with
  | none => none
  | some (.error e) => some (.error e)
  | some (.ok r) => k r

theorem andThen_ok {ρ τ : Type} {o : Outcome ρ} {k : ρ → Outcome τ} {t : τ} :
    andThen o k = some (.ok t) ↔ ∃ r, o = some (.ok r) ∧ k r = some (.ok t) := by
  match o with
  | none => exact ⟨fun h => (by cases h), fun ⟨_, h, _⟩ => (by cases h)⟩
  | some (.error e) => exact ⟨fun h => (by cases h), fun ⟨_, h, _⟩ => (by cases h)⟩
  | some (.ok r) =>
      refine ⟨fun h => ⟨r, rfl, h⟩, fun ⟨r', hr', h⟩ => ?_⟩
      obtain rfl : r = r' := Except.ok.inj (Option.some.inj hr')
      exact h

theorem andThen_returns {ρ τ : Type} {o : Outcome ρ} {k : ρ → Outcome τ}
    (ho : ∃ r, o = some r) (hk : ∀ r, o = some (.ok r) → ∃ t, k r = some t) :
    ∃ t, andThen o k = some t := by
  obtain ⟨r, rfl⟩ := ho
  match r with
  | .error e => exact ⟨_, rfl⟩
  | .ok r => exact hk r rfl

/-- `lt` of `tinf_build_fixed_trees`. -/
def fixedLitlenTree : TinfTree where
  counts := fun i => if i = 7 then 24 else if i = 8 then 152 else if i = 9 then 112 else 0
  symbols := fun i =>
    if i < 24 then some (256 + i)
    else if i < 24 + 144 then some (i - 24)
    else if i < 24 + 144 + 8 then some (280 + (i - (24 + 144)))
    else if i < 24 + 144 + 8 + 112 then some (144 + (i - (24 + 144 + 8)))
    else none
  maxSym := 285

/-- `dt` of `tinf_build_fixed_trees`. -/
def fixedDistTree : TinfTree where
  counts := fun i => if i = 5 then 32 else 0
  symbols := fun i => if i < 32 then some i else none
  maxSym := 29

/-- Count the codes of each length from the symbol `i` on. -/
def countCodes (t : TinfTree) : Nat → List (Fin 16) → TinfTree
  | _, [] => t
  | i, len :: lengths =>
      if len ≠ 0 then
        countCodes
          { t with maxSym := i, counts := Function.update t.counts len (t.counts len + 1) }
          (i + 1) lengths
      else countCodes t (i + 1) lengths

/-- `available`, `num_codes` and `offs`. -/
structure OffsetTable where
  available : Nat
  numCodes : Nat
  offs : Fin 16 → Nat

/-- The offset table; `none` where a length has more codes than are available. -/
def offsetTable (counts : Fin 16 → Nat) : List (Fin 16) → OffsetTable → Option OffsetTable
  | [], o => some o
  | i :: rest, o =>
      if o.available < counts i then none
      else
        offsetTable counts rest
          ⟨2 * (o.available - counts i), o.numCodes + counts i,
            Function.update o.offs i o.numCodes⟩

/-- Fill in the symbols from `i` on, sorted by code. -/
def fillSymbols : Nat → List (Fin 16) → (Fin 16 → Nat) → (Nat → Option Nat) →
    Option (Nat → Option Nat)
  | _, [], _, symbols => some symbols
  | i, len :: lengths, offs, symbols =>
      if len ≠ 0 then
        if offs len < 288 then
          fillSymbols (i + 1) lengths (Function.update offs len (offs len + 1))
            (Function.update symbols (offs len) (some i))
        else none
      else fillSymbols (i + 1) lengths offs symbols

/-- The code that is added where there is only one. -/
def addCode (t : TinfTree) : TinfTree where
  counts := Function.update t.counts 1 2
  symbols := Function.update t.symbols 1 (some (t.maxSym + 1).toNat)
  maxSym := t.maxSym

/-- `tinf_build_tree`. -/
def tinfBuildTree (lengths : List (Fin 16)) : Outcome TinfTree :=
  let t := countCodes ⟨fun _ => 0, fun _ => none, -1⟩ 0 lengths
  match offsetTable t.counts (List.finRange 16) ⟨1, 0, fun _ => 0⟩ with
  | none => some (.error .data)
  | some o =>
      if (1 < o.numCodes ∧ 0 < o.available) ∨ (o.numCodes = 1 ∧ t.counts 1 ≠ 1) then
        some (.error .data)
      else
        match fillSymbols 0 lengths o.offs t.symbols with
        | none => none
        | some symbols =>
            let t := { t with symbols := symbols }
            some (.ok (if o.numCodes = 1 then addCode t else t))

/-- One turn of the loop of `tinf_refill`. -/
def refillByte (d : TinfData) : TinfData :=
  match d.source with
  | b :: source =>
      { d with
        source := source
        tag := d.tag ||| b.toNat <<< d.bitcount
        bitcount := d.bitcount + 8 }
  | [] => { d with overflow := true, bitcount := d.bitcount + 8 }

/-- `tinf_refill`; eight bits a turn, so `num` turns are enough. -/
def tinfRefill (num : Nat) : Nat → TinfData → TinfData
  | 0, d => d
  | turns + 1, d => if d.bitcount < num then tinfRefill num turns (refillByte d) else d

/-- `tinf_getbits_no_refill`. -/
def tinfGetbitsNoRefill (d : TinfData) (num : Nat) : Nat × TinfData :=
  (d.tag &&& (1 <<< num - 1), { d with tag := d.tag >>> num, bitcount := d.bitcount - num })

/-- `tinf_getbits`. -/
def tinfGetbits (d : TinfData) (num : Nat) : Nat × TinfData :=
  tinfGetbitsNoRefill (tinfRefill num num d) num

/-- `tinf_getbits_base`. -/
def tinfGetbitsBase (d : TinfData) (num base : Nat) : Nat × TinfData :=
  if num = 0 then (base, d) else (base + (tinfGetbits d num).1, (tinfGetbits d num).2)

/-- The loop of `tinf_decode_symbol` over the lengths of codes. -/
def tinfDecodeLevels (t : TinfTree) : List (Fin 16) → Nat → Nat → TinfData →
    Option (Nat × TinfData)
  | [], _, _, _ => none
  | len :: rest, base, offs, d =>
      let r := tinfGetbits d 1
      let offs := 2 * offs + r.1
      if offs < t.counts len then (t.symbols (base + offs)).map fun sym => (sym, r.2)
      else tinfDecodeLevels t rest (base + t.counts len) (offs - t.counts len) r.2

/-- `tinf_decode_symbol`. -/
def tinfDecodeSymbol (d : TinfData) (t : TinfTree) : Option (Nat × TinfData) :=
  tinfDecodeLevels t (List.finRange 16).tail 0 0 d

/-- `clcidx`. -/
def clcidx : List Nat :=
  [16, 17, 18, 0, 8, 7, 9, 6, 10, 5, 11, 4, 12, 3, 13, 2, 14, 1, 15]

/-- An element of `lengths`. -/
abbrev codeLength (n : Nat) : Fin 16 :=
  Fin.ofNat 16 n

/-- Read the code lengths of the alphabet of code lengths at the places `idx`. -/
def readLengthCodes : List Nat → List (Fin 16) → TinfData → List (Fin 16) × TinfData
  | [], lengths, d => (lengths, d)
  | i :: idx, lengths, d =>
      readLengthCodes idx (lengths.set i (Fin.ofNat 16 (tinfGetbits d 3).1)) (tinfGetbits d 3).2

/-- The `switch` over a symbol: a code length and how often it is repeated. -/
def lengthRun (d : TinfData) (lengths : List (Fin 16)) (sym : Nat) :
    Outcome (Fin 16 × Nat × TinfData) :=
  if sym = 16 then
    match lengths.getLast? with
    | none => some (.error .data)
    | some len => some (.ok (len, tinfGetbitsBase d 2 3))
  else if sym = 17 then some (.ok (0, tinfGetbitsBase d 3 3))
  else if sym = 18 then some (.ok (0, tinfGetbitsBase d 7 11))
  else if h : sym < 16 then some (.ok (⟨sym, h⟩, 1, d))
  else none

/-- A turn of the loop over the `num` code lengths. -/
def lengthStep (lt : TinfTree) (num : Nat) (s : TinfData × List (Fin 16)) :
    Option ((TinfData × List (Fin 16)) ⊕ Except TinfError (TinfData × List (Fin 16))) :=
  if s.2.length < num then
    match tinfDecodeSymbol s.1 lt with
    | none => none
    | some (sym, d) =>
        if lt.maxSym < sym then some (.inr (.error .data))
        else
          match lengthRun d s.2 sym with
          | none => none
          | some (.error e) => some (.inr (.error e))
          | some (.ok (len, length, d)) =>
              if num - s.2.length < length then some (.inr (.error .data))
              else some (.inl (d, s.2 ++ List.replicate length len))
  else some (.inr (.ok s))

/-- The code lengths and what is read of the stream for them. -/
def readLengths (lt : TinfTree) (num : Nat) (d : TinfData) : Outcome (TinfData × List (Fin 16)) :=
  FuelLoop.run (lengthStep lt num) (num + 1) (d, [])

/-- The trees of the two alphabets from their code lengths. -/
def buildTrees (hlit : Nat) (s : TinfData × List (Fin 16)) :
    Outcome (TinfData × TinfTree × TinfTree) :=
  match s.2[256]? with
  | none => none
  | some eob =>
      if eob = 0 then some (.error .data)
      else
        andThen (tinfBuildTree (s.2.take hlit)) fun lt =>
          andThen (tinfBuildTree (s.2.drop hlit)) fun dt => some (.ok (s.1, lt, dt))

/-- `tinf_decode_trees`. -/
def tinfDecodeTrees (d : TinfData) : Outcome (TinfData × TinfTree × TinfTree) :=
  let hlit := tinfGetbitsBase d 5 257
  let hdist := tinfGetbitsBase hlit.2 5 1
  let hclen := tinfGetbitsBase hdist.2 4 4
  if 286 < hlit.1 ∨ 30 < hdist.1 then some (.error .data)
  else
    let r := readLengthCodes (clcidx.take hclen.1) (List.replicate 19 0) hclen.2
    andThen (tinfBuildTree r.1) fun lt =>
      if lt.maxSym = -1 then some (.error .data)
      else andThen (readLengths lt (hlit.1 + hdist.1) r.2) (buildTrees hlit.1)

/-- `length_bits`. -/
def lengthBits : List Nat :=
  [0, 0, 0, 0, 0, 0, 0, 0, 1, 1, 1, 1, 2, 2, 2, 2, 3, 3, 3, 3, 4, 4, 4, 4, 5, 5, 5, 5, 0, 127]

/-- `length_base`. -/
def lengthBase : List Nat :=
  [3, 4, 5, 6, 7, 8, 9, 10, 11, 13, 15, 17, 19, 23, 27, 31, 35, 43, 51, 59, 67, 83, 99, 115,
    131, 163, 195, 227, 258, 0]

/-- `dist_bits`. -/
def distBits : List Nat :=
  [0, 0, 0, 0, 1, 1, 2, 2, 3, 3, 4, 4, 5, 5, 6, 6, 7, 7, 8, 8, 9, 9, 10, 10, 11, 11, 12, 12,
    13, 13]

/-- `dist_base`. -/
def distBase : List Nat :=
  [1, 2, 3, 4, 5, 7, 9, 13, 17, 25, 33, 49, 65, 97, 129, 193, 257, 385, 513, 769, 1025, 1537,
    2049, 3073, 4097, 6145, 8193, 12289, 16385, 24577]

/-- Copy a match of some bytes. -/
def copyMatch (offs : Nat) : Nat → List UInt8 → Option (List UInt8)
  | 0, dest => some dest
  | length + 1, dest =>
      if offs ≤ dest.length then
        (dest[dest.length - offs]?).bind fun b => copyMatch offs length (dest ++ [b])
      else none

/-- A symbol for a length and the distance after it. -/
def inflateMatch (dt : TinfTree) (sym : Nat) (d : TinfData) :
    Option (TinfData ⊕ Except TinfError TinfData) := do
  let bits ← lengthBits[sym]?
  let base ← lengthBase[sym]?
  let length := tinfGetbitsBase d bits base
  let dist ← tinfDecodeSymbol length.2 dt
  if dt.maxSym < dist.1 ∨ 29 < dist.1 then some (.inr (.error .data))
  else
    let bits ← distBits[dist.1]?
    let base ← distBase[dist.1]?
    let offs := tinfGetbitsBase dist.2 bits base
    if offs.2.dest.length < offs.1 then some (.inr (.error .data))
    else if offs.2.destLen - offs.2.dest.length < length.1 then some (.inr (.error .buf))
    else
      let dest ← copyMatch offs.1 length.1 offs.2.dest
      some (.inl { offs.2 with dest := dest })

/-- A turn of the loop of `tinf_inflate_block_data`. -/
def inflateStep (lt dt : TinfTree) (d : TinfData) :
    Option (TinfData ⊕ Except TinfError TinfData) := do
  let r ← tinfDecodeSymbol d lt
  let sym := r.1
  let d := r.2
  if d.overflow then some (.inr (.error .data))
  else if sym < 256 then
    if d.dest.length = d.destLen then some (.inr (.error .buf))
    else some (.inl { d with dest := d.dest ++ [UInt8.ofNat sym] })
  else if sym = 256 then some (.inr (.ok d))
  else if lt.maxSym < sym ∨ 28 < sym - 257 ∨ dt.maxSym = -1 then some (.inr (.error .data))
  else inflateMatch dt (sym - 257) d

/-- `tinf_inflate_block_data`; every turn takes a bit of those that are left. -/
def tinfInflateBlockData (lt dt : TinfTree) (d : TinfData) : Outcome TinfData :=
  FuelLoop.run (inflateStep lt dt) (d.bitcount + 8 * d.source.length + 2) d

/-- `read_le16`. -/
def readLe16 (lo hi : UInt8) : Nat :=
  lo.toNat ||| hi.toNat <<< 8

/-- `tinf_inflate_uncompressed_block`. -/
def tinfInflateUncompressedBlock (d : TinfData) : Except TinfError TinfData :=
  match d.source with
  | l₀ :: l₁ :: n₀ :: n₁ :: source =>
      let length := readLe16 l₀ l₁
      -- `~invlength & 0x0000FFFF`
      if length ≠ 0xFFFF - readLe16 n₀ n₁ then .error .data
      else if source.length < length then .error .data
      else if d.destLen - d.dest.length < length then .error .buf
      else
        .ok
          { d with
            source := source.drop length
            dest := d.dest ++ source.take length
            tag := 0
            bitcount := 0 }
  | _ => .error .data

/-- `tinf_inflate_fixed_block`. -/
def tinfInflateFixedBlock (d : TinfData) : Outcome TinfData :=
  tinfInflateBlockData fixedLitlenTree fixedDistTree d

/-- `tinf_inflate_dynamic_block`. -/
def tinfInflateDynamicBlock (d : TinfData) : Outcome TinfData :=
  andThen (tinfDecodeTrees d) fun r => tinfInflateBlockData r.2.1 r.2.2 r.1

/-- The block after its type has been read. -/
def inflateBlock (btype : Nat) (d : TinfData) : Outcome TinfData :=
  if btype = 0 then some (tinfInflateUncompressedBlock d)
  else if btype = 1 then tinfInflateFixedBlock d
  else if btype = 2 then tinfInflateDynamicBlock d
  else some (.error .data)

/-- A turn of the loop of `tinf_uncompress`. -/
def uncompressStep (d : TinfData) : Option (TinfData ⊕ Except TinfError (List UInt8)) :=
  let bfinal := tinfGetbits d 1
  let btype := tinfGetbits bfinal.2 2
  match inflateBlock btype.1 btype.2 with
  | none => none
  | some (.error e) => some (.inr (.error e))
  | some (.ok d) =>
      if bfinal.1 = 0 then some (.inl d)
      else if d.overflow then some (.inr (.error .data))
      else some (.inr (.ok d.dest))

/-- `tinf_uncompress` to `destLen` bytes: what it writes. -/
def tinfUncompress (destLen : Nat) (source : List UInt8) : Outcome (List UInt8) :=
  FuelLoop.run uncompressStep (8 * source.length + 1) ⟨source, 0, 0, false, [], destLen⟩

end Inflate
end Cubiboot
