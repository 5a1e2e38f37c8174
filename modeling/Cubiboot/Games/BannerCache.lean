import Cubiboot.Foundations.CopyRange
import Mathlib.Data.List.FinRange
import Mathlib.Logic.Function.Basic

/-!
# The banner cache

`bnr_cache_get` and `bnr_cache_put` of `emu/tweaks.c`: a ring of 1024 slots in
auxiliary RAM, each filled by a DMA transfer that the caller waits for, and the
key under which a file's banner is kept.

A byte of a banner carries, beside its value, the place it was read from.  No
code looks at that place; it says which file the byte belongs to.

Results: `slotOffset_add_size` and `slotOffset_disjoint`, where the slots lie;
`lookup_some` and `lookup_none`, what a lookup finds; `bnrCachePut_fresh` and
`bnrCachePut_present`, a put of a new key and of one that is there.
-/

namespace Cubiboot
namespace Games

open CopyRange

/-- A path, without its terminator. -/
abbrev Path := List UInt8

/-- Where a byte came from, and whether the read that brought it was complete. -/
structure Origin where
  path : Path
  position : Nat
  complete : Bool
deriving DecidableEq

/-- A byte of memory; bytes that no file read has written have no origin. -/
structure BnrByte where
  value : UInt8
  origin : Option Origin
deriving DecidableEq

/-- `BNR_PIXELDATA_LEN`. -/
def bnrPixeldataLen : Nat := 96 * 32 * 2

/-- `ICON_PIXELDATA_LEN`. -/
def iconPixeldataLen : Nat := 32 * 32 * 2

/-- `sizeof(BNRDesc)`. -/
def sizeofBnrDesc : Nat := 0x20 + 0x20 + 0x40 + 0x40 + 0x80

/-- Offset of `pixelData` in a `BNR`. -/
def bnrPixelOffset : Nat := 4 + 0x1C

/-- Offset of `desc` in a `BNR`. -/
def bnrDescOffset : Nat := bnrPixelOffset + bnrPixeldataLen

/-- `sizeof(BNR)`. -/
def sizeofBnr : Nat := bnrDescOffset + 6 * sizeofBnrDesc

/-- `BNR_CACHE_SIZE`. -/
abbrev bnrCacheSize : Nat := 1024

/-- The end of auxiliary RAM. -/
def aramSize : Nat := 16 * 1024 * 1024

/-- `tinf_crc32tab`. -/
def tinfCrc32tab : List UInt32 :=
  [0x00000000, 0x1DB71064, 0x3B6E20C8, 0x26D930AC, 0x76DC4190,
    0x6B6B51F4, 0x4DB26158, 0x5005713C, 0xEDB88320, 0xF00F9344,
    0xD6D6A3E8, 0xCB61B38C, 0x9B64C2B0, 0x86D3D2D4, 0xA00AE278,
    0xBDBDF21C]

/-- One of the two table steps for a byte. -/
def tinfCrc32Nibble (crc : UInt32) : UInt32 :=
  tinfCrc32tab.getD (crc &&& 0x0F).toNat 0 ^^^ (crc >>> 4)

/-- `tinf_crc32`. -/
def tinfCrc32 (data : List UInt8) : UInt32 :=
  if data.length = 0 then
    0
  else
    data.foldl
        (fun crc b => tinfCrc32Nibble (tinfCrc32Nibble (crc ^^^ b.toUInt32)))
        0xFFFFFFFF ^^^ 0xFFFFFFFF

/-- `gm_bnr_cache_key`. -/
def gmBnrCacheKey (path : Path) : UInt32 :=
  tinfCrc32 path

/-- `bnr_cache_entry_t`. -/
structure BnrCacheEntry where
  key : UInt32
  aramOffset : Nat
  valid : Bool
deriving DecidableEq

/-- `bnr_cache` and `bnr_cache_next_index`, with the auxiliary RAM. -/
structure BnrCache where
  entry : Fin bnrCacheSize → BnrCacheEntry
  nextIndex : Fin bnrCacheSize
  aram : Nat → BnrByte

/-- The loop of both functions: the first valid slot with this key. -/
def BnrCache.lookup (c : BnrCache) (key : UInt32) : Option (Fin bnrCacheSize) :=
  (List.finRange bnrCacheSize).find? fun i =>
    (c.entry i).valid && (c.entry i).key == key

/-- `bnr_cache_load`: the buffer after the transfer. -/
def bnrCacheLoad
    (c : BnrCache) (bnr : Nat → BnrByte) (aramOffset : Nat) : Nat → BnrByte :=
  copyRange bnr 0 sizeofBnr (fun i => c.aram (aramOffset + i))

/-- `bnr_cache_store`. -/
def bnrCacheStore
    (c : BnrCache) (bnr : Nat → BnrByte) (aramOffset : Nat) : BnrCache :=
  { c with aram := copyRange c.aram aramOffset sizeofBnr bnr }

/-- `bnr_cache_get`: the buffer filled, when the key is there. -/
def bnrCacheGet
    (c : BnrCache) (key : UInt32) (bnr : Nat → BnrByte) :
    Option (Nat → BnrByte) :=
  (c.lookup key).map fun i => bnrCacheLoad c bnr (c.entry i).aramOffset

/-- The place of a slot in auxiliary RAM. -/
def slotOffset (i : Fin bnrCacheSize) : Nat :=
  aramSize - sizeofBnr * (i.val + 1)

/-- `bnr_cache_put`. -/
def bnrCachePut
    (c : BnrCache) (key : UInt32) (bnr : Nat → BnrByte) : BnrCache :=
  match c.lookup key with
  | some _ => c
  | none =>
      let i := c.nextIndex
      let e := { c.entry i with valid := false, key := key }
      let e := { e with aramOffset := slotOffset i }
      let c := bnrCacheStore { c with entry := Function.update c.entry i e } bnr
        e.aramOffset
      { c with
        entry := Function.update c.entry i { e with valid := true }
        nextIndex := i + 1 }

/-- Every valid slot lies at its own place. -/
def BnrCache.Placed (c : BnrCache) : Prop :=
  ∀ i, (c.entry i).valid = true → (c.entry i).aramOffset = slotOffset i

/-- The contents of a slot. -/
def BnrCache.slotData (c : BnrCache) (i : Fin bnrCacheSize) : Nat → BnrByte :=
  fun k => c.aram ((c.entry i).aramOffset + k)

theorem lookup_some
    {c : BnrCache} {key : UInt32} {i : Fin bnrCacheSize}
    (h : c.lookup key = some i) :
    (c.entry i).valid = true ∧ (c.entry i).key = key := by
  have := List.find?_some h
  simpa using this

theorem lookup_none
    {c : BnrCache} {key : UInt32} :
    c.lookup key = none ↔
      ∀ i, (c.entry i).valid = true → (c.entry i).key ≠ key := by
  simp [BnrCache.lookup, List.find?_eq_none]

theorem sizeofBnr_eq : sizeofBnr = 8096 := rfl

theorem aramSize_eq : aramSize = 16777216 := rfl

/-- Slots lie inside auxiliary RAM. -/
theorem slotOffset_add_size (i : Fin bnrCacheSize) :
    slotOffset i + sizeofBnr * (i.val + 1) = aramSize := by
  have hi : i.val < 1024 := i.isLt
  simp only [slotOffset, sizeofBnr_eq, aramSize_eq]
  omega

/-- Two slots do not overlap. -/
theorem slotOffset_disjoint
    {i j : Fin bnrCacheSize} (h : i ≠ j) :
    slotOffset i + sizeofBnr ≤ slotOffset j ∨
      slotOffset j + sizeofBnr ≤ slotOffset i := by
  have hi := slotOffset_add_size i
  have hj := slotOffset_add_size j
  have hij : i.val ≠ j.val := fun heq => h (Fin.ext heq)
  simp only [sizeofBnr_eq, aramSize_eq] at hi hj ⊢
  omega

/-- The slots after a put of a key that was not there. -/
theorem bnrCachePut_fresh
    {c : BnrCache} {key : UInt32} {bnr : Nat → BnrByte}
    (h : c.lookup key = none) :
    bnrCachePut c key bnr =
      { entry := Function.update c.entry c.nextIndex
          ⟨key, slotOffset c.nextIndex, true⟩
        nextIndex := c.nextIndex + 1
        aram := copyRange c.aram (slotOffset c.nextIndex) sizeofBnr bnr } := by
  unfold bnrCachePut
  rw [h]
  simp only [bnrCacheStore, Function.update_idem]

theorem bnrCachePut_present
    {c : BnrCache} {key : UInt32} {bnr : Nat → BnrByte} {i : Fin bnrCacheSize}
    (h : c.lookup key = some i) :
    bnrCachePut c key bnr = c := by
  unfold bnrCachePut
  rw [h]

/-- A put keeps the slots in their places. -/
theorem BnrCache.Placed.put
    {c : BnrCache} (h : c.Placed) (key : UInt32) (bnr : Nat → BnrByte) :
    (bnrCachePut c key bnr).Placed := by
  cases hlook : c.lookup key with
  | some i =>
      rw [bnrCachePut_present hlook]
      exact h
  | none =>
      rw [bnrCachePut_fresh hlook]
      intro i hi
      by_cases hin : i = c.nextIndex
      · rw [hin]
        simp
      · simp only [Function.update_of_ne hin] at hi ⊢
        exact h i hi

/--
A put of a new key stores the banner in one slot and leaves the others as they
were.
-/
theorem slotData_put
    {c : BnrCache} (h : c.Placed) {key : UInt32} {bnr : Nat → BnrByte}
    (hlook : c.lookup key = none) {i : Fin bnrCacheSize}
    (hi : ((bnrCachePut c key bnr).entry i).valid = true)
    {k : Nat} (hk : k < sizeofBnr) :
    (((bnrCachePut c key bnr).entry i).key = key ∧
        (bnrCachePut c key bnr).slotData i k = bnr k) ∨
      ((c.entry i).valid = true ∧
        ((bnrCachePut c key bnr).entry i).key = (c.entry i).key ∧
        (bnrCachePut c key bnr).slotData i k = c.slotData i k) := by
  rw [bnrCachePut_fresh hlook] at hi ⊢
  simp only [BnrCache.slotData]
  by_cases hin : i = c.nextIndex
  · left
    rw [hin]
    simp only [Function.update_self]
    refine ⟨trivial, ?_⟩
    rw [copyRange_inside (by omega) (by omega), Nat.add_sub_cancel_left]
  · right
    simp only [Function.update_of_ne hin] at hi ⊢
    have hplace := h i hi
    refine ⟨hi, trivial, copyRange_outside ?_⟩
    rcases slotOffset_disjoint hin with hd | hd <;> omega

end Games
end Cubiboot
