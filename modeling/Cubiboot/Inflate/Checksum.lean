import Cubiboot.Foundations.CyclicCode
import Cubiboot.Games.BannerCache

/-!
# The checksum

`tinf_crc32` takes its bytes by halves from a table of 16 entries. It computes the
cyclic code of their bits, under which the banner cache keeps a path and by which
`tinf_gzip_uncompress` accepts its output.

Results: `tinfCrc32_byte`, that the two halves of a byte are its eight bits;
`tinfCrc32_eq`, that the checksum is the cyclic code; `tinfCrc32_burst`, that damage
within four bytes in a row changes it; and `gmBnrCacheKey_burst`, the same of two paths,
whose banners the cache keeps apart.
-/

namespace Cubiboot
namespace Inflate

open BitStream CyclicCode Games

/-- The polynomial of the checksum. -/
def crc32Poly : BitVec 32 := 0xEDB88320#32

/-- The table has four steps of each half of a byte. -/
theorem tinfCrc32tab_steps (x : BitVec 4) :
    (tinfCrc32tab.getD x.toNat 0).toBitVec = steps crc32Poly 4 (x.setWidth 32) := by
  have hall : ∀ x : BitVec 4,
      (tinfCrc32tab.getD x.toNat 0).toBitVec = steps crc32Poly 4 (x.setWidth 32) := by
    decide
  exact hall x

theorem tinfCrc32Nibble_steps (crc : UInt32) :
    (tinfCrc32Nibble crc).toBitVec = steps crc32Poly 4 crc.toBitVec := by
  have hlow : (crc &&& 0x0F).toNat = (crc.toBitVec.setWidth 4).toNat := by
    rw [UInt32.toNat_and, BitVec.toNat_setWidth]
    exact Nat.and_two_pow_sub_one_eq_mod crc.toNat 4
  rw [tinfCrc32Nibble, hlow, UInt32.toBitVec_xor, tinfCrc32tab_steps,
    @steps_split 32 crc32Poly crc.toBitVec 4]
  rfl

/-- A byte is taken as its bits. -/
theorem tinfCrc32_byte (crc : UInt32) (b : UInt8) :
    (tinfCrc32Nibble (tinfCrc32Nibble (crc ^^^ b.toUInt32))).toBitVec =
      feed crc32Poly crc.toBitVec (toBits 8 b.toNat) := by
  have hbyte : b.toUInt32.toBitVec = BitVec.ofNat 32 b.toNat := by
    refine BitVec.eq_of_toNat_eq ?_
    rw [BitVec.toNat_ofNat, Nat.mod_eq_of_lt (b.toNat_lt.trans (by decide))]
    exact UInt8.toNat_toUInt32 b
  rw [tinfCrc32Nibble_steps, tinfCrc32Nibble_steps, ← steps_add, UInt32.toBitVec_xor, hbyte,
    feed_toBits (by decide) b.toNat_lt]

theorem tinfCrc32_foldl (data : List UInt8) (crc : UInt32) :
    (data.foldl (fun crc b => tinfCrc32Nibble (tinfCrc32Nibble (crc ^^^ b.toUInt32)))
      crc).toBitVec = feed crc32Poly crc.toBitVec (bitsOf data) := by
  induction data generalizing crc with
  | nil => rfl
  | cons b data ih =>
      rw [List.foldl_cons, ih, tinfCrc32_byte, bitsOf_cons, feed_append]

/-- `tinf_crc32` is the cyclic code of the bits. -/
theorem tinfCrc32_eq (data : List UInt8) :
    (tinfCrc32 data).toBitVec = crc crc32Poly (bitsOf data) := by
  rw [tinfCrc32]
  split
  · rename_i hempty
    rw [List.length_eq_zero_iff.1 hempty]
    decide
  · rw [UInt32.toBitVec_xor, tinfCrc32_foldl]
    rfl

/-- Data that differ in no more than 32 bits in a row have different checksums. -/
theorem tinfCrc32_burst (before after : List UInt8) {x y : List UInt8}
    (hlen : x.length = y.length) (hshort : x.length ≤ 4) (hne : x ≠ y) :
    tinfCrc32 (before ++ (x ++ after)) ≠ tinfCrc32 (before ++ (y ++ after)) := by
  intro h
  have hcrc := congrArg UInt32.toBitVec h
  rw [tinfCrc32_eq, tinfCrc32_eq, bitsOf_append, bitsOf_append, bitsOf_append, bitsOf_append]
    at hcrc
  refine crc_burst (show crc32Poly.msb = true by decide) (bitsOf before) (bitsOf after) ?_ ?_
    (fun hbits => hne (bitsOf_inj hbits)) hcrc
  · rw [bitsOf_length, bitsOf_length, hlen]
  · rw [bitsOf_length]
    omega

/-- Paths that differ in no more than four bytes in a row do not share a slot's key. -/
theorem gmBnrCacheKey_burst (before x y after : Path) (hlen : x.length = y.length)
    (hshort : x.length ≤ 4) (hne : x ≠ y) :
    gmBnrCacheKey (before ++ (x ++ after)) ≠ gmBnrCacheKey (before ++ (y ++ after)) :=
  tinfCrc32_burst before after hlen hshort hne

theorem gmBnrCacheKey_burst_disc :
    gmBnrCacheKey [0x2F, 0x61, 0x31] ≠ gmBnrCacheKey [0x2F, 0x61, 0x32] :=
  gmBnrCacheKey_burst [0x2F, 0x61] [0x31] [0x32] [] rfl (by decide) (by decide)

end Inflate
end Cubiboot
