import Cubiboot.Foundations.CyclicCode
import Cubiboot.Foundations.Deflate

/-!
# Gzip files

What a file with one member is, from the side of whoever writes it: a header with the
fields that its flags announce, deflated data, the checksum and the length of what they
expand to.

The checksum is the cyclic code of the data, with its usual start and end, and both it
and the length are written low byte first. The fields are an extra field, a name, a
comment and a checksum of the header; which of them there are is for the writer to
choose, and so is how the data are deflated.

Results: `storedFile_gzipped`, that every short string has a file that is well formed;
`plainHeader_valid`, that a header without any field is; `checksum_lt`.
-/

namespace Cubiboot
namespace Gzip

open BitStream CyclicCode Deflate

/-- The checksum of bytes. -/
def checksum (data : List UInt8) : Nat :=
  (crc 0xEDB88320#32 (bitsOf data)).toNat

theorem checksum_lt (data : List UInt8) : checksum data < 2 ^ 32 :=
  BitVec.isLt _

/-- The header of a member; `stamp` is the time, and how and where it was written. -/
structure Header where
  text : Bool
  checked : Bool
  extra : Option (List UInt8)
  name : Option (List UInt8)
  comment : Option (List UInt8)
  stamp : List UInt8

/-- The flags of the fields that are there. -/
def Header.flags (h : Header) : Nat :=
  h.text.toNat + 2 * h.checked.toNat + 4 * h.extra.isSome.toNat + 8 * h.name.isSome.toNat +
    16 * h.comment.isSome.toNat

/-- The bytes of the extra field. -/
def extraBytes : Option (List UInt8) → List UInt8
  | none => []
  | some extra => leBytes 2 extra.length ++ extra

/-- The bytes of a name or a comment. -/
def stringBytes : Option (List UInt8) → List UInt8
  | none => []
  | some s => s ++ [0]

/-- The header up to its own checksum. -/
def Header.fields (h : Header) : List UInt8 :=
  [0x1F, 0x8B, 8, UInt8.ofNat h.flags] ++ h.stamp ++ extraBytes h.extra ++ stringBytes h.name ++
    stringBytes h.comment

/-- The checksum of a header. -/
def checkBytes (checked : Bool) (fields : List UInt8) : List UInt8 :=
  if checked then leBytes 2 (checksum fields % 2 ^ 16) else []

/-- The bytes of a header. -/
def Header.bytes (h : Header) : List UInt8 :=
  h.fields ++ checkBytes h.checked h.fields

/-- The extra field has a length. -/
def ExtraValid (extra : Option (List UInt8)) : Prop :=
  ∀ e ∈ extra, e.length < 2 ^ 16

/-- A string ends where it has a zero. -/
def StringValid (string : Option (List UInt8)) : Prop :=
  ∀ s ∈ string, 0 ∉ s

/-- The header can be written. -/
structure Header.Valid (h : Header) : Prop where
  stamp : h.stamp.length = 6
  extra : ExtraValid h.extra
  name : StringValid h.name
  comment : StringValid h.comment

/-- `source` is a file that expands to `out`. -/
def Gzipped (source out : List UInt8) : Prop :=
  ∃ (h : Header) (data : List UInt8), h.Valid ∧ Deflated data out ∧ out.length < 2 ^ 32 ∧
    source = h.bytes ++ (data ++ (leBytes 4 (checksum out) ++ leBytes 4 out.length))

/-- The header without any fields. -/
def plainHeader : Header where
  text := false
  checked := false
  extra := none
  name := none
  comment := none
  stamp := List.replicate 6 0

/-- A file of data that are stored. -/
def storedFile (out : List UInt8) : List UInt8 :=
  plainHeader.bytes ++ (stored out ++ (leBytes 4 (checksum out) ++ leBytes 4 out.length))

theorem plainHeader_valid : plainHeader.Valid :=
  ⟨rfl, fun _ he => (by cases he), fun _ hs => (by cases hs), fun _ hs => (by cases hs)⟩

theorem storedFile_gzipped {out : List UInt8} (h : out.length < 2 ^ 16) :
    Gzipped (storedFile out) out :=
  ⟨plainHeader, stored out, plainHeader_valid, stored_deflated h, h.trans (by decide), rfl⟩

end Gzip
end Cubiboot
