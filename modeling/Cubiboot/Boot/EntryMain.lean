import Cubiboot.Boot.EntryStub
import Cubiboot.Inflate.Gzip

/-!
# `_main` of the entry stub

The handler of system calls is copied to its vector, `cubeboot_gz` is unpacked to the end
of the stub, and the sections of the image are placed from there.  Last comes the jump to
the entry point that the header has by then.  What is unpacked may reach up to 0x817C0000.

The stub's own code, stack and data, `cubeboot_gz` among them, are taken to be apart from
what is written.

Results: `entryMain_halted_iff`, that the stub halts exactly where no file fits;
`entryMain_boots`, the memory and the entry point with which an image is started.
-/

namespace Cubiboot
namespace Boot

open CopyRange Disc Placement Inflate Gzip

/-- What becomes of `_main`: the halt, or the jump with the memory at that time. -/
inductive EntryResult where
  | halted
  | booted (entrypoint : Nat) (memory : Nat → UInt8)

/-- `syscallMem`. -/
def syscallMem : Nat := 0x80000C00

/-- The bytes that were unpacked. -/
def unpackedImage (out : List UInt8) (i : Nat) : UInt8 :=
  out.getD i 0

/-- `outlen` before the call. -/
def entryRoom (dolBuf : Nat) : Nat :=
  0x817C0000 - dolBuf

/--
`_main`, with the stub's end at `dol_buf` and the `syscallLen` bytes of the handler at
`handlerStart`: `none` is a read out of bounds or no return.
-/
def entryMain
    (dolBuf handlerStart syscallLen : Nat) (cubebootGz : List UInt8) (memory : Nat → UInt8) :
    Option EntryResult :=
  let memory := entryMemcpy syscallMem handlerStart syscallLen memory
  match readLe32At cubebootGz (cubebootGz.length - 4) with
  | none => none
  | some dlen =>
      match tinfGzipUncompress (entryRoom dolBuf) cubebootGz with
      | none => none
      | some (.error _) => some .halted
      | some (.ok out) =>
          if out.length ≠ dlen then some .halted
          else
            (mainLoad dolBuf (copyRange memory dolBuf out.length (unpackedImage out))).map
              fun after => .booted (heldHeader dolBuf after).entryPoint after

variable {gz out : List UInt8} {dolBuf handlerStart syscallLen : Nat}

/-- The length at the end of a file is that of its bytes. -/
theorem gzipped_dlen (h : Gzipped gz out) :
    readLe32At gz (gz.length - 4) = some out.length := by
  obtain ⟨header, data, _, _, hlt, hsrc⟩ := h
  have hlen : 4 ≤ gz.length := by
    rw [hsrc, List.length_append, List.length_append, List.length_append, BitStream.leBytes_length,
      BitStream.leBytes_length]
    omega
  obtain ⟨n, hn, hnlt, hdrop⟩ := readLe32At_spec gz (gz.length - 4) (by omega)
  have htail : gz.drop (gz.length - 4) = BitStream.leBytes 4 out.length := by
    have hfront : gz = (header.bytes ++ (data ++ BitStream.leBytes 4 (checksum out))) ++
        BitStream.leBytes 4 out.length := by
      rw [hsrc]
      simp only [List.append_assoc]
    rw [hfront]
    refine List.drop_left' ?_
    simp only [List.length_append, BitStream.leBytes_length, Nat.add_sub_cancel]
  rw [hdrop, List.drop_eq_nil_of_le (by omega), List.append_nil] at htail
  rw [hn, BitStream.leBytes_inj hnlt hlt htail]

/-- A file that fits is unpacked, and its sections are placed. -/
theorem entryMain_unpacked (hgz : Gzipped gz out) (hfits : out.length ≤ entryRoom dolBuf)
    (memory : Nat → UInt8) :
    entryMain dolBuf handlerStart syscallLen gz memory =
      (mainLoad dolBuf (copyRange (entryMemcpy syscallMem handlerStart syscallLen memory)
        dolBuf out.length (unpackedImage out))).map
          fun after => .booted (heldHeader dolBuf after).entryPoint after := by
  have hok := (tinfGzipUncompress_ok (entryRoom dolBuf) gz out).2 ⟨hgz, hfits⟩
  rw [entryMain, gzipped_dlen hgz, hok]
  simp only
  rw [if_neg (not_not.2 rfl)]

/-- `_main` halts exactly where there is no file whose bytes fit. -/
theorem entryMain_halted_iff (dolBuf handlerStart syscallLen : Nat) (gz : List UInt8)
    (memory : Nat → UInt8) (hlen : 4 ≤ gz.length) :
    entryMain dolBuf handlerStart syscallLen gz memory = some .halted ↔
      ¬ ∃ out, Gzipped gz out ∧ out.length ≤ entryRoom dolBuf := by
  constructor
  · rintro hhalted ⟨out, hgz, hfits⟩
    rw [entryMain_unpacked hgz hfits] at hhalted
    obtain ⟨after, _, hbooted⟩ := Option.map_eq_some_iff.1 hhalted
    cases hbooted
  · intro hnone
    obtain ⟨n, hn, _⟩ := readLe32At_spec gz (gz.length - 4) (by omega)
    obtain ⟨r, hr⟩ := tinfGzipUncompress_returns (entryRoom dolBuf) gz
    rw [entryMain, hn, hr]
    match r with
    | .error e => rfl
    | .ok out => exact absurd ⟨out, (tinfGzipUncompress_ok _ _ _).1 hr⟩ hnone

theorem entryMain_halted_short :
    entryMain 0x81500000 0x81301000 0x30 [0, 0, 0, 0] (fun _ => 0) = some .halted := by
  refine (entryMain_halted_iff 0x81500000 0x81301000 0x30 [0, 0, 0, 0] (fun _ => 0)
    (by decide)).2 ?_
  rintro ⟨out, ⟨header, data, _, _, _, hsrc⟩, _⟩
  have hlength := congrArg List.length hsrc
  simp only [List.length_append, BitStream.leBytes_length, List.length_cons, List.length_nil]
    at hlength
  omega

/-- An address that the image is unpacked to or has to have. -/
def Taken (image : Nat → UInt8) (size dolBuf a : Nat) : Prop :=
  (∃ s ∈ (fileHeader image 0).slots, s.Present ∧ s.Covers a) ∨
    (fileHeader image 0).Cleared a ∨ (dolBuf ≤ a ∧ a < dolBuf + size)

/--
The jump into an image: its sections are in memory and then the BSS, the handler is at its
vector, and nothing else has changed.
-/
structure Booted
    (image : Nat → UInt8) (size dolBuf handlerStart syscallLen : Nat)
    (memory : Nat → UInt8) (entrypoint : Nat) (after : Nat → UInt8) : Prop where
  entry : entrypoint = (fileHeader image 0).entryPoint
  sections : ∀ s ∈ (fileHeader image 0).slots, s.Present → ∀ i < s.length,
    ¬ (fileHeader image 0).Cleared (s.address + i) → after (s.address + i) = image (s.offset + i)
  bss : ∀ a, (fileHeader image 0).Cleared a → after a = 0
  handler : ∀ i < syscallLen, ¬ Taken image size dolBuf (syscallMem + i) →
    after (syscallMem + i) = memory (handlerStart + i)
  others : ∀ a, ¬ Taken image size dolBuf a →
    a < syscallMem ∨ syscallMem + syscallLen ≤ a → after a = memory a

/-- `_memset` does not reach the entry point of the header. -/
theorem HeldDol.entryPoint_clearLast {image copied : Nat → UInt8} {size : Nat}
    (h : HeldDol image size dolBuf) (hheld : HoldsImage copied dolBuf image size) :
    (heldHeader dolBuf (clearLast (fileHeader image 0) copied)).entryPoint =
      (fileHeader image 0).entryPoint := by
  have hroom : 0x100 ≤ size := h.header
  have hclear := h.bssClear
  have hkept : ∀ k < 4,
      clearLast (fileHeader image 0) copied (dolBuf + (0xE0 + k)) = image (0 + (0xE0 + k)) := by
    intro k hk
    rw [clearLast_outside, hheld (0xE0 + k) (by omega), Nat.zero_add]
    rintro ⟨hle, hlt⟩
    rw [memsetCleared] at hlt
    split at hlt <;> omega
  have hword : be32 (fun i => clearLast (fileHeader image 0) copied (dolBuf + i)) 0xE0 =
      be32 (fun i => image (0 + i)) 0xE0 := be32_congr hkept
  exact hword

/-- `_main` brings the sections of a packed image to their places, and jumps into it. -/
theorem entryMain_boots (hgz : Gzipped gz out) (hfits : out.length ≤ entryRoom dolBuf)
    (hheld : HeldDol (unpackedImage out) out.length dolBuf)
    (hword : 4 ≤ (fileHeader (unpackedImage out) 0).bssLength)
    (hhandler : syscallMem + syscallLen ≤ handlerStart) (memory : Nat → UInt8) :
    ∃ entrypoint after,
      entryMain dolBuf handlerStart syscallLen gz memory = some (.booted entrypoint after) ∧
        Booted (unpackedImage out) out.length dolBuf handlerStart syscallLen memory entrypoint
          after := by
  have himage : HoldsImage (copyRange (entryMemcpy syscallMem handlerStart syscallLen memory)
      dolBuf out.length (unpackedImage out)) dolBuf (unpackedImage out) out.length := by
    intro i hi
    rw [copyRange_inside (by omega) (by omega), Nat.add_sub_cancel_left]
  obtain ⟨copied, hcopied, hmain⟩ := mainLoad_eq hheld himage
  rw [entryMemset_eq _ hword] at hmain
  have hstill : HoldsImage copied dolBuf (unpackedImage out) out.length :=
    holdsImage_of_placed hcopied (fun r hr => by
      obtain ⟨s, hs, hpresent, rfl⟩ := mem_sectionRegions.1 hr
      exact hheld.clear s hs hpresent) himage
  -- What the image does not take is as the copy of the handler has left it.
  have hrest : ∀ a, ¬ Taken (unpackedImage out) out.length dolBuf a →
      clearLast (fileHeader (unpackedImage out) 0) copied a =
        copyRange memory syscallMem syscallLen (fun i => memory (handlerStart + i)) a := by
    intro a htaken
    rw [Taken, not_or, not_or] at htaken
    obtain ⟨hno, hleft, haway⟩ := htaken
    rw [clearLast_outside hleft, placed_elsewhere hcopied hno, copyRange_outside (by omega),
      entryMemcpy_eq (Or.inl hhandler)]
  refine ⟨_, clearLast (fileHeader (unpackedImage out) 0) copied, ?_,
    hheld.entryPoint_clearLast hstill, ?_, ?_, ?_, ?_⟩
  · rw [entryMain_unpacked hgz hfits, hmain]
    rfl
  · intro s hs hpresent i hi hleft
    rw [clearLast_outside hleft, placed_section hcopied hs hpresent hi]
  · exact fun a ha => clearLast_inside ha
  · intro i hi htaken
    rw [hrest _ htaken, copyRange_inside (by omega) (by omega), Nat.add_sub_cancel_left]
  · intro a htaken haway
    rw [hrest a htaken, copyRange_outside haway]

/-- An image as it is packed. -/
def packedDol : List UInt8 :=
  (List.range 0x120).map overlappedDol

theorem packedDol_length : packedDol.length = 0x120 := by
  rw [packedDol, List.length_map, List.length_range]

theorem packedDol_held : HeldDol (unpackedImage packedDol) packedDol.length 0x81500000 where
  header := by
    rw [packedDol_length]
    decide
  inImage := by decide +kernel
  apart := by decide +kernel
  clear := by decide +kernel
  bssClear := by decide +kernel

theorem packedDol_boots :
    ∃ entrypoint after,
      entryMain 0x81500000 0x81301000 0x30 (storedFile packedDol) (fun _ => 1) =
          some (.booted entrypoint after) ∧
        Booted (unpackedImage packedDol) packedDol.length 0x81500000 0x81301000 0x30
          (fun _ => 1) entrypoint after :=
  entryMain_boots (storedFile_gzipped (by rw [packedDol_length]; decide))
    (by rw [packedDol_length]; decide) packedDol_held (by decide +kernel) (by decide) fun _ => 1

end Boot
end Cubiboot
