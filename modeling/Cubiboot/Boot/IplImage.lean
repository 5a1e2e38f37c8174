import Cubiboot.Boot.Scrambler

/-!
# Building and reading a ROM

`iplscramble.py` scrambles a program as it will lie in the ROM and `iplinject.py` puts
it there; `ipl.c` and `emu/tweaks.c` descramble the ROM in place and take the program
from it.

A ROM is taken apart into `RomParts`, with a place for a program of some size.  The key
stream runs through what lies before the program as well, so the program is scrambled with
as many key bytes dropped; on what stands there in the ROM the stream does not depend.

Results: `exists_romParts`, that every ROM has these parts; `RomParts.inject`, the ROM
with a program put in; `iplscramble_eq`, the program as it is scrambled for its place;
`RomParts.descrambled`, the ROM as the console sees it; and `injected_loads`, that the
console loads the program that was built, and finds the rest of the ROM as it was.
-/

namespace Cubiboot
namespace Boot

open KeyStream

/-- `IPL_SIZE`. -/
def iplSize : Nat := 0x200000

/-- `IPL_ROM_FONT_SJIS`. -/
def iplRomFontSjis : Nat := 0x1AFF00

/-- `DECRYPT_START`. -/
def decryptStart : Nat := 0x100

/-- `BS2_START_OFFSET`. -/
def bs2StartOffset : Nat := 0x800

/-- `BS2_CODE_OFFSET`. -/
def bs2CodeOffset : Nat := bs2StartOffset + 0x20

/-- `main` of `iplscramble.py`. -/
def iplscramble (builtimg : List UInt8) : Option (List UInt8) :=
  (scramble (List.replicate 0x700 0 ++ builtimg)).map (List.drop 0x700)

/-- `main` of `iplinject.py`. -/
def iplinject (ipl sexe : List UInt8) : List UInt8 :=
  ipl.take 0x800 ++ (sexe ++ ipl.drop (sexe.length + 0x800))

/-- `bios_buffer` after `Descrambler` in `load_ipl_rom`, `load_ipl_file` and `ensure_ipl_loaded`. -/
def descrambledBios (biosBuffer : List UInt8) : Option (List UInt8) :=
  (descrambler (biosBuffer.drop decryptStart) (iplRomFontSjis - decryptStart)).map
    (biosBuffer.take decryptStart ++ ·)

/-- What these copy to `bs2`. -/
def loadBs2 (biosBuffer : List UInt8) : Option (List UInt8) :=
  (descrambledBios biosBuffer).map fun b => (b.drop bs2CodeOffset).take (iplSize - bs2CodeOffset)

/-- The parts of a ROM with a place for a program of some length. -/
structure RomParts (size : Nat) where
  head : List UInt8
  bs1 : List UInt8
  bs2 : List UInt8
  rest : List UInt8
  fonts : List UInt8
  head_length : head.length = decryptStart
  bs1_length : bs1.length = 0x700
  bs2_length : bs2.length = size
  rest_length : bs2StartOffset + size + rest.length = iplRomFontSjis
  fonts_length : iplRomFontSjis + fonts.length = iplSize

/-- The ROM. -/
def RomParts.rom {size : Nat} (r : RomParts size) : List UInt8 :=
  r.head ++ (r.bs1 ++ (r.bs2 ++ (r.rest ++ r.fonts)))

variable {size : Nat}

/-- A ROM has these parts. -/
theorem exists_romParts {ipl : List UInt8} (hipl : ipl.length = iplSize)
    (hsize : bs2StartOffset + size ≤ iplRomFontSjis) : ∃ r : RomParts size, r.rom = ipl := by
  simp only [iplSize, bs2StartOffset, iplRomFontSjis] at hipl hsize
  refine ⟨{
    head := ipl.take 0x100
    bs1 := (ipl.drop 0x100).take 0x700
    bs2 := (ipl.drop 0x800).take size
    rest := (ipl.drop (0x800 + size)).take (0x1AFF00 - (0x800 + size))
    fonts := ipl.drop 0x1AFF00
    head_length := ?_
    bs1_length := ?_
    bs2_length := ?_
    rest_length := ?_
    fonts_length := ?_ }, ?_⟩
  · simp only [List.length_take, decryptStart]
    omega
  · simp only [List.length_take, List.length_drop]
    omega
  · simp only [List.length_take, List.length_drop]
    omega
  · simp only [List.length_take, List.length_drop, bs2StartOffset, iplRomFontSjis]
    omega
  · simp only [List.length_drop, iplRomFontSjis, iplSize]
    omega
  · have hfonts : ipl.drop 0x1AFF00 =
        (ipl.drop (0x800 + size)).drop (0x1AFF00 - (0x800 + size)) := by
      rw [List.drop_drop]
      congr 1
      omega
    have hrest : ipl.drop (0x800 + size) = (ipl.drop 0x800).drop size := by
      rw [List.drop_drop]
    have hbs2 : ipl.drop 0x800 = (ipl.drop 0x100).drop 0x700 := by
      rw [List.drop_drop]
    simp only [RomParts.rom]
    rw [hfonts, List.take_append_drop, hrest, List.take_append_drop, hbs2, List.take_append_drop,
      List.take_append_drop]

/-- The same ROM with another program of the same length. -/
def RomParts.with (r : RomParts size) (program : List UInt8) (h : program.length = size) :
    RomParts size :=
  { r with bs2 := program, bs2_length := h }

theorem RomParts.inject (r : RomParts size) {program : List UInt8} (h : program.length = size) :
    iplinject r.rom program = (r.with program h).rom := by
  have hfront : (r.head ++ r.bs1).length = 0x800 := by
    simp [r.head_length, r.bs1_length, decryptStart]
  have hlater : (r.head ++ r.bs1 ++ r.bs2).length = program.length + 0x800 := by
    simp only [List.length_append, r.head_length, r.bs1_length, r.bs2_length, decryptStart, h]
    omega
  have htake : r.rom.take 0x800 = r.head ++ r.bs1 := by
    rw [RomParts.rom, ← List.append_assoc, List.take_left' hfront]
  have hdrop : r.rom.drop (program.length + 0x800) = r.rest ++ r.fonts := by
    rw [RomParts.rom, ← List.append_assoc, ← List.append_assoc, List.drop_left' hlater]
  rw [iplinject, htake, hdrop]
  simp [RomParts.rom, RomParts.with]

/-- The state of the registers where a program starts. -/
def bs2State : Scrambler :=
  after scramblerMachine.keyByte Scrambler.start 0x700

/-- A scrambled program. -/
def bs2Crypt (program : List UInt8) : List UInt8 :=
  crypt scramblerMachine.keyByte bs2State program

theorem bs2Crypt_length (program : List UInt8) : (bs2Crypt program).length = program.length :=
  crypt_length _ _

theorem iplscramble_eq (builtimg : List UInt8) :
    iplscramble builtimg = some (bs2Crypt builtimg) := by
  obtain ⟨bs1, hbs1⟩ : ∃ bs1, bs1 = List.replicate 0x700 (0 : UInt8) := ⟨_, rfl⟩
  have hlen : bs1.length = 0x700 := by rw [hbs1, List.length_replicate]
  have hcrypt : romCrypt (bs1 ++ builtimg) = romCrypt bs1 ++ bs2Crypt builtimg := by
    simp only [romCrypt, crypt_append, hlen, bs2Crypt, bs2State]
  rw [iplscramble, ← hbs1, scramble_eq, hcrypt, Option.map_some,
    List.drop_left' ((romCrypt_length bs1).trans hlen)]

/-- The ROM in clear. -/
def RomParts.clear (r : RomParts size) : RomParts size where
  head := r.head
  bs1 := romCrypt r.bs1
  bs2 := bs2Crypt r.bs2
  rest := crypt scramblerMachine.keyByte (after scramblerMachine.keyByte bs2State size) r.rest
  fonts := r.fonts
  head_length := r.head_length
  bs1_length := (romCrypt_length _).trans r.bs1_length
  bs2_length := (bs2Crypt_length _).trans r.bs2_length
  rest_length := by
    rw [crypt_length]
    exact r.rest_length
  fonts_length := r.fonts_length

theorem RomParts.descrambled (r : RomParts size) :
    descrambledBios r.rom = some r.clear.rom := by
  have hhead := r.head_length
  have hbs1 := r.bs1_length
  have hbs2 := r.bs2_length
  have hrest := r.rest_length
  have hdrop : r.rom.drop decryptStart = (r.bs1 ++ (r.bs2 ++ r.rest)) ++ r.fonts := by
    rw [RomParts.rom, List.drop_left' hhead]
    simp
  have htake : r.rom.take decryptStart = r.head := by
    rw [RomParts.rom, List.take_left' hhead]
  have hlen : (r.bs1 ++ (r.bs2 ++ r.rest)).length = iplRomFontSjis - decryptStart := by
    simp only [List.length_append, hbs1, hbs2, iplRomFontSjis, decryptStart, bs2StartOffset]
      at hrest ⊢
    omega
  have hcrypt : romCrypt (r.bs1 ++ (r.bs2 ++ r.rest)) =
      r.clear.bs1 ++ (r.clear.bs2 ++ r.clear.rest) := by
    simp only [romCrypt, crypt_append, hbs1, hbs2, RomParts.clear, bs2Crypt, bs2State]
  have hrun : descrambler (r.rom.drop decryptStart) (iplRomFontSjis - decryptStart) =
      some (r.clear.bs1 ++ (r.clear.bs2 ++ r.clear.rest) ++ r.fonts) := by
    rw [hdrop, descrambler_eq (by simp [← hlen]), List.take_left' hlen, List.drop_left' hlen,
      hcrypt]
  rw [descrambledBios, hrun, htake]
  simp [RomParts.rom, RomParts.clear]

theorem RomParts.clear_with (r : RomParts size) {program : List UInt8}
    (h : program.length = size) :
    (r.with (bs2Crypt program) ((bs2Crypt_length program).trans h)).clear =
      r.clear.with program h := by
  have htwice : bs2Crypt (bs2Crypt program) = program := crypt_crypt _ _
  simp [RomParts.clear, RomParts.with, htwice]

/-- `bs2` is the program without its header, and what comes after it. -/
theorem RomParts.bs2_eq (r : RomParts size) (hsize : 0x20 ≤ size) :
    (r.rom.drop bs2CodeOffset).take (iplSize - bs2CodeOffset) =
      r.bs2.drop 0x20 ++ (r.rest ++ r.fonts) := by
  have hhead := r.head_length
  have hbs1 := r.bs1_length
  have hbs2 := r.bs2_length
  have hrest := r.rest_length
  have hfonts := r.fonts_length
  simp only [decryptStart, bs2StartOffset, iplRomFontSjis, iplSize] at hhead hrest hfonts
  have hdrop : r.rom.drop bs2CodeOffset = r.bs2.drop 0x20 ++ (r.rest ++ r.fonts) := by
    have hfront : (r.head ++ r.bs1).length = 0x800 := by simp [hhead, hbs1]
    have hjoin : r.rom = (r.head ++ r.bs1) ++ (r.bs2 ++ (r.rest ++ r.fonts)) := by
      simp [RomParts.rom]
    rw [hjoin, bs2CodeOffset, bs2StartOffset, ← List.drop_drop, List.drop_left' hfront,
      List.drop_append_of_le_length (by omega)]
  rw [hdrop]
  refine List.take_of_length_le ?_
  simp only [List.length_append, List.length_drop, iplSize, bs2CodeOffset, bs2StartOffset]
  omega

/--
Injecting a scrambled program into a ROM is injecting the program into the ROM in clear, and
the program is what is copied to `bs2`.
-/
theorem injected_loads (ipl builtimg : List UInt8) (hipl : ipl.length = iplSize)
    (hheader : 0x20 ≤ builtimg.length)
    (hfits : bs2StartOffset + builtimg.length ≤ iplRomFontSjis) :
    ∃ sexe clear, iplscramble builtimg = some sexe ∧ descrambledBios ipl = some clear ∧
      descrambledBios (iplinject ipl sexe) = some (iplinject clear builtimg) ∧
      loadBs2 (iplinject ipl sexe) =
        some (builtimg.drop 0x20 ++ clear.drop (builtimg.length + 0x800)) := by
  obtain ⟨r, rfl⟩ := exists_romParts hipl hfits
  have hprogram : builtimg.length = builtimg.length := rfl
  have hdescrambled : descrambledBios (iplinject r.rom (bs2Crypt builtimg)) =
      some (r.clear.with builtimg hprogram).rom := by
    rw [r.inject (bs2Crypt_length builtimg), RomParts.descrambled, r.clear_with hprogram]
  have hlater : r.clear.rom.drop (builtimg.length + 0x800) = r.clear.rest ++ r.clear.fonts := by
    have hlen : (r.clear.head ++ r.clear.bs1 ++ r.clear.bs2).length = builtimg.length + 0x800 := by
      simp only [List.length_append, r.clear.head_length, r.clear.bs1_length,
        r.clear.bs2_length, decryptStart]
      omega
    rw [RomParts.rom, ← List.append_assoc, ← List.append_assoc, List.drop_left' hlen]
  refine ⟨bs2Crypt builtimg, r.clear.rom, iplscramble_eq builtimg, r.descrambled, ?_, ?_⟩
  · rw [hdescrambled, r.clear.inject hprogram]
  · rw [loadBs2, hdescrambled, Option.map_some, RomParts.bs2_eq _ hheader, hlater]
    rfl

/-- Bytes that count up. -/
def countingBytes (n : Nat) : List UInt8 :=
  (List.range n).map UInt8.ofNat

theorem countingBytes_length (n : Nat) : (countingBytes n).length = n := by
  rw [countingBytes, List.length_map, List.length_range]

/-- A program of 8 KiB is what is copied to the front of `bs2`, but for its header. -/
theorem injected_loads_counting :
    ∃ sexe loaded, iplscramble (countingBytes 0x2000) = some sexe ∧
      loadBs2 (iplinject (countingBytes iplSize) sexe) = some loaded ∧
      loaded.take 0x1FE0 = (countingBytes 0x2000).drop 0x20 := by
  have hlength := countingBytes_length 0x2000
  obtain ⟨sexe, clear, hsexe, -, -, hloads⟩ :=
    injected_loads (countingBytes iplSize) (countingBytes 0x2000) (countingBytes_length iplSize)
      (by rw [hlength]; decide) (by rw [hlength]; decide)
  refine ⟨sexe, _, hsexe, hloads, List.take_left' ?_⟩
  rw [List.length_drop, hlength]

end Boot
end Cubiboot
