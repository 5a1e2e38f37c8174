import Cubiboot.Foundations.CString
import Cubiboot.Foundations.Placement
import Cubiboot.Foundations.Words

/-!
# The patches and their file

The loops of `main` that copy the sections of `patches.elf` and set its relocations,
`get_symbol_value`, `ensdwith`, and the names of the size symbols that `patch-size.py`
makes.

The tables of the file are lists of their entries, a string table is its characters, and
`image` has the bytes of the file.  The file is apart from the memory that is patched, and
the address that is stored back to a section header is not looked at again.  A result of
`none` is a write past the end of `stringBuffer`.

What the loops come to is in `Patching.Applied`.
-/

namespace Cubiboot
namespace Patching

open CopyRange Placement Words

/-- A string of the program, or of a string table. -/
abbrev Str := List Char

/-- The string in a string table at an offset. -/
def stringAt (table : Str) (offset : Nat) : Str :=
  (table.drop offset).takeWhile fun c => c ≠ Char.ofNat 0

/-- `Elf32_Shdr`, as far as it is used. -/
structure Elf32Shdr where
  shName : Nat
  shType : Nat
  shFlags : Nat
  shAddr : Nat
  shOffset : Nat
  shSize : Nat
deriving DecidableEq

/-- `Elf32_Sym`, as far as it is used. -/
structure Elf32Sym where
  stName : Nat
  stValue : Nat
  stValue_lt : stValue < 0x100000000

/-- The file. -/
structure PatchesElf where
  image : Nat → UInt8
  shdrs : List Elf32Shdr
  stringdata : Str
  syment : List Elf32Sym
  symstringdata : Str

/-- An entry of `bios_table`, as far as it is used. -/
structure BiosItem where
  relocPrefix : Str
  patchSuffix : Str
deriving DecidableEq

/-- `bios_table`. -/
def biosTable : List BiosItem :=
  [⟨"ntsc10".toList, "VER_NTSC_10".toList⟩,
    ⟨"ntsc11".toList, "VER_NTSC_11".toList⟩,
    ⟨"ntsc12_001".toList, "VER_NTSC_12_001".toList⟩,
    ⟨"ntsc12_101".toList, "VER_NTSC_12_101".toList⟩,
    ⟨"pal10".toList, "VER_PAL_10".toList⟩,
    ⟨"pal11".toList, "VER_PAL_11".toList⟩,
    ⟨"pal12".toList, "VER_PAL_12".toList⟩]

def shtNobits : Nat := 8
def shfAlloc : Nat := 2

/-- `sizeof(stringBuffer)`. -/
def stringBufferSize : Nat := 255

def patchPrefix : Str := ".patch.".toList
def relocSection : Str := ".reloc".toList

/-- `patch_region_suffix`. -/
def patchRegionSuffix (bios : BiosItem) : Str :=
  bios.patchSuffix ++ "_func".toList

/-- `ensdwith`. -/
def ensdwith (str suffix : Str) : Bool :=
  if str.length < suffix.length then
    false
  else
    suffix.isPrefixOf (str.drop (str.length - suffix.length))

section File

variable (elf : PatchesElf)

def sectionName (shdr : Elf32Shdr) : Str :=
  stringAt elf.stringdata shdr.shName

def symbolName (sym : Elf32Sym) : Str :=
  stringAt elf.symstringdata sym.stName

/-- `strncmp(patch_prefix, sh_name, patch_prefix_len) == 0`. -/
def isPatch (shdr : Elf32Shdr) : Bool :=
  patchPrefix.isPrefixOf (sectionName elf shdr)

/-- `get_symbol_value`. -/
def getSymbolValue (symName : Str) : Nat :=
  elf.syment.foldl
    (fun value sym =>
      if sym.stName = 0 then value
      else if symbolName elf sym = symName then sym.stValue
      else value)
    0

/-- The name of the symbol for the size of a section, put together in `stringBuffer`. -/
def currentSymname (shName : Str) : Option Str :=
  (CString.strcpy stringBufferSize shName).bind fun buffer =>
    (CString.strcat (buffer.cut (shName.length - 5)) "_size".toList).map fun buffer =>
      buffer.1.drop patchPrefix.length

/-- The address that a section is copied to. -/
def targetAddr (shAddr : Nat) : Nat :=
  (shAddr &&& 0x3FFFFFFF) ||| 0x80000000

/-- The variables of `main` in the loop over the sections. -/
structure PatchState where
  mem : Nat → UInt8
  relocStart : Nat
  relocEnd : Nat

/-- `memcpy` of a section to memory. -/
def copySection (s : PatchState) (shdr : Elf32Shdr) (size : Nat) : PatchState :=
  { s with
    mem := copyRange s.mem (targetAddr shdr.shAddr) size
      fun i => elf.image (shdr.shOffset + i) }

/-- One pass of the loop over the sections. -/
def patchSection (bios : BiosItem) (s : PatchState) (shdr : Elf32Shdr) : Option PatchState :=
  let shName := sectionName elf shdr
  if (shdr.shFlags &&& shfAlloc = 0 ∧ ¬ isPatch elf shdr = true) ∨ shdr.shAddr = 0 ∨
      shdr.shSize = 0 then
    some s
  else if shdr.shType = shtNobits ∧ ¬ isPatch elf shdr = true then
    some s
  else if isPatch elf shdr then
    if ensdwith shName (patchRegionSuffix bios) then
      (currentSymname shName).map fun symname =>
        let shSize := getSymbolValue elf symname
        copySection elf s shdr (if shSize = 0 then shdr.shSize else shSize)
    else
      some s
  else if shName = relocSection then
    let shAddr := targetAddr shdr.shAddr
    some
      (copySection elf { s with relocStart := shAddr, relocEnd := word (shAddr + shdr.shSize) }
        shdr shdr.shSize)
  else
    some (copySection elf s shdr shdr.shSize)

/-- The loop over the sections. -/
def patchSections (bios : BiosItem) (mem : Nat → UInt8) : Option PatchState :=
  elf.shdrs.foldlM (patchSection elf bios) ⟨mem, 0, 0⟩

/-- A word in memory. -/
def wordRegion (address value : Nat) : Region UInt8 where
  place := address
  count := 4
  content := fun i => UInt8.ofNat (value / 256 ^ (3 - i))

/-- The variables of `main` in the loop over the relocations. -/
structure RelocState where
  mem : Nat → UInt8
  failedPatching : Bool

/-- One pass of the loop over the relocations. -/
def relocSymbol
    (bios : BiosItem) (relocStart relocEnd : Nat) (s : RelocState) (sym : Elf32Sym) :
    Option RelocState :=
  if sym.stName = 0 then
    some s
  else if relocStart ≤ sym.stValue ∧ sym.stValue < relocEnd then
    (CString.strcpy stringBufferSize (bios.relocPrefix ++ '_' :: symbolName elf sym)).map
      fun buffer =>
        let val := getSymbolValue elf buffer.1
        if val ≠ 0 then { s with mem := (wordRegion sym.stValue val).copied s.mem }
        else { s with failedPatching := true }
  else
    some s

/-- What becomes of `main`. -/
inductive Outcome where
  | halted
  | continues (mem : Nat → UInt8)

/-- The loop over the relocations, and what follows it. -/
def applyRelocs (bios : BiosItem) (s : PatchState) : Option Outcome :=
  (elf.syment.foldlM (relocSymbol elf bios s.relocStart s.relocEnd) ⟨s.mem, false⟩).map
    fun r => if r.failedPatching then .halted else .continues r.mem

end File

/-- `S.removeprefix`. -/
def removePrefix (s start : Str) : Str :=
  if start.isPrefixOf s then s.drop start.length else s

/-- `S.removesuffix`. -/
def removeSuffix (s ending : Str) : Str :=
  if ending.isSuffixOf s then s.take (s.length - ending.length) else s

/-- The name of the symbol for the size of a section. -/
def sizeName (sectName : Str) : Str :=
  removeSuffix (removePrefix sectName patchPrefix) "_func".toList ++ "_size".toList

end Patching
end Cubiboot
