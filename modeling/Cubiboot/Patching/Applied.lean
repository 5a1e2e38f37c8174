import Cubiboot.Foundations.Folds
import Cubiboot.Patching.Names

/-!
# The patches are complete

`Selected` says which sections a console is to get, and `WellFormed` what the linker and
`patch-size.py` see to.  The loop over the sections copies the selected ones, in their
order, and no others.  After the loop over the relocations `main` goes on when every
symbol in `.reloc` has a value for the console, and then has set each of them to it.

Results: `patchSections_eq`, by induction on the sections, the memory after the first
loop; `relocated_word`, what the second writes for each symbol; `not_selected_of_other`,
that a section of another revision is not copied; and `patches_complete`.
-/

namespace Cubiboot
namespace Patching

open Placement Words

/-- A section that takes up memory and has its bytes in the file. -/
def Loadable (shdr : Elf32Shdr) : Prop :=
  shdr.shFlags &&& shfAlloc ≠ 0 ∧ shdr.shType ≠ shtNobits ∧ shdr.shAddr ≠ 0 ∧ shdr.shSize ≠ 0

instance (shdr : Elf32Shdr) : Decidable (Loadable shdr) :=
  inferInstanceAs (Decidable (_ ∧ _))

section Spec

variable (elf : PatchesElf) (bios : BiosItem)

/-- The sections of a console. -/
def Selected (shdr : Elf32Shdr) : Prop :=
  if isPatch elf shdr then patchRegionSuffix bios <:+ sectionName elf shdr else Loadable shdr

instance (shdr : Elf32Shdr) : Decidable (Selected elf bios shdr) :=
  inferInstanceAs (Decidable
    (if isPatch elf shdr then patchRegionSuffix bios <:+ sectionName elf shdr
      else Loadable shdr))

/-- How much of a section there is: for a patch, what the symbol for its size says. -/
def sectionLength (shdr : Elf32Shdr) : Nat :=
  if isPatch elf shdr then
    (lastNamed elf (sizeName (sectionName elf shdr))).getD shdr.shSize
  else
    shdr.shSize

/-- A section in memory. -/
def sectionRegion (shdr : Elf32Shdr) : Region UInt8 where
  place := targetAddr shdr.shAddr
  count := sectionLength elf shdr
  content := fun i => elf.image (shdr.shOffset + i)

/-- The selected sections in memory, in the order of the file. -/
def selectedRegions : List (Region UInt8) :=
  (elf.shdrs.filter fun shdr => Selected elf bios shdr).map (sectionRegion elf)

/-- The section of the relocations, when there are any. -/
def IsReloc (shdr : Elf32Shdr) : Prop :=
  sectionName elf shdr = relocSection ∧ shdr.shSize ≠ 0

instance (shdr : Elf32Shdr) : Decidable (IsReloc elf shdr) :=
  inferInstanceAs (Decidable (_ ∧ _))

/-- A symbol with a name, in the range of `.reloc`. -/
def InReloc (sym : Elf32Sym) : Prop :=
  sym.stName ≠ 0 ∧ ∃ shdr ∈ elf.shdrs, IsReloc elf shdr ∧
    shdr.shAddr ≤ sym.stValue ∧ sym.stValue < shdr.shAddr + shdr.shSize

instance (sym : Elf32Sym) : Decidable (InReloc elf sym) :=
  inferInstanceAs (Decidable (_ ∧ _))

/-- The name of its value for a console. -/
def relocName (sym : Elf32Sym) : Str :=
  bios.relocPrefix ++ '_' :: symbolName elf sym

/--
What the build makes sure of.  The macros of the patches leave out those without an
address, `patch-size.py` writes the sizes of sections that have bytes, the linker script
puts `.reloc` to 0x81600000 and up, and the symbols in it are variables of the patches.
-/
structure WellFormed : Prop where
  /-- A patch has an address and bytes. -/
  placed : ∀ shdr ∈ elf.shdrs, isPatch elf shdr = true → shdr.shAddr ≠ 0 ∧ shdr.shSize ≠ 0
  /-- The size of a patch is not zero. -/
  sized : ∀ shdr ∈ elf.shdrs, isPatch elf shdr = true →
    lastNamed elf (sizeName (sectionName elf shdr)) ≠ some 0
  /-- Names that are put together have room. -/
  names : ∀ shdr ∈ elf.shdrs, isPatch elf shdr = true →
    (sectionName elf shdr).length < stringBufferSize
  relocNames : ∀ sym ∈ elf.syment, InReloc elf sym → ∀ b ∈ biosTable,
    (relocName elf b sym).length < stringBufferSize
  /-- There is one section of relocations at most, and it is loaded, to cached memory. -/
  reloc : ∀ shdr ∈ elf.shdrs, IsReloc elf shdr → Loadable shdr ∧
    0x80000000 ≤ shdr.shAddr ∧ shdr.shAddr + shdr.shSize ≤ 0xC0000000
  oneReloc : ∀ shdr ∈ elf.shdrs, ∀ shdr' ∈ elf.shdrs,
    IsReloc elf shdr → IsReloc elf shdr' → shdr = shdr'
  /-- Its symbols are words of their own. -/
  slots : (elf.syment.filter fun sym => InReloc elf sym).Pairwise fun sym sym' =>
    sym.stValue + 4 ≤ sym'.stValue ∨ sym'.stValue + 4 ≤ sym.stValue

end Spec

variable {elf : PatchesElf} {bios : BiosItem} {s : PatchState} {shdr : Elf32Shdr}
variable {sym : Elf32Sym} {mem : Nat → UInt8}

/-- A section that is handled: copied when it is selected, and noted when it is `.reloc`. -/
def handled (elf : PatchesElf) (bios : BiosItem) (s : PatchState) (shdr : Elf32Shdr) :
    PatchState where
  mem := if Selected elf bios shdr then (sectionRegion elf shdr).copied s.mem else s.mem
  relocStart := if IsReloc elf shdr then shdr.shAddr else s.relocStart
  relocEnd := if IsReloc elf shdr then shdr.shAddr + shdr.shSize else s.relocEnd

/-- An address of cached memory is left as it is. -/
theorem targetAddr_cached {a : Nat} (h : 0x80000000 ≤ a) (h' : a < 0xC0000000) :
    targetAddr a = a := by
  have hand : a &&& 0x3FFFFFFF = a - 0x80000000 := by
    have hmod : a &&& 0x3FFFFFFF = a % 0x40000000 := Nat.and_two_pow_sub_one_eq_mod a 30
    omega
  have hor : 0x80000000 + (a - 0x80000000) = 0x80000000 ||| (a - 0x80000000) :=
    Nat.two_pow_add_eq_or_of_lt (i := 31) (by omega) 1
  rw [targetAddr, hand, Nat.or_comm, ← hor]
  omega

theorem isReloc_not_patch (h : IsReloc elf shdr) : ¬ isPatch elf shdr = true := by
  rw [isPatch, h.1]
  decide

/-- The length that `main` takes for a patch. -/
theorem patchLength_eq (hpatch : isPatch elf shdr = true)
    (hsized : lastNamed elf (sizeName (sectionName elf shdr)) ≠ some 0) :
    (if getSymbolValue elf (sizeName (sectionName elf shdr)) = 0 then shdr.shSize
      else getSymbolValue elf (sizeName (sectionName elf shdr))) = sectionLength elf shdr := by
  rw [sectionLength, if_pos hpatch, getSymbolValue_eq]
  cases hlast : lastNamed elf (sizeName (sectionName elf shdr)) with
  | none => rfl
  | some v =>
      have hv : v ≠ 0 := fun hzero => hsized (hlast.trans (congrArg some hzero))
      exact if_neg hv

/-- A patch is copied when its name ends in the suffix of the console. -/
theorem patchSection_patch (h : WellFormed elf) (hbios : bios ∈ biosTable)
    (hshdr : shdr ∈ elf.shdrs) (hpatch : isPatch elf shdr = true) :
    patchSection elf bios s shdr = some (handled elf bios s shdr) := by
  obtain ⟨haddr, hsize⟩ := h.placed shdr hshdr hpatch
  have hreloc : ¬ IsReloc elf shdr := fun hreloc => isReloc_not_patch hreloc hpatch
  have hkept : ¬ ((shdr.shFlags &&& shfAlloc = 0 ∧ ¬ isPatch elf shdr = true) ∨
      shdr.shAddr = 0 ∨ shdr.shSize = 0) := by
    rintro (⟨_, hno⟩ | hzero | hzero)
    · exact hno hpatch
    · exact haddr hzero
    · exact hsize hzero
  have hbits : ¬ (shdr.shType = shtNobits ∧ ¬ isPatch elf shdr = true) :=
    fun hno => hno.2 hpatch
  rw [patchSection, if_neg hkept, if_neg hbits, if_pos hpatch, handled, if_neg hreloc,
    if_neg hreloc]
  by_cases hends : patchRegionSuffix bios <:+ sectionName elf shdr
  · have hselected : Selected elf bios shdr := by
      rw [Selected, if_pos hpatch]
      exact hends
    have hsymname := currentSymname_eq (List.isPrefixOf_iff_prefix.1 hpatch) (func_suffix hends)
      ((patchRegionSuffix_length hbios).trans hends.length_le) (h.names shdr hshdr hpatch)
    rw [if_pos (ensdwith_iff.2 hends), hsymname, Option.map_some, if_pos hselected]
    show some (copySection elf s shdr (if getSymbolValue elf _ = 0 then shdr.shSize
      else getSymbolValue elf _)) = _
    rw [patchLength_eq hpatch (h.sized shdr hshdr hpatch)]
    rfl
  · have hselected : ¬ Selected elf bios shdr := by
      rw [Selected, if_pos hpatch]
      exact hends
    have hno : ¬ ensdwith (sectionName elf shdr) (patchRegionSuffix bios) = true :=
      fun hends' => hends (ensdwith_iff.1 hends')
    rw [if_neg hno, if_neg hselected]

/-- Another section is copied when it is loadable. -/
theorem patchSection_other (h : WellFormed elf) (hshdr : shdr ∈ elf.shdrs)
    (hpatch : ¬ isPatch elf shdr = true) :
    patchSection elf bios s shdr = some (handled elf bios s shdr) := by
  have hselected : Selected elf bios shdr ↔ Loadable shdr := by
    rw [Selected, if_neg hpatch]
  have hlength : sectionLength elf shdr = shdr.shSize := if_neg hpatch
  rw [patchSection, handled]
  by_cases hloadable : Loadable shdr
  · have hsel := hselected.2 hloadable
    obtain ⟨halloc, hbits, haddr, hsize⟩ := hloadable
    have hkept : ¬ ((shdr.shFlags &&& shfAlloc = 0 ∧ ¬ isPatch elf shdr = true) ∨
        shdr.shAddr = 0 ∨ shdr.shSize = 0) := by
      rintro (⟨hno, _⟩ | hzero | hzero)
      · exact halloc hno
      · exact haddr hzero
      · exact hsize hzero
    have hregion : (sectionRegion elf shdr).copied s.mem =
        (copySection elf s shdr shdr.shSize).mem := by
      rw [Region.copied, sectionRegion, hlength]
      rfl
    rw [if_neg hkept, if_neg fun hno => hbits hno.1, if_neg hpatch,
      if_pos hsel, hregion]
    by_cases hreloc : IsReloc elf shdr
    · obtain ⟨_, hlow, hhigh⟩ := h.reloc shdr hshdr hreloc
      have htarget : targetAddr shdr.shAddr = shdr.shAddr :=
        targetAddr_cached hlow (by omega)
      have hend : word (shdr.shAddr + shdr.shSize) = shdr.shAddr + shdr.shSize :=
        word_of_lt (by omega)
      rw [if_pos hreloc.1, if_pos hreloc, if_pos hreloc, htarget]
      show some (copySection elf
        { s with relocStart := shdr.shAddr, relocEnd := word (shdr.shAddr + shdr.shSize) }
        shdr shdr.shSize) = _
      rw [hend]
      rfl
    · have hname : ¬ sectionName elf shdr = relocSection := fun hname => hreloc ⟨hname, hsize⟩
      rw [if_neg hname, if_neg hreloc, if_neg hreloc]
      rfl
  · have hreloc : ¬ IsReloc elf shdr := fun hreloc => hloadable (h.reloc shdr hshdr hreloc).1
    rw [if_neg fun hsel => hloadable (hselected.1 hsel), if_neg hreloc, if_neg hreloc]
    by_cases hskipped : (shdr.shFlags &&& shfAlloc = 0 ∧ ¬ isPatch elf shdr = true) ∨
        shdr.shAddr = 0 ∨ shdr.shSize = 0
    · rw [if_pos hskipped]
    · have hbits : shdr.shType = shtNobits := by
        by_contra hbits
        refine hloadable ⟨fun hno => ?_, hbits, fun hno => ?_, fun hno => ?_⟩
        · exact hskipped (Or.inl ⟨hno, hpatch⟩)
        · exact hskipped (Or.inr (Or.inl hno))
        · exact hskipped (Or.inr (Or.inr hno))
      rw [if_neg hskipped, if_pos ⟨hbits, hpatch⟩]

theorem patchSection_handled (h : WellFormed elf) (hbios : bios ∈ biosTable)
    (hshdr : shdr ∈ elf.shdrs) : patchSection elf bios s shdr = some (handled elf bios s shdr) := by
  by_cases hpatch : isPatch elf shdr = true
  · exact patchSection_patch h hbios hshdr hpatch
  · exact patchSection_other h hshdr hpatch

/-- The loop over the sections copies the selected ones in their order. -/
theorem handled_mem (l : List Elf32Shdr) (s : PatchState) :
    (l.foldl (handled elf bios) s).mem =
      copiedAll ((l.filter fun shdr => Selected elf bios shdr).map (sectionRegion elf))
        s.mem := by
  induction l generalizing s with
  | nil => rfl
  | cons shdr l ih =>
      rw [List.foldl_cons, ih]
      by_cases hselected : Selected elf bios shdr
      · rw [List.filter_cons_of_pos (by simpa using hselected), handled, if_pos hselected]
        rfl
      · rw [List.filter_cons_of_neg (by simpa using hselected), handled, if_neg hselected]

/-- Without a section of relocations there is no range. -/
theorem handled_range_none {l : List Elf32Shdr} (h : ∀ shdr ∈ l, ¬ IsReloc elf shdr)
    (bios : BiosItem) (s : PatchState) :
    (l.foldl (handled elf bios) s).relocStart = s.relocStart ∧
      (l.foldl (handled elf bios) s).relocEnd = s.relocEnd := by
  induction l generalizing s with
  | nil => exact ⟨rfl, rfl⟩
  | cons shdr l ih =>
      have hno : ¬ IsReloc elf shdr := h shdr List.mem_cons_self
      obtain ⟨hstart, hend⟩ := ih (fun x hx => h x (List.mem_cons_of_mem _ hx))
        (handled elf bios s shdr)
      rw [List.foldl_cons, hstart, hend, handled, if_neg hno, if_neg hno]
      exact ⟨rfl, rfl⟩

/-- The range is that of the section of relocations. -/
theorem handled_range_found (h : WellFormed elf) (hshdr : shdr ∈ elf.shdrs)
    (hreloc : IsReloc elf shdr) (bios : BiosItem) (s : PatchState) :
    (elf.shdrs.foldl (handled elf bios) s).relocStart = shdr.shAddr ∧
      (elf.shdrs.foldl (handled elf bios) s).relocEnd = shdr.shAddr + shdr.shSize := by
  refine Folds.foldl_reaches
    (P := fun s : PatchState =>
      s.relocStart = shdr.shAddr ∧ s.relocEnd = shdr.shAddr + shdr.shSize)
    s hshdr (fun s y hy hs => ?_) fun s => ?_
  · by_cases hy' : IsReloc elf y
    · obtain rfl := h.oneReloc y hy shdr hshdr hy' hreloc
      rw [handled, if_pos hy', if_pos hy']
      exact ⟨rfl, rfl⟩
    · rw [handled, if_neg hy', if_neg hy']
      exact hs
  · rw [handled, if_pos hreloc, if_pos hreloc]
    exact ⟨rfl, rfl⟩

theorem handled_range (h : WellFormed elf) (mem : Nat → UInt8) (bios : BiosItem) (v : Nat) :
    ((elf.shdrs.foldl (handled elf bios) ⟨mem, 0, 0⟩).relocStart ≤ v ∧
        v < (elf.shdrs.foldl (handled elf bios) ⟨mem, 0, 0⟩).relocEnd) ↔
      ∃ shdr ∈ elf.shdrs, IsReloc elf shdr ∧ shdr.shAddr ≤ v ∧
        v < shdr.shAddr + shdr.shSize := by
  by_cases hex : ∃ shdr ∈ elf.shdrs, IsReloc elf shdr
  · obtain ⟨shdr, hshdr, hreloc⟩ := hex
    obtain ⟨hstart, hend⟩ := handled_range_found h hshdr hreloc bios ⟨mem, 0, 0⟩
    rw [hstart, hend]
    constructor
    · rintro ⟨hlow, hhigh⟩
      exact ⟨shdr, hshdr, hreloc, hlow, hhigh⟩
    · rintro ⟨shdr', hshdr', hreloc', hlow, hhigh⟩
      obtain rfl := h.oneReloc shdr' hshdr' shdr hshdr hreloc' hreloc
      exact ⟨hlow, hhigh⟩
  · have hno : ∀ shdr ∈ elf.shdrs, ¬ IsReloc elf shdr :=
      fun shdr hshdr hreloc => hex ⟨shdr, hshdr, hreloc⟩
    obtain ⟨_, hend⟩ := handled_range_none hno bios ⟨mem, 0, 0⟩
    rw [hend]
    constructor
    · rintro ⟨_, hlt⟩
      exact absurd hlt (Nat.not_lt_zero v)
    · rintro ⟨shdr, hshdr, hreloc, _⟩
      exact absurd hreloc (hno shdr hshdr)

/-- The loop over the sections. -/
theorem patchSections_eq (h : WellFormed elf) (hbios : bios ∈ biosTable) (mem : Nat → UInt8) :
    patchSections elf bios mem = some (elf.shdrs.foldl (handled elf bios) ⟨mem, 0, 0⟩) :=
  Folds.foldlM_of_forall (fun _ _ hshdr => patchSection_handled h hbios hshdr) _

/-- A word of memory. -/
def readWord (mem : Nat → UInt8) (address : Nat) : Nat :=
  ((mem address).toNat * 256 + (mem (address + 1)).toNat) * 65536 +
    (mem (address + 2)).toNat * 256 + (mem (address + 3)).toNat

/-- A word that is written is read. -/
theorem readWord_of_bytes {mem : Nat → UInt8} {address v : Nat} (hv : v < 0x100000000)
    (h : ∀ i < 4, mem (address + i) = (wordRegion address v).content i) :
    readWord mem address = v := by
  have h₀ := h 0 (by decide)
  have h₁ := h 1 (by decide)
  have h₂ := h 2 (by decide)
  have h₃ := h 3 (by decide)
  rw [Nat.add_zero] at h₀
  rw [readWord, h₀, h₁, h₂, h₃]
  simp only [wordRegion, UInt8.toNat_ofNat']
  omega

/-- The value of a symbol for a console, or 0. -/
def relocValue (elf : PatchesElf) (bios : BiosItem) (sym : Elf32Sym) : Nat :=
  getSymbolValue elf (relocName elf bios sym)

/-- A symbol of `.reloc` that is handled: set when there is a value for it. -/
def relocated (elf : PatchesElf) (bios : BiosItem) (s : RelocState) (sym : Elf32Sym) :
    RelocState :=
  if InReloc elf sym then
    if relocValue elf bios sym ≠ 0 then
      { s with mem := (wordRegion sym.stValue (relocValue elf bios sym)).copied s.mem }
    else
      { s with failedPatching := true }
  else
    s

theorem relocSymbol_relocated (h : WellFormed elf) (hbios : bios ∈ biosTable)
    {relocStart relocEnd : Nat}
    (hrange : ∀ v, (relocStart ≤ v ∧ v < relocEnd) ↔ ∃ shdr ∈ elf.shdrs, IsReloc elf shdr ∧
      shdr.shAddr ≤ v ∧ v < shdr.shAddr + shdr.shSize)
    (s : RelocState) (hsym : sym ∈ elf.syment) :
    relocSymbol elf bios relocStart relocEnd s sym = some (relocated elf bios s sym) := by
  rw [relocSymbol, relocated]
  by_cases hin : InReloc elf sym
  · have hroom := h.relocNames sym hsym hin bios hbios
    have hcopy : CString.strcpy stringBufferSize (bios.relocPrefix ++ '_' :: symbolName elf sym) =
        some ⟨relocName elf bios sym, hroom⟩ := CString.strcpy_eq_some.2 rfl
    rw [if_neg hin.1, if_pos ((hrange _).2 hin.2), hcopy, Option.map_some, if_pos hin]
    rfl
  · rw [if_neg hin]
    by_cases hnamed : sym.stName = 0
    · rw [if_pos hnamed]
    · rw [if_neg hnamed, if_neg fun hinside => hin ⟨hnamed, (hrange _).1 hinside⟩]

/-- The patching has failed when a symbol has no value. -/
theorem relocated_failed (l : List Elf32Sym) (s : RelocState) :
    (l.foldl (relocated elf bios) s).failedPatching = true ↔
      s.failedPatching = true ∨ ∃ sym ∈ l, InReloc elf sym ∧ relocValue elf bios sym = 0 := by
  induction l generalizing s with
  | nil => simp
  | cons sym l ih =>
      rw [List.foldl_cons, ih, relocated]
      by_cases hin : InReloc elf sym
      · by_cases hvalue : relocValue elf bios sym = 0
        · rw [if_pos hin, if_neg (not_not.2 hvalue)]
          exact iff_of_true (Or.inl rfl) (Or.inr ⟨sym, List.mem_cons_self, hin, hvalue⟩)
        · rw [if_pos hin, if_pos hvalue]
          simp [hvalue]
      · rw [if_neg hin]
        simp [hin]

/-- Otherwise every symbol is set, one after another. -/
theorem relocated_mem {l : List Elf32Sym}
    (h : ∀ sym ∈ l, InReloc elf sym → relocValue elf bios sym ≠ 0) (s : RelocState) :
    (l.foldl (relocated elf bios) s).mem =
      copiedAll ((l.filter fun sym => InReloc elf sym).map fun sym =>
        wordRegion sym.stValue (relocValue elf bios sym)) s.mem := by
  induction l generalizing s with
  | nil => rfl
  | cons sym l ih =>
      have hrest : ∀ sym ∈ l, InReloc elf sym → relocValue elf bios sym ≠ 0 :=
        fun sym hsym => h sym (List.mem_cons_of_mem _ hsym)
      rw [List.foldl_cons, ih hrest]
      by_cases hin : InReloc elf sym
      · rw [List.filter_cons_of_pos (by simpa using hin), relocated, if_pos hin,
          if_pos (h sym List.mem_cons_self hin)]
        rfl
      · rw [List.filter_cons_of_neg (by simpa using hin), relocated, if_neg hin]

/-- Symbols that are words of their own keep what they are set to. -/
theorem relocated_word (h : WellFormed elf)
    (hvalues : ∀ sym ∈ elf.syment, InReloc elf sym → relocValue elf bios sym ≠ 0)
    (s : RelocState) (hsym : sym ∈ elf.syment) (hin : InReloc elf sym) :
    readWord (elf.syment.foldl (relocated elf bios) s).mem sym.stValue =
      relocValue elf bios sym := by
  have hapart : ((elf.syment.filter fun sym => InReloc elf sym).map fun sym =>
      wordRegion sym.stValue (relocValue elf bios sym)).Pairwise Region.Apart :=
    List.pairwise_map.2 h.slots
  have hplaced := placed_copiedAll hapart s.mem
  have hregion : wordRegion sym.stValue (relocValue elf bios sym) ∈
      (elf.syment.filter fun sym => InReloc elf sym).map fun sym =>
        wordRegion sym.stValue (relocValue elf bios sym) :=
    List.mem_map_of_mem (List.mem_filter.2 ⟨hsym, by simpa using hin⟩)
  have hlt : relocValue elf bios sym < 0x100000000 := by
    rw [relocValue, getSymbolValue_eq]
    cases hlast : lastNamed elf (relocName elf bios sym) with
    | none => decide
    | some v => exact lastNamed_lt hlast
  rw [relocated_mem hvalues]
  exact readWord_of_bytes hlt (hplaced.inside _ hregion)

/-- A value that is found is that of the symbol. -/
theorem relocValue_ne_zero :
    relocValue elf bios sym ≠ 0 ↔
      ∃ v, lastNamed elf (relocName elf bios sym) = some v ∧ v ≠ 0 := by
  rw [relocValue, getSymbolValue_eq]
  cases lastNamed elf (relocName elf bios sym) with
  | none => simp
  | some v => simp

/-- A section of another revision is not selected. -/
theorem not_selected_of_other {other : BiosItem} (hbios : bios ∈ biosTable)
    (hother : other ∈ biosTable) (hne : other ≠ bios) (hpatch : isPatch elf shdr = true)
    (hname : patchRegionSuffix other <:+ sectionName elf shdr) : ¬ Selected elf bios shdr := by
  intro hselected
  rw [Selected, if_pos hpatch] at hselected
  exact hne (revision_unique hother hbios hname hselected)

/-- What the relocations leave: `main` goes on when all have been set. -/
structure Relocated
    (elf : PatchesElf) (bios : BiosItem) (out : Outcome) : Prop where
  goesOn : (∃ after, out = .continues after) ↔ ∀ sym ∈ elf.syment, InReloc elf sym →
    ∃ v, lastNamed elf (relocName elf bios sym) = some v ∧ v ≠ 0
  set : ∀ after, out = .continues after → ∀ sym ∈ elf.syment, InReloc elf sym →
    ∃ v, lastNamed elf (relocName elf bios sym) = some v ∧ v ≠ 0 ∧
      readWord after sym.stValue = v

theorem applyRelocs_relocated (h : WellFormed elf) (hbios : bios ∈ biosTable) {s : PatchState}
    (hs : patchSections elf bios mem = some s) :
    ∃ out, applyRelocs elf bios s = some out ∧ Relocated elf bios out := by
  obtain rfl := Option.some.inj ((patchSections_eq h hbios mem).symm.trans hs)
  obtain ⟨r, hr⟩ : ∃ r, r = elf.syment.foldl (relocated elf bios)
      ⟨(elf.shdrs.foldl (handled elf bios) ⟨mem, 0, 0⟩).mem, false⟩ := ⟨_, rfl⟩
  have hloop := Folds.foldlM_of_forall
    (fun s x hx => relocSymbol_relocated h hbios (handled_range h mem bios) s hx)
    (⟨(elf.shdrs.foldl (handled elf bios) ⟨mem, 0, 0⟩).mem, false⟩ : RelocState)
  have hfailed : r.failedPatching = true ↔
      ∃ sym ∈ elf.syment, InReloc elf sym ∧ relocValue elf bios sym = 0 := by
    rw [hr, relocated_failed]
    simp
  refine ⟨_, by rw [applyRelocs, hloop, Option.map_some, ← hr], ?_⟩
  cases hcase : r.failedPatching with
  | true =>
      obtain ⟨sym, hsym, hin, hzero⟩ := hfailed.1 hcase
      rw [if_pos rfl]
      constructor
      · refine iff_of_false ?_ fun hall => ?_
        · rintro ⟨after, hout⟩
          cases hout
        · exact relocValue_ne_zero.2 (hall sym hsym hin) hzero
      · intro after hout
        cases hout
  | false =>
      have hvalues : ∀ sym ∈ elf.syment, InReloc elf sym → relocValue elf bios sym ≠ 0 := by
        intro sym hsym hin hzero
        have := hfailed.2 ⟨sym, hsym, hin, hzero⟩
        rw [hcase] at this
        exact Bool.false_ne_true this
      rw [if_neg Bool.false_ne_true]
      constructor
      · refine iff_of_true ⟨_, rfl⟩ fun sym hsym hin => ?_
        exact relocValue_ne_zero.1 (hvalues sym hsym hin)
      · intro after hout sym hsym hin
        obtain rfl := Outcome.continues.inj hout
        obtain ⟨v, hv, hne⟩ := relocValue_ne_zero.1 (hvalues sym hsym hin)
        refine ⟨v, hv, hne, ?_⟩
        rw [hr, relocated_word h hvalues _ hsym hin, relocValue, getSymbolValue_eq, hv]
        rfl

/--
The patches of a file that is well formed are complete and isolated.  Memory is what it was
with the selected sections copied to it in their order, none of which is of another
revision; and `main` goes on only when every symbol in `.reloc` has been set to its value
for the console.
-/
theorem patches_complete (h : WellFormed elf) (hbios : bios ∈ biosTable) (mem : Nat → UInt8) :
    ∃ s, patchSections elf bios mem = some s ∧
      s.mem = copiedAll (selectedRegions elf bios) mem ∧
      (∀ a, (∀ r ∈ selectedRegions elf bios, ¬ r.Covers a) → s.mem a = mem a) ∧
      (∀ other ∈ biosTable, other ≠ bios → ∀ shdr ∈ elf.shdrs, isPatch elf shdr = true →
        patchRegionSuffix other <:+ sectionName elf shdr → ¬ Selected elf bios shdr) ∧
      ∃ out, applyRelocs elf bios s = some out ∧ Relocated elf bios out := by
  have hs := patchSections_eq h hbios mem
  have hmem : (elf.shdrs.foldl (handled elf bios) ⟨mem, 0, 0⟩).mem =
      copiedAll (selectedRegions elf bios) mem := handled_mem elf.shdrs _
  refine ⟨_, hs, hmem, fun a ha => ?_, ?_, applyRelocs_relocated h hbios hs⟩
  · rw [hmem]
    exact copiedAll_outside ha
  · exact fun other hother hne shdr _ hpatch hname =>
      not_selected_of_other hbios hother hne hpatch hname

/-- A file with one patch for each of two revisions, and one symbol in `.reloc`. -/
def sampleElf : PatchesElf where
  image := fun i => UInt8.ofNat i
  shdrs := [⟨1, 1, 2, 0x81600000, 0, 4⟩, ⟨8, 1, 0, 0x81300000, 4, 4⟩,
    ⟨33, 1, 0, 0x81300008, 8, 4⟩]
  stringdata := Char.ofNat 0 :: ".reloc".toList ++
    Char.ofNat 0 :: ".patch.x_VER_PAL_10_func".toList ++
    Char.ofNat 0 :: ".patch.x_VER_PAL_11_func".toList ++ [Char.ofNat 0]
  syment := [⟨1, 0x81600000, by decide⟩, ⟨3, 0x81301234, by decide⟩, ⟨11, 4, by decide⟩,
    ⟨29, 4, by decide⟩]
  symstringdata := Char.ofNat 0 :: "y".toList ++ Char.ofNat 0 :: "pal10_y".toList ++
    Char.ofNat 0 :: "x_VER_PAL_10_size".toList ++
    Char.ofNat 0 :: "x_VER_PAL_11_size".toList ++ [Char.ofNat 0]

theorem sampleElf_wellFormed : WellFormed sampleElf where
  placed := by decide
  sized := by decide
  names := by decide
  relocNames := by decide
  reloc := by decide
  oneReloc := by decide
  slots := by decide

/-- The revision of the console. -/
def pal10 : BiosItem :=
  ⟨"pal10".toList, "VER_PAL_10".toList⟩

/-- The patch of this revision is copied, and the place of the other one is as it was. -/
theorem patches_complete_sample :
    ∃ s, patchSections sampleElf pal10 (fun _ => 0) = some s ∧
      s.mem 0x81300000 = 4 ∧ s.mem 0x81300008 = 0 ∧
      ¬ Selected sampleElf pal10 ⟨33, 1, 0, 0x81300008, 8, 4⟩ ∧
      ∃ out, applyRelocs sampleElf pal10 s = some out ∧ Relocated sampleElf pal10 out := by
  obtain ⟨s, hs, hmem, houtside, hothers, hrelocs⟩ :=
    patches_complete sampleElf_wellFormed (show pal10 ∈ biosTable by decide) fun _ => 0
  refine ⟨s, hs, ?_, houtside _ (by decide), ?_, hrelocs⟩
  · rw [hmem]
    decide
  · exact hothers ⟨"pal11".toList, "VER_PAL_11".toList⟩ (by decide) (by decide) _
      (by decide) (by decide) (by decide)

end Patching
end Cubiboot
