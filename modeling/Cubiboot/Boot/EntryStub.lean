import Cubiboot.Boot.LoadDol

/-!
# The loader of the entry stub

The end of `_main`: `cubeboot.dol` has been unpacked to the end of the stub, and its
sections are copied from there.  The header is read in place all the while.  The BSS is
cleared last, by `_memset` of `start.S`.

`_memset` takes as many bytes after its words as the length has over a multiple of
eight, and starts them within the last word.  For less than a word its counter wraps,
and it goes on through all of memory, over its own code.

Results: `entryMemcpy_eq` and `entryMemset_eq`, what the two loops write, and
`entryMemset_none`, when the second does not end; `mainLoad_eq`, the memory after the
stub; `loadersAgree_iff`, for which images the stub and `load_dol` leave the same bytes.
-/

namespace Cubiboot
namespace Boot

open CopyRange Disc Placement

/-- `_memcpy`. -/
def entryMemcpy : Nat → Nat → Nat → (Nat → UInt8) → (Nat → UInt8)
  | _, _, 0, memory => memory
  | dest, src, count + 1, memory =>
      entryMemcpy (dest + 1) (src + 1) count (copyRange memory dest 1 fun _ => memory src)

/-- The loop of `_memset` over words, with the place of the next one. -/
def memsetWords : Nat → Nat → (Nat → UInt8) → Nat × (Nat → UInt8)
  | 0, next, memory => (next, memory)
  | ctr + 1, next, memory =>
      memsetWords ctr (next + 4) (copyRange memory next 4 fun _ => 0)

/-- The loop of `_memset` over bytes. -/
def memsetBytes : Nat → Nat → (Nat → UInt8) → (Nat → UInt8)
  | 0, _, memory => memory
  | left + 1, next, memory => memsetBytes left (next + 1) (copyRange memory next 1 fun _ => 0)

/-- `_memset` to 0: it does not return where the counter of words is 0. -/
def entryMemset (s count : Nat) (memory : Nat → UInt8) : Option (Nat → UInt8) :=
  if count / 4 = 0 then
    none
  else
    match memsetWords (count / 4) s memory with
    -- The register is at the last word, and is raised before each byte.
    | (next, memory) => some (memsetBytes (count % 8) (next - 3) memory)

/-- The copy of a section. -/
def copySection (dolBuf : Nat) (s : DolSection) (memory : Nat → UInt8) : Nat → UInt8 :=
  if s.Present then entryMemcpy s.address (dolBuf + s.offset) s.length memory else memory

/-- A loop of `_main` over the sections that `field` has in the header. -/
def copySections {ι : Type} (dolBuf : Nat) (field : DolHeader → ι → DolSection) :
    List ι → (Nat → UInt8) → (Nat → UInt8)
  | [], memory => memory
  | i :: rest, memory =>
      copySections dolBuf field rest
        (copySection dolBuf (field (heldHeader dolBuf memory) i) memory)

/-- `_main`, once the DOL has been unpacked to `dol_buf`. -/
def mainLoad (dolBuf : Nat) (memory : Nat → UInt8) : Option (Nat → UInt8) :=
  let memory := copySections dolBuf DolHeader.text (List.finRange maxTextSection) memory
  let memory := copySections dolBuf DolHeader.data (List.finRange maxDataSection) memory
  let hdr := heldHeader dolBuf memory
  entryMemset hdr.bssAddress hdr.bssLength memory

variable {image memory before staging after : Nat → UInt8}
variable {size dolBuf dolHdr dest src count : Nat}

theorem entryMemcpy_eq
    (hapart : dest + count ≤ src ∨ src + count ≤ dest) (memory : Nat → UInt8) :
    entryMemcpy dest src count memory =
      copyRange memory dest count fun i => memory (src + i) := by
  induction count generalizing dest src memory with
  | zero =>
      rw [entryMemcpy, copyRange_zero]
  | succ count ih =>
      rw [entryMemcpy, ih (by omega)]
      funext a
      by_cases hlater : dest + 1 ≤ a ∧ a < dest + 1 + count
      · rw [copyRange_inside hlater.1 hlater.2, copyRange_outside (by omega),
          copyRange_inside (by omega) (by omega)]
        congr 1
        omega
      · rw [copyRange_outside (by omega)]
        by_cases hfirst : a = dest
        · subst hfirst
          rw [copyRange_inside (Nat.le_refl a) (by omega),
            copyRange_inside (Nat.le_refl a) (by omega), Nat.sub_self, Nat.add_zero]
        · rw [copyRange_outside (by omega), copyRange_outside (by omega)]

/-- Two stretches of zeros that follow each other. -/
theorem clear_append (memory : Nat → UInt8) (next count len : Nat) :
    copyRange (copyRange memory next count fun _ => 0) (next + count) len (fun _ => 0) =
      copyRange memory next (count + len) fun _ => 0 :=
  @copyRange_append UInt8 memory (fun _ => 0) next count len

theorem memsetWords_eq (ctr next : Nat) (memory : Nat → UInt8) :
    memsetWords ctr next memory =
      (next + 4 * ctr, copyRange memory next (4 * ctr) fun _ => 0) := by
  induction ctr generalizing next memory with
  | zero =>
      rw [memsetWords, Nat.mul_zero, copyRange_zero, Nat.add_zero]
  | succ ctr ih =>
      have hnext : next + 4 + 4 * ctr = next + 4 * (ctr + 1) := by omega
      have hcells : 4 + 4 * ctr = 4 * (ctr + 1) := by omega
      rw [memsetWords, ih, hnext, clear_append, hcells]

theorem memsetBytes_eq (left next : Nat) (memory : Nat → UInt8) :
    memsetBytes left next memory = copyRange memory next left fun _ => 0 := by
  induction left generalizing next memory with
  | zero =>
      rw [memsetBytes, copyRange_zero]
  | succ left ih =>
      rw [memsetBytes, ih, clear_append, Nat.add_comm 1]

/-- How many bytes `_memset` clears. -/
def memsetCleared (count : Nat) : Nat :=
  if count % 8 < 4 then count / 4 * 4 else count + 1

theorem entryMemset_eq (s : Nat) (hcount : 4 ≤ count) (memory : Nat → UInt8) :
    entryMemset s count memory =
      some (copyRange memory s (memsetCleared count) fun _ => 0) := by
  have hwords : ¬ count / 4 = 0 := by omega
  rw [entryMemset, if_neg hwords, memsetWords_eq]
  simp only [memsetBytes_eq, Option.some.injEq]
  have hcleared : s ≤ s + 4 * (count / 4) - 3 ∧
      max (4 * (count / 4)) (4 * (count / 4) - 3 + count % 8) = memsetCleared count := by
    rw [memsetCleared]
    split <;> omega
  obtain ⟨hstart, hend⟩ := hcleared
  funext a
  by_cases hbyte : s + 4 * (count / 4) - 3 ≤ a ∧ a < s + 4 * (count / 4) - 3 + count % 8
  · rw [copyRange_inside hbyte.1 hbyte.2, copyRange_inside (by omega) (by omega)]
  · rw [copyRange_outside (by omega)]
    by_cases hword : s ≤ a ∧ a < s + 4 * (count / 4)
    · rw [copyRange_inside hword.1 hword.2, copyRange_inside (by omega) (by omega)]
    · rw [copyRange_outside (by omega), copyRange_outside (by omega)]

theorem entryMemset_none (s : Nat) (hcount : count < 4) (memory : Nat → UInt8) :
    entryMemset s count memory = none :=
  if_pos (Nat.div_eq_of_lt hcount)

/-- An image of a DOL, and a place for it that is apart from what it is loaded to. -/
structure HeldDol (image : Nat → UInt8) (size dolBuf : Nat) : Prop where
  header : dolHdrLength ≤ size
  inImage : ∀ s ∈ (fileHeader image 0).slots, s.Present → s.offset + s.length ≤ size
  apart : (sectionRegions image 0 (fileHeader image 0).slots).Pairwise Region.Apart
  clear : ∀ s ∈ (fileHeader image 0).slots, s.Present →
    s.address + s.length ≤ dolBuf ∨ dolBuf + size ≤ s.address
  bssClear : (fileHeader image 0).bssAddress + (fileHeader image 0).bssLength ≤ dolBuf ∨
    dolBuf + size ≤ (fileHeader image 0).bssAddress

theorem copySection_placed
    {s : DolSection} (hpresent : s.Present) (hsize : s.offset + s.length ≤ size)
    (hclear : s.address + s.length ≤ dolBuf ∨ dolBuf + size ≤ s.address)
    (hheld : HoldsImage memory dolBuf image size) :
    Placed [s.region image 0] memory (copySection dolBuf s memory) := by
  rw [copySection, if_pos hpresent, entryMemcpy_eq (by omega)]
  have hplaced := placed_copyRange (s.region image 0) memory
  have hsame : copyRange memory s.address s.length (fun i => memory (dolBuf + s.offset + i)) =
      copyRange memory s.address s.length fun i => image (0 + s.offset + i) := by
    funext a
    by_cases hin : s.address ≤ a ∧ a < s.address + s.length
    · rw [copyRange_inside hin.1 hin.2, copyRange_inside hin.1 hin.2, Nat.add_assoc,
        hheld (s.offset + (a - s.address)) (by omega), Nat.zero_add]
    · rw [copyRange_outside (by omega), copyRange_outside (by omega)]
  rw [hsame]
  exact hplaced

/-- A loop places its sections: the header it reads stays that of the image. -/
theorem copySections_placed
    {ι : Type} (field : DolHeader → ι → DolSection) {places : List ι}
    (hroom : dolHdrLength ≤ size)
    (hsize : ∀ s ∈ places.map (field (fileHeader image 0)), s.Present →
      s.offset + s.length ≤ size)
    (hclear : ∀ s ∈ places.map (field (fileHeader image 0)), s.Present →
      s.address + s.length ≤ dolBuf ∨ dolBuf + size ≤ s.address)
    (hapart : (sectionRegions image 0 (places.map (field (fileHeader image 0)))).Pairwise
      Region.Apart)
    (hheld : HoldsImage memory dolBuf image size) :
    Placed (sectionRegions image 0 (places.map (field (fileHeader image 0)))) memory
      (copySections dolBuf field places memory) := by
  induction places generalizing memory with
  | nil =>
      exact Placed.nil
  | cons i rest ih =>
      rw [List.map_cons] at hsize hclear hapart ⊢
      have hsize' := fun t ht => hsize t (List.mem_cons_of_mem _ ht)
      have hclear' := fun t ht => hclear t (List.mem_cons_of_mem _ ht)
      rw [copySections, heldHeader_eq hroom hheld, sectionRegions] at *
      by_cases hpresent : (field (fileHeader image 0) i).Present
      · rw [if_pos hpresent] at hapart ⊢
        obtain ⟨hfirst, hlater⟩ := List.pairwise_cons.1 hapart
        have hplaced := copySection_placed hpresent (hsize _ List.mem_cons_self hpresent)
          (hclear _ List.mem_cons_self hpresent) hheld
        have hheld' := holdsImage_of_placed hplaced (fun r hr => by
          rw [List.mem_singleton] at hr
          subst hr
          exact hclear _ List.mem_cons_self hpresent) hheld
        exact hplaced.cons (ih hsize' hclear' hlater hheld') hfirst
      · rw [if_neg hpresent] at hapart ⊢
        rw [copySection, if_neg hpresent]
        exact ih hsize' hclear' hapart hheld

/-- `_main` places all sections, and clears the BSS after that. -/
theorem mainLoad_eq
    (h : HeldDol image size dolBuf) (hheld : HoldsImage memory dolBuf image size) :
    ∃ copied,
      Placed (sectionRegions image 0 (fileHeader image 0).slots) memory copied ∧
        mainLoad dolBuf memory =
          entryMemset (fileHeader image 0).bssAddress (fileHeader image 0).bssLength copied := by
  have hslots := slots_eq (fileHeader image 0)
  have htext : ∀ s ∈ (List.finRange maxTextSection).map (fileHeader image 0).text,
      s ∈ (fileHeader image 0).slots := fun s hs => by
    rw [hslots]
    exact List.mem_append_left _ hs
  have hdata : ∀ s ∈ (List.finRange maxDataSection).map (fileHeader image 0).data,
      s ∈ (fileHeader image 0).slots := fun s hs => by
    rw [hslots]
    exact List.mem_append_right _ hs
  have hapart := h.apart
  rw [hslots, sectionRegions_append, List.pairwise_append] at hapart
  obtain ⟨hapartText, hapartData, hapartBoth⟩ := hapart
  have hfirst := copySections_placed DolHeader.text h.header
    (fun s hs => h.inImage s (htext s hs)) (fun s hs => h.clear s (htext s hs)) hapartText hheld
  have hheld₁ := holdsImage_of_placed hfirst (fun r hr => by
    obtain ⟨s, hs, hpresent, rfl⟩ := mem_sectionRegions.1 hr
    exact h.clear s (htext s hs) hpresent) hheld
  have hsecond := copySections_placed DolHeader.data h.header
    (fun s hs => h.inImage s (hdata s hs)) (fun s hs => h.clear s (hdata s hs)) hapartData
    hheld₁
  have hheld₂ := holdsImage_of_placed hsecond (fun r hr => by
    obtain ⟨s, hs, hpresent, rfl⟩ := mem_sectionRegions.1 hr
    exact h.clear s (hdata s hs) hpresent) hheld₁
  refine ⟨copySections dolBuf DolHeader.data (List.finRange maxDataSection)
    (copySections dolBuf DolHeader.text (List.finRange maxTextSection) memory), ?_, ?_⟩
  · rw [hslots, sectionRegions_append]
    exact hfirst.append hsecond hapartBoth
  · simp only [mainLoad, heldHeader_eq h.header hheld₂]

/-- An address of a section or of the BSS. -/
def DolHeader.Targets (hdr : DolHeader) (a : Nat) : Prop :=
  (∃ s ∈ hdr.slots, s.Present ∧ s.Covers a) ∨
    hdr.bssAddress ≤ a ∧ a < hdr.bssAddress + hdr.bssLength

/--
`_main` returns, and where it loads an image the memory is as `load_dol` leaves it,
whatever was there before.
-/
def LoadersAgree (image : Nat → UInt8) (size dolBuf dolHdr : Nat) : Prop :=
  ∀ memory, HoldsImage memory dolBuf image size →
    ∃ after, mainLoad dolBuf memory = some after ∧
      ∀ (headerRead : DvdRead) (reads : Nat → DvdRead) (fuel : Nat)
        (staging : Nat → UInt8) (info : DolInfo) (st : LoadState),
        Delivers headerRead image size → (∀ slot, Delivers (reads slot) image size) →
          loadDolInto headerRead reads dolHdr 0 fuel memory staging = some (info, st) →
            st.succeeded = true →
              ∀ a, (fileHeader image 0).Targets a → after a = st.memory a

/-- An address that `_memset` clears in `_main`. -/
def DolHeader.Cleared (hdr : DolHeader) (a : Nat) : Prop :=
  hdr.bssAddress ≤ a ∧ a < hdr.bssAddress + memsetCleared hdr.bssLength

/--
There is a BSS that `_memset` can clear; the bytes that it clears and that are of a
section are 0 in the image, and those of the BSS that it leaves are of a section.
-/
structure BssSpares (image : Nat → UInt8) : Prop where
  word : 4 ≤ (fileHeader image 0).bssLength
  present : (fileHeader image 0).bssAddress ≠ 0
  sections : ∀ s ∈ (fileHeader image 0).slots, s.Present → ∀ i < s.length,
    (fileHeader image 0).Cleared (s.address + i) → image (s.offset + i) = 0
  left : ∀ a, (fileHeader image 0).InBss a → ¬ (fileHeader image 0).Cleared a →
    ∃ s ∈ (fileHeader image 0).slots, s.Present ∧ s.Covers a

/-- Memory with an image, and ones everywhere else. -/
def imageMemory (image : Nat → UInt8) (size dolBuf : Nat) : Nat → UInt8 :=
  copyRange (fun _ => 1) dolBuf size image

theorem imageMemory_holds (image : Nat → UInt8) (size dolBuf : Nat) :
    HoldsImage (imageMemory image size dolBuf) dolBuf image size := by
  intro i hi
  rw [imageMemory, copyRange_inside (by omega) (by omega), Nat.add_sub_cancel_left]

/-- The BSS is apart from the image. -/
theorem HeldDol.imageMemory_bss
    (h : HeldDol image size dolBuf) {a : Nat} (hle : (fileHeader image 0).bssAddress ≤ a)
    (hlt : a < (fileHeader image 0).bssAddress + (fileHeader image 0).bssLength) :
    imageMemory image size dolBuf a = 1 := by
  have hclear := h.bssClear
  exact copyRange_outside (by omega)

theorem DolHeader.cleared_first
    {hdr : DolHeader} (hword : 4 ≤ hdr.bssLength) : hdr.Cleared hdr.bssAddress := by
  refine ⟨Nat.le_refl _, ?_⟩
  rw [memsetCleared]
  split <;> omega

/-- The bytes of a section that has been placed. -/
theorem placed_section
    (h : Placed (sectionRegions image 0 (fileHeader image 0).slots) memory after)
    {s : DolSection} (hs : s ∈ (fileHeader image 0).slots) (hpresent : s.Present) {i : Nat}
    (hi : i < s.length) : after (s.address + i) = image (s.offset + i) := by
  have hbyte := h.inside (s.region image 0) (mem_sectionRegions.2 ⟨s, hs, hpresent, rfl⟩) i hi
  simp only [DolSection.region, Nat.zero_add] at hbyte
  exact hbyte

theorem placed_elsewhere
    (h : Placed (sectionRegions image 0 (fileHeader image 0).slots) memory after) {a : Nat}
    (hno : ¬ ∃ s ∈ (fileHeader image 0).slots, s.Present ∧ s.Covers a) :
    after a = memory a :=
  h.outside a (not_covers_regions fun s hs hpresent hc => hno ⟨s, hs, hpresent, hc⟩)

/-- Memory after `_main`. -/
def clearLast (hdr : DolHeader) (memory : Nat → UInt8) : Nat → UInt8 :=
  copyRange memory hdr.bssAddress (memsetCleared hdr.bssLength) fun _ => 0

theorem clearLast_inside {hdr : DolHeader} {a : Nat} (h : hdr.Cleared a) :
    clearLast hdr memory a = 0 :=
  copyRange_inside h.1 h.2

theorem clearLast_outside {hdr : DolHeader} {a : Nat} (h : ¬ hdr.Cleared a) :
    clearLast hdr memory a = memory a := by
  rw [DolHeader.Cleared] at h
  exact copyRange_outside (by omega)

/-- No section is at address 0. -/
theorem not_covers_zero (hdr : DolHeader) :
    ¬ ∃ s ∈ hdr.slots, s.Present ∧ s.Covers 0 := by
  rintro ⟨s, _, hpresent, hle, _⟩
  exact hpresent.1 (Nat.le_zero.1 hle)

/--
Where memory has ones, the two results agree only if the BSS spares the sections; `before`
is the memory with the header that `load_dol` has read.
-/
theorem bssSpares_of_same
    {copied loaded : Nat → UInt8} (hword : 4 ≤ (fileHeader image 0).bssLength)
    (hcopied : Placed (sectionRegions image 0 (fileHeader image 0).slots) memory copied)
    (hloaded : Placed (sectionRegions image 0 (fileHeader image 0).slots)
      (clearBss (fileHeader image 0) before) loaded)
    (hones : ∀ a, (fileHeader image 0).bssAddress ≤ a →
      a < (fileHeader image 0).bssAddress + (fileHeader image 0).bssLength → memory a = 1)
    (hzeroth : (fileHeader image 0).bssAddress = 0 → before 0 ≠ 0)
    (hsame : ∀ a, (fileHeader image 0).Targets a →
      clearLast (fileHeader image 0) copied a = loaded a) : BssSpares image := by
  have hpresent : (fileHeader image 0).bssAddress ≠ 0 := by
    intro hzero
    have hfirst := hsame 0 (Or.inr ⟨by omega, by omega⟩)
    have hcleared := DolHeader.cleared_first hword
    have hnone : ¬ (fileHeader image 0).InBss 0 := fun hc => hc.1 hzero
    rw [hzero] at hcleared
    rw [clearLast_inside hcleared, placed_elsewhere hloaded (not_covers_zero _),
      clearBss_outside hnone] at hfirst
    exact hzeroth hzero hfirst.symm
  refine ⟨hword, hpresent, fun s hs hp i hi hcleared => ?_, fun a hbss hleft => ?_⟩
  · have hbyte := hsame (s.address + i) (Or.inl ⟨s, hs, hp, Nat.le_add_right _ _, by omega⟩)
    rw [clearLast_inside hcleared, placed_section hloaded hs hp hi] at hbyte
    exact hbyte.symm
  · by_contra hno
    have hbyte := hsame a (Or.inr hbss.2)
    rw [clearLast_outside hleft, placed_elsewhere hcopied hno, placed_elsewhere hloaded hno,
      clearBss_inside hbss, hones a hbss.2.1 hbss.2.2] at hbyte
    exact absurd hbyte (by decide)

/-- Where the BSS spares the sections, the two results agree. -/
theorem BssSpares.same
    (h : BssSpares image) {copied loaded : Nat → UInt8}
    (hcopied : Placed (sectionRegions image 0 (fileHeader image 0).slots) memory copied)
    (hloaded : Placed (sectionRegions image 0 (fileHeader image 0).slots)
      (clearBss (fileHeader image 0) before) loaded)
    {a : Nat} (ha : (fileHeader image 0).Targets a) :
    clearLast (fileHeader image 0) copied a = loaded a := by
  by_cases hcovered : ∃ s ∈ (fileHeader image 0).slots, s.Present ∧ s.Covers a
  · obtain ⟨s, hs, hp, hle, hlt⟩ := hcovered
    have hindex : s.address + (a - s.address) = a := by omega
    have hi : a - s.address < s.length := by omega
    rw [← hindex, placed_section hloaded hs hp hi]
    by_cases hcleared : (fileHeader image 0).Cleared (s.address + (a - s.address))
    · rw [clearLast_inside hcleared, h.sections s hs hp _ hi hcleared]
    · rw [clearLast_outside hcleared, placed_section hcopied hs hp hi]
  · have hbss : (fileHeader image 0).InBss a :=
      ⟨h.present, ha.resolve_left hcovered⟩
    have hcleared : (fileHeader image 0).Cleared a := by
      by_contra hleft
      exact hcovered (h.left a hbss hleft)
    rw [clearLast_inside hcleared, placed_elsewhere hloaded hcovered, clearBss_inside hbss]

/-- A run of `load_dol` on the image that succeeds. -/
theorem HeldDol.loaded
    (h : HeldDol image size dolBuf)
    (hfits : ∀ s ∈ (fileHeader image 0).slots, s.Present → FitsStaging s.length s.offset)
    (hspares : (fileHeader image 0).Spares dolHdr dolHdrLength)
    {headerRead : DvdRead} {reads : Nat → DvdRead} {fuel : Nat}
    {info : DolInfo} {st : LoadState} (hbuffer : dolHdr % 32 = 0)
    (hheader : Delivers headerRead image size) (hreads : ∀ slot, Delivers (reads slot) image size)
    (hrun : loadDolInto headerRead reads dolHdr 0 fuel memory staging = some (info, st))
    (hok : st.succeeded = true) :
    Placed (sectionRegions image 0 (fileHeader image 0).slots)
      (clearBss (fileHeader image 0) (withHeader headerRead dolHdr 0 memory)) st.memory := by
  refine (loadDolInto_placed hbuffer hheader hreads (Nat.zero_mod 4) ?_ ?_ ?_ h.apart hspares
    hrun hok).2
  · rw [Nat.zero_add]
    exact h.header
  · intro s hs hp
    rw [Nat.zero_add]
    exact hfits s hs hp
  · intro s hs hp
    rw [Nat.zero_add]
    exact h.inImage s hs hp

theorem bssSpares_of_agree
    (h : HeldDol image size dolBuf)
    (hfits : ∀ s ∈ (fileHeader image 0).slots, s.Present → FitsStaging s.length s.offset)
    (hbuffer : dolHdr % 32 = 0) (hspares : (fileHeader image 0).Spares dolHdr dolHdrLength)
    (hsome : 0 < dolHdr) (hagree : LoadersAgree image size dolBuf dolHdr) :
    BssSpares image := by
  have hheld := imageMemory_holds image size dolBuf
  obtain ⟨copied, hcopied, hmain⟩ := mainLoad_eq h hheld
  obtain ⟨after, hafter, hsame⟩ := hagree _ hheld
  rw [hmain] at hafter
  have hword : 4 ≤ (fileHeader image 0).bssLength := by
    by_contra hc
    rw [entryMemset_none _ (by omega)] at hafter
    cases hafter
  rw [entryMemset_eq _ hword] at hafter
  obtain ⟨fuel, info, st, hrun, hok⟩ := loadDolInto_wholeFile image dolHdr 0
    (imageMemory image size dolBuf) fun _ => 0
  have hloaded := h.loaded hfits hspares hbuffer (wholeFile_delivers image size)
    (fun _ => wholeFile_delivers image size) hrun hok
  have hequal := hsame (wholeFile image) (fun _ => wholeFile image) fuel (fun _ => 0) info st
    (wholeFile_delivers image size) (fun _ => wholeFile_delivers image size) hrun hok
  cases hafter
  refine bssSpares_of_same hword hcopied hloaded (fun a => h.imageMemory_bss) ?_ hequal
  intro hzero
  rw [withHeader_outside (Or.inl hsome), h.imageMemory_bss (by omega) (by omega)]
  decide

/--
For an image that spares `dol_hdr` and whose sections `load_dol` reads exactly, the two
loaders agree exactly when the BSS, as `_memset` clears it, spares the sections.
-/
theorem loadersAgree_iff
    (image : Nat → UInt8) (size dolBuf dolHdr : Nat) (h : HeldDol image size dolBuf)
    (hfits : ∀ s ∈ (fileHeader image 0).slots, s.Present → FitsStaging s.length s.offset)
    (hbuffer : dolHdr % 32 = 0) (hsome : 0 < dolHdr)
    (hspares : (fileHeader image 0).Spares dolHdr dolHdrLength) :
    LoadersAgree image size dolBuf dolHdr ↔ BssSpares image := by
  constructor
  · exact bssSpares_of_agree h hfits hbuffer hspares hsome
  · intro hbss memory hheld
    obtain ⟨copied, hcopied, hmain⟩ := mainLoad_eq h hheld
    refine ⟨_, hmain.trans (entryMemset_eq _ hbss.word copied), ?_⟩
    intro headerRead reads fuel staging info st hheader hreads hrun hok a ha
    exact hbss.same hcopied (h.loaded hfits hspares hbuffer hheader hreads hrun hok) ha

theorem overlappedDol_held : HeldDol overlappedDol 0x120 0x81500000 where
  header := by decide
  inImage := by decide +kernel
  apart := by decide +kernel
  clear := by decide +kernel
  bssClear := by decide +kernel

theorem overlappedDol_fits :
    ∀ s ∈ (fileHeader overlappedDol 0).slots, s.Present → FitsStaging s.length s.offset := by
  decide +kernel

/-- A text section of 32 bytes, with a BSS beside it. -/
def besideDol : Nat → UInt8 :=
  dolFile [(0, 0x100), (0x48, 0x80003100), (0x90, 0x20), (0xD8, 0x80003140), (0xDC, 0x100)]

theorem besideDol_held : HeldDol besideDol 0x120 0x81500000 where
  header := by decide
  inImage := by decide +kernel
  apart := by decide +kernel
  clear := by decide +kernel
  bssClear := by decide +kernel

theorem besideDol_bss : BssSpares besideDol := by
  have hcleared : memsetCleared (fileHeader besideDol 0).bssLength = 0x100 := by decide +kernel
  have hstart : (fileHeader besideDol 0).bssAddress = 0x80003140 := by decide +kernel
  have hlength : (fileHeader besideDol 0).bssLength = 0x100 := by decide +kernel
  have hbelow : ∀ s ∈ (fileHeader besideDol 0).slots, s.Present →
      s.address + s.length ≤ 0x80003140 := by decide +kernel
  refine ⟨by omega, by omega, fun s hs hp i hi hc => ?_, fun a hbss hleft => ?_⟩
  · have hend := hbelow s hs hp
    rw [DolHeader.Cleared, hstart] at hc
    omega
  · rw [DolHeader.InBss, hstart, hlength] at hbss
    rw [DolHeader.Cleared, hstart, hcleared] at hleft
    omega

theorem beside_loaders : LoadersAgree besideDol 0x120 0x81500000 0x81700000 :=
  (loadersAgree_iff besideDol 0x120 0x81500000 0x81700000 besideDol_held (by decide +kernel)
    (by decide) (by decide) ⟨by decide +kernel, by decide +kernel⟩).2 besideDol_bss

/-- `_main` clears the section that `load_dol` keeps. -/
theorem overlapped_section_cleared :
    HeldDol overlappedDol 0x120 0x81500000 ∧
      (fileHeader overlappedDol 0).Spares 0x81700000 dolHdrLength ∧
        ¬ LoadersAgree overlappedDol 0x120 0x81500000 0x81700000 := by
  refine ⟨overlappedDol_held, overlappedDol_spares, fun h => ?_⟩
  have hspares := bssSpares_of_agree overlappedDol_held overlappedDol_fits (by decide)
    overlappedDol_spares (by decide) h
  have hbyte := hspares.sections ⟨0x100, 0x80003120, 0x20⟩ (by decide +kernel)
    (by decide) 0 (by decide) (by
      rw [DolHeader.Cleared]
      decide +kernel)
  exact absurd hbyte (by decide)

end Boot
end Cubiboot
