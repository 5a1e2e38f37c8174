import Mathlib.Data.List.FinRange
import Cubiboot.Boot.Dol
import Cubiboot.Disc.GameInfo
import Cubiboot.Disc.ReadData
import Cubiboot.Foundations.Placement

/-!
# Where `load_dol` puts a DOL

`load_dol` of `boot.c` with what its reads do to memory.  The header is read by `dvd_read`
to `dol_hdr`, which is in memory like everything else; the BSS is cleared, and then the
sections come through `dvd_read_data`, in the order of the header.  Every field of the
header is read from `dol_hdr` at the time it is used, so that a DOL which is loaded over
`dol_hdr` changes what is loaded after that.

`succeeded` notes whether the reads have succeeded; `load_dol` looks at none of their
results.  The rest of the loader (its code, its stack and the staging buffer of
`dvd_read_data`) is apart from what is loaded.

Results: `load_dol_places`, the contents of memory after `load_dol` for every DOL that
spares `dol_hdr`; `load_dol_misses_edges`, what becomes of a section at address 0, of a
BSS that ends with the address space and of a BSS over `dol_hdr`.
-/

namespace Cubiboot
namespace Boot

open CopyRange Disc Placement

/-- `DOLHDRLENGTH`. -/
abbrev dolHdrLength : Nat := 256

/-- The fields of a header. -/
def parseDolHeader (bytes : Nat → UInt8) : DolHeader where
  text := fun i => ⟨be32 bytes (4 * i), be32 bytes (0x48 + 4 * i), be32 bytes (0x90 + 4 * i)⟩
  data := fun i =>
    ⟨be32 bytes (0x1C + 4 * i), be32 bytes (0x64 + 4 * i), be32 bytes (0xAC + 4 * i)⟩
  bssAddress := be32 bytes 0xD8
  bssLength := be32 bytes 0xDC
  entryPoint := be32 bytes 0xE0

/-- What changes while a DOL is loaded. -/
structure LoadState where
  memory : Nat → UInt8
  staging : Nat → UInt8
  succeeded : Bool

/-- The clearing of the BSS in `load_dol`. -/
def clearBss (hdr : DolHeader) (memory : Nat → UInt8) : Nat → UInt8 :=
  if hdr.bssAddress ≠ 0 ∧ hdr.bssLength ≠ 0 then
    copyRange memory hdr.bssAddress hdr.bssLength fun _ => 0
  else
    memory

/-- One section in the loops of `load_dol`. -/
def loadSection
    (dvdRead : DvdRead) (offset fuel : Nat) (s : DolSection) (st : LoadState) :
    Option LoadState :=
  if s.Present then
    match dvdReadData dvdRead s.address s.length (offset + s.offset) fuel st.memory
        st.staging with
    | none => none
    | some (result, store) =>
        some ⟨store.memory, store.staging, st.succeeded && result == 0⟩
  else
    some st

/-- The header at an address of memory. -/
def heldHeader (dolBuf : Nat) (memory : Nat → UInt8) : DolHeader :=
  parseDolHeader fun i => memory (dolBuf + i)

/--
A loop of `load_dol` over the sections that `field` has in `dol_hdr`: the calls of
`dvd_read` are given by the place in the header.
-/
def loadSectionsFrom {ι : Type} (reads : Nat → DvdRead) (dolHdr offset fuel : Nat)
    (field : DolHeader → ι → DolSection) : Nat → List ι → LoadState → Option LoadState
  | _, [], st => some st
  | slot, i :: rest, st =>
      match loadSection (reads slot) offset fuel (field (heldHeader dolHdr st.memory) i) st with
      | none => none
      | some st => loadSectionsFrom reads dolHdr offset fuel field (slot + 1) rest st

/-- Memory once the header has been read to `dol_hdr`. -/
def withHeader (headerRead : DvdRead) (dolHdr offset : Nat) (memory : Nat → UInt8) :
    Nat → UInt8 :=
  copyRange memory dolHdr dolHdrLength
    (headerRead 0 (.memory dolHdr) dolHdrLength offset).data

/-- `load_dol` before its loops: the header is read, and the BSS is cleared. -/
def beforeSections
    (headerRead : DvdRead) (dolHdr offset : Nat) (memory staging : Nat → UInt8) : LoadState :=
  let held := withHeader headerRead dolHdr offset memory
  ⟨clearBss (heldHeader dolHdr held) held, staging,
    (headerRead 0 (.memory dolHdr) dolHdrLength offset).result == 0⟩

/-- `load_dol`, with `dol_hdr` at an address that is aligned. -/
def loadDolInto
    (headerRead : DvdRead) (reads : Nat → DvdRead) (dolHdr offset fuel : Nat)
    (memory staging : Nat → UInt8) : Option (DolInfo × LoadState) := do
  let st ← loadSectionsFrom reads dolHdr offset fuel DolHeader.text 0
    (List.finRange maxTextSection) (beforeSections headerRead dolHdr offset memory staging)
  let st ← loadSectionsFrom reads dolHdr offset fuel DolHeader.data maxTextSection
    (List.finRange maxDataSection) st
  some (⟨dolMax (heldHeader dolHdr st.memory), (heldHeader dolHdr st.memory).entryPoint⟩, st)

/-- An address of a section. -/
def DolSection.Covers (s : DolSection) (a : Nat) : Prop :=
  s.address ≤ a ∧ a < s.address + s.length

/-- An address of the BSS, if there is one. -/
def DolHeader.InBss (hdr : DolHeader) (a : Nat) : Prop :=
  hdr.bssAddress ≠ 0 ∧ hdr.bssAddress ≤ a ∧ a < hdr.bssAddress + hdr.bssLength

/-- A section and its bytes in a file. -/
def DolSection.region (file : Nat → UInt8) (offset : Nat) (s : DolSection) : Region UInt8 :=
  ⟨s.address, s.length, fun i => file (offset + s.offset + i)⟩

/-- The sections that are there, with their bytes. -/
def sectionRegions (file : Nat → UInt8) (offset : Nat) :
    List DolSection → List (Region UInt8)
  | [] => []
  | s :: rest =>
      if s.Present then s.region file offset :: sectionRegions file offset rest
      else sectionRegions file offset rest

/-- The header of a DOL in a file. -/
def fileHeader (file : Nat → UInt8) (offset : Nat) : DolHeader :=
  parseDolHeader fun i => file (offset + i)

/-- A DOL at an offset of a file whose sections can be read and are apart in memory. -/
structure LoadableDol (file : Nat → UInt8) (size offset : Nat) : Prop where
  aligned : offset % 4 = 0
  header : offset + dolHdrLength ≤ size
  offsets : ∀ s ∈ (fileHeader file offset).slots, s.Present → s.offset % 4 = 0
  inFile : ∀ s ∈ (fileHeader file offset).slots, s.Present →
    offset + s.offset + s.length ≤ size
  apart : (sectionRegions file offset (fileHeader file offset).slots).Pairwise Region.Apart
  below : ∀ s ∈ (fileHeader file offset).slots, s.Present →
    s.address + s.length < 0x100000000
  bssBelow : (fileHeader file offset).bssAddress + (fileHeader file offset).bssLength <
    0x100000000

/-- Nothing of a DOL is loaded to the `count` bytes from `start` on. -/
structure DolHeader.Spares (hdr : DolHeader) (start count : Nat) : Prop where
  sections : ∀ s ∈ hdr.slots, s.Present →
    s.address + s.length ≤ start ∨ start + count ≤ s.address
  bss : hdr.bssAddress ≠ 0 → hdr.bssLength ≠ 0 →
    hdr.bssAddress + hdr.bssLength ≤ start ∨ start + count ≤ hdr.bssAddress

/-- A DOL is in memory, which is otherwise as it was but for `dol_hdr`. -/
structure DolPlaced
    (file : Nat → UInt8) (offset dolHdr : Nat) (memory : Nat → UInt8) (info : DolInfo)
    (after : Nat → UInt8) : Prop where
  sections : ∀ s ∈ (fileHeader file offset).slots, s.Present →
    ∀ i < s.length, after (s.address + i) = file (offset + s.offset + i)
  bss : ∀ a, (fileHeader file offset).InBss a →
    (∀ s ∈ (fileHeader file offset).slots, s.Present → ¬ s.Covers a) → after a = 0
  rest : ∀ a, ¬ (fileHeader file offset).InBss a →
    (∀ s ∈ (fileHeader file offset).slots, s.Present → ¬ s.Covers a) →
      a < dolHdr ∨ dolHdr + dolHdrLength ≤ a → after a = memory a
  sectionsBelow : ∀ s ∈ (fileHeader file offset).slots, s.Present →
    s.address + s.length ≤ info.maxAddr
  bssBelow : (fileHeader file offset).bssAddress ≠ 0 →
    (fileHeader file offset).bssAddress + (fileHeader file offset).bssLength ≤ info.maxAddr

/-- Memory has an image at a place. -/
def HoldsImage (memory : Nat → UInt8) (dolBuf : Nat) (image : Nat → UInt8) (size : Nat) :
    Prop :=
  ∀ i < size, memory (dolBuf + i) = image i

variable {file image memory after staging : Nat → UInt8}
variable {size offset dolHdr dolBuf fuel slot : Nat}
variable {dvdRead headerRead : DvdRead} {reads : Nat → DvdRead}
variable {s : DolSection} {sections : List DolSection} {st st' : LoadState} {hdr : DolHeader}
variable {ι : Type} {field : DolHeader → ι → DolSection} {places : List ι}

theorem mem_sectionRegions {r : Region UInt8} :
    r ∈ sectionRegions file offset sections ↔
      ∃ s ∈ sections, s.Present ∧ r = s.region file offset := by
  induction sections with
  | nil =>
      simp [sectionRegions]
  | cons t rest ih =>
      rw [sectionRegions]
      by_cases hpresent : t.Present
      · simp [hpresent, ih]
      · simp [hpresent, ih]

theorem le_dolMaxSection (top : Nat) (s : DolSection) : top ≤ dolMaxSection top s := by
  simp only [dolMaxSection]
  split
  · rename_i hmore
    exact Nat.le_of_lt hmore.2
  · exact Nat.le_refl top

theorem le_foldl_dolMax (top : Nat) (sections : List DolSection) :
    top ≤ sections.foldl dolMaxSection top := by
  induction sections generalizing top with
  | nil =>
      exact Nat.le_refl top
  | cons t rest ih =>
      exact (le_dolMaxSection top t).trans (ih _)

theorem section_le_foldl_dolMax
    (hs : s ∈ sections) (hpresent : s.Present) (hbelow : s.address + s.length < 0x100000000)
    (top : Nat) : s.address + s.length ≤ sections.foldl dolMaxSection top := by
  induction sections generalizing top with
  | nil =>
      exact absurd hs List.not_mem_nil
  | cons t rest ih =>
      rcases List.mem_cons.1 hs with rfl | hs
      · refine Nat.le_trans ?_ (le_foldl_dolMax _ rest)
        simp only [dolMaxSection, Nat.mod_eq_of_lt hbelow, hpresent, true_and]
        split <;> omega
      · exact ih hs _

theorem foldl_le_dolMax (hdr : DolHeader) : hdr.slots.foldl dolMaxSection 0 ≤ dolMax hdr := by
  simp only [dolMax]
  split
  · rename_i hmore
    exact Nat.le_of_lt hmore.2
  · exact Nat.le_refl _

theorem bss_le_dolMax
    (hbss : hdr.bssAddress ≠ 0) (hbelow : hdr.bssAddress + hdr.bssLength < 0x100000000) :
    hdr.bssAddress + hdr.bssLength ≤ dolMax hdr := by
  simp only [dolMax, Nat.mod_eq_of_lt hbelow, ne_eq, hbss, not_false_eq_true, true_and]
  split <;> omega

/-- Only the bytes of the header matter. -/
theorem parseDolHeader_congr
    {bytes other : Nat → UInt8} (h : ∀ i < dolHdrLength, other i = bytes i) :
    parseDolHeader other = parseDolHeader bytes := by
  have hword : ∀ place, place + 4 ≤ dolHdrLength → be32 other place = be32 bytes place :=
    fun place hroom => be32_congr fun k hk => h (place + k) (by omega)
  have htext : ∀ i : Fin maxTextSection, (i : Nat) < 7 := fun i => i.isLt
  have hdata : ∀ i : Fin maxDataSection, (i : Nat) < 11 := fun i => i.isLt
  simp only [parseDolHeader, DolHeader.mk.injEq]
  refine ⟨funext fun i => ?_, funext fun i => ?_, hword _ (by decide), hword _ (by decide),
    hword _ (by decide)⟩
  · have hi := htext i
    rw [hword _ (by simp only [dolHdrLength]; omega),
      hword _ (by simp only [dolHdrLength]; omega),
      hword _ (by simp only [dolHdrLength]; omega)]
  · have hi := hdata i
    rw [hword _ (by simp only [dolHdrLength]; omega),
      hword _ (by simp only [dolHdrLength]; omega),
      hword _ (by simp only [dolHdrLength]; omega)]

theorem heldHeader_file
    (h : HoldsImage memory dolHdr (fun i => file (offset + i)) dolHdrLength) :
    heldHeader dolHdr memory = fileHeader file offset :=
  parseDolHeader_congr h

theorem heldHeader_eq
    (hsize : dolHdrLength ≤ size) (h : HoldsImage memory dolBuf image size) :
    heldHeader dolBuf memory = fileHeader image 0 := by
  refine heldHeader_file fun i hi => ?_
  simp only [Nat.zero_add]
  exact h i (by omega)

theorem slots_eq (hdr : DolHeader) :
    hdr.slots = (List.finRange maxTextSection).map hdr.text ++
      (List.finRange maxDataSection).map hdr.data := by
  rw [DolHeader.slots, List.ofFn_eq_map, List.ofFn_eq_map]

theorem sectionRegions_append (file : Nat → UInt8) (offset : Nat) (l l' : List DolSection) :
    sectionRegions file offset (l ++ l') =
      sectionRegions file offset l ++ sectionRegions file offset l' := by
  induction l with
  | nil =>
      rfl
  | cons s rest ih =>
      rw [List.cons_append, sectionRegions, sectionRegions, ih]
      split
      · rfl
      · rfl

/-- What is not loaded to keeps its bytes. -/
theorem holdsImage_of_placed
    {regions : List (Region UInt8)} (h : Placed regions memory after)
    (hclear : ∀ r ∈ regions, r.place + r.count ≤ dolBuf ∨ dolBuf + size ≤ r.place)
    (hheld : HoldsImage memory dolBuf image size) : HoldsImage after dolBuf image size := by
  intro i hi
  rw [h.outside (dolBuf + i) fun r hr hc => ?_]
  · exact hheld i hi
  · have hno := hclear r hr
    rw [Region.Covers] at hc
    omega

/-- A section is loaded whatever comes of its read. -/
theorem loadSection_total
    (dvdRead : DvdRead) (offset : Nat) (s : DolSection) (st : LoadState) :
    ∃ fuel st', loadSection dvdRead offset fuel s st = some st' := by
  by_cases hpresent : s.Present
  · obtain ⟨⟨result, store⟩, hr⟩ := dvdReadData_total dvdRead s.address s.length
      (offset + s.offset) st.memory st.staging
    refine ⟨s.length + 1, ⟨store.memory, store.staging, st.succeeded && result == 0⟩, ?_⟩
    rw [loadSection, if_pos hpresent, hr]
  · exact ⟨0, st, if_neg hpresent⟩

theorem loadSection_mono
    {more : Nat} (hle : fuel ≤ more) (h : loadSection dvdRead offset fuel s st = some st') :
    loadSection dvdRead offset more s st = some st' := by
  rw [loadSection] at h ⊢
  by_cases hpresent : s.Present
  · rw [if_pos hpresent] at h ⊢
    split at h
    · cases h
    · rename_i result store hr
      have hmore := steady_dvdReadData dvdRead s.address s.length (offset + s.offset)
        st.memory st.staging hle hr
      simp only at hmore
      rw [hmore]
      exact h
  · rw [if_neg hpresent] at h ⊢
    exact h

theorem loadSectionsFrom_mono
    {more : Nat} (hle : fuel ≤ more)
    (h : loadSectionsFrom reads dolHdr offset fuel field slot places st = some st') :
    loadSectionsFrom reads dolHdr offset more field slot places st = some st' := by
  induction places generalizing slot st with
  | nil =>
      exact h
  | cons i rest ih =>
      rw [loadSectionsFrom] at h ⊢
      split at h
      · cases h
      · rename_i st'' hone
        rw [loadSection_mono hle hone]
        exact ih h

theorem loadSectionsFrom_total
    (reads : Nat → DvdRead) (dolHdr offset slot : Nat) (field : DolHeader → ι → DolSection)
    (places : List ι) (st : LoadState) :
    ∃ fuel st', loadSectionsFrom reads dolHdr offset fuel field slot places st = some st' := by
  induction places generalizing slot st with
  | nil =>
      exact ⟨0, st, rfl⟩
  | cons i rest ih =>
      obtain ⟨fuel, st₁, hone⟩ :=
        loadSection_total (reads slot) offset (field (heldHeader dolHdr st.memory) i) st
      obtain ⟨more, st₂, hrest⟩ := ih (slot + 1) st₁
      refine ⟨max fuel more, st₂, ?_⟩
      rw [loadSectionsFrom, loadSection_mono (Nat.le_max_left fuel more) hone]
      exact loadSectionsFrom_mono (Nat.le_max_right fuel more) hrest

/-- A read that has failed is not forgotten. -/
theorem loadSection_succeeded
    (h : loadSection dvdRead offset fuel s st = some st') (hok : st'.succeeded = true) :
    st.succeeded = true := by
  rw [loadSection] at h
  split at h
  · split at h
    · cases h
    · cases h
      rw [Bool.and_eq_true] at hok
      exact hok.1
  · cases h
    exact hok

theorem loadSectionsFrom_succeeded
    (h : loadSectionsFrom reads dolHdr offset fuel field slot places st = some st')
    (hok : st'.succeeded = true) : st.succeeded = true := by
  induction places generalizing slot st with
  | nil =>
      cases h
      exact hok
  | cons i rest ih =>
      rw [loadSectionsFrom] at h
      split at h
      · cases h
      · rename_i st₁ hone
        exact loadSection_succeeded hone (ih h)

/-- A section whose read fits and succeeds has been placed. -/
theorem loadSection_placed
    (hread : Delivers dvdRead file size) (hpresent : s.Present)
    (hfits : FitsStaging s.length (offset + s.offset))
    (hsize : offset + s.offset + s.length ≤ size)
    (h : loadSection dvdRead offset fuel s st = some st') (hok : st'.succeeded = true) :
    Placed [s.region file offset] st.memory st'.memory := by
  rw [loadSection, if_pos hpresent] at h
  split at h
  · cases h
  · rename_i result store hr
    have hexact := exactRead_of_fits hfits hread hsize hr
    cases h
    rw [Bool.and_eq_true, beq_iff_eq] at hok
    constructor
    · intro r hr i hi
      rw [List.mem_singleton] at hr
      subst hr
      exact hexact.bytes hok.2 i hi
    · intro a ha
      have hno := ha (s.region file offset) (List.mem_singleton_self _)
      refine hexact.outside a ?_
      simp only [Region.Covers, DolSection.region] at hno
      omega

/--
A loop places its sections, when these are apart from each other and from `dol_hdr` and
all the reads succeed: the header that it reads stays that of the file.
-/
theorem loadSectionsFrom_placed
    (hreads : ∀ slot, Delivers (reads slot) file size)
    (hfits : ∀ s ∈ places.map (field (fileHeader file offset)), s.Present →
      FitsStaging s.length (offset + s.offset))
    (hsize : ∀ s ∈ places.map (field (fileHeader file offset)), s.Present →
      offset + s.offset + s.length ≤ size)
    (hspares : ∀ s ∈ places.map (field (fileHeader file offset)), s.Present →
      s.address + s.length ≤ dolHdr ∨ dolHdr + dolHdrLength ≤ s.address)
    (hapart : (sectionRegions file offset (places.map (field (fileHeader file offset)))).Pairwise
      Region.Apart)
    (hheld : HoldsImage st.memory dolHdr (fun i => file (offset + i)) dolHdrLength)
    (h : loadSectionsFrom reads dolHdr offset fuel field slot places st = some st')
    (hok : st'.succeeded = true) :
    Placed (sectionRegions file offset (places.map (field (fileHeader file offset))))
      st.memory st'.memory := by
  induction places generalizing slot st with
  | nil =>
      cases h
      exact Placed.nil
  | cons i rest ih =>
      rw [loadSectionsFrom, heldHeader_file hheld] at h
      split at h
      · cases h
      · rename_i st₁ hone
        rw [List.map_cons] at hfits hsize hspares hapart ⊢
        have hfits' := fun t ht => hfits t (List.mem_cons_of_mem _ ht)
        have hsize' := fun t ht => hsize t (List.mem_cons_of_mem _ ht)
        have hspares' := fun t ht => hspares t (List.mem_cons_of_mem _ ht)
        rw [sectionRegions] at hapart ⊢
        by_cases hpresent : (field (fileHeader file offset) i).Present
        · rw [if_pos hpresent] at hapart ⊢
          obtain ⟨hfirst, hlater⟩ := List.pairwise_cons.1 hapart
          have hplaced := loadSection_placed (hreads slot) hpresent
            (hfits _ List.mem_cons_self hpresent) (hsize _ List.mem_cons_self hpresent) hone
            (loadSectionsFrom_succeeded h hok)
          have hheld' := holdsImage_of_placed hplaced (fun r hr => by
            rw [List.mem_singleton] at hr
            subst hr
            exact hspares _ List.mem_cons_self hpresent) hheld
          exact hplaced.cons (ih hfits' hsize' hspares' hlater hheld' h) hfirst
        · rw [if_neg hpresent] at hapart ⊢
          rw [loadSection, if_neg hpresent] at hone
          cases hone
          exact ih hfits' hsize' hspares' hapart hheld h

theorem clearBss_inside {a : Nat} (h : hdr.InBss a) : clearBss hdr memory a = 0 := by
  obtain ⟨hbss, hle, hlt⟩ := h
  have hlength : hdr.bssLength ≠ 0 := by omega
  rw [clearBss, if_pos ⟨hbss, hlength⟩, copyRange_inside hle hlt]

theorem clearBss_outside {a : Nat} (h : ¬ hdr.InBss a) : clearBss hdr memory a = memory a := by
  rw [clearBss]
  split
  · rename_i hsome
    refine copyRange_outside ?_
    rw [DolHeader.InBss] at h
    omega
  · rfl

theorem not_covers_regions
    {a : Nat} (h : ∀ s ∈ sections, s.Present → ¬ s.Covers a) :
    ∀ r ∈ sectionRegions file offset sections, ¬ r.Covers a := by
  intro r hr
  obtain ⟨s, hs, hpresent, rfl⟩ := mem_sectionRegions.1 hr
  exact h s hs hpresent

theorem withHeader_outside {a : Nat} (h : a < dolHdr ∨ dolHdr + dolHdrLength ≤ a) :
    withHeader headerRead dolHdr offset memory a = memory a :=
  copyRange_outside h

/-- The header that is read is that of the file. -/
theorem withHeader_holds
    (hbuffer : dolHdr % 32 = 0) (hread : Delivers headerRead file size)
    (haligned : offset % 4 = 0) (hsize : offset + dolHdrLength ≤ size)
    (hok : (headerRead 0 (.memory dolHdr) dolHdrLength offset).result = 0) :
    HoldsImage (withHeader headerRead dolHdr offset memory) dolHdr
      (fun i => file (offset + i)) dolHdrLength := by
  intro i hi
  rw [withHeader, copyRange_inside (by omega) (by omega), Nat.add_sub_cancel_left]
  exact hread 0 (.memory dolHdr) dolHdrLength offset hbuffer haligned hok i hi (by omega)

/-- The BSS is cleared beside the header. -/
theorem DolHeader.Spares.clearBss_holds
    {count : Nat} (h : hdr.Spares dolHdr count) (hheld : HoldsImage memory dolHdr image count) :
    HoldsImage (clearBss hdr memory) dolHdr image count := by
  intro i hi
  rw [clearBss_outside]
  · exact hheld i hi
  · rintro ⟨hbss, hle, hlt⟩
    have hapart := h.bss hbss (by omega)
    omega

/-- A run of `load_dol` is that of its two loops. -/
theorem loadDolInto_eq_some {info : DolInfo} :
    loadDolInto headerRead reads dolHdr offset fuel memory staging = some (info, st) ↔
      ∃ middle : LoadState,
        loadSectionsFrom reads dolHdr offset fuel DolHeader.text 0
            (List.finRange maxTextSection)
            (beforeSections headerRead dolHdr offset memory staging) = some middle ∧
          loadSectionsFrom reads dolHdr offset fuel DolHeader.data maxTextSection
              (List.finRange maxDataSection) middle = some st ∧
            info = ⟨dolMax (heldHeader dolHdr st.memory),
              (heldHeader dolHdr st.memory).entryPoint⟩ := by
  rw [loadDolInto]
  simp only [Option.bind_eq_bind, Option.bind_eq_some_iff, Option.some.injEq, Prod.mk.injEq]
  constructor
  · rintro ⟨middle, htext, st', hdata, rfl, rfl⟩
    exact ⟨middle, htext, hdata, rfl⟩
  · rintro ⟨middle, htext, hdata, rfl⟩
    exact ⟨middle, htext, st, hdata, rfl, rfl⟩

/-- What `load_dol` comes to when its reads succeed: the sections over a cleared BSS. -/
theorem loadDolInto_placed
    (hbuffer : dolHdr % 32 = 0) (hheader : Delivers headerRead file size)
    (hreads : ∀ slot, Delivers (reads slot) file size) (haligned : offset % 4 = 0)
    (hroom : offset + dolHdrLength ≤ size)
    (hfits : ∀ s ∈ (fileHeader file offset).slots, s.Present →
      FitsStaging s.length (offset + s.offset))
    (hsize : ∀ s ∈ (fileHeader file offset).slots, s.Present →
      offset + s.offset + s.length ≤ size)
    (hapart : (sectionRegions file offset (fileHeader file offset).slots).Pairwise
      Region.Apart)
    (hspares : (fileHeader file offset).Spares dolHdr dolHdrLength) {info : DolInfo}
    (h : loadDolInto headerRead reads dolHdr offset fuel memory staging = some (info, st))
    (hok : st.succeeded = true) :
    info = ⟨dolMax (fileHeader file offset), (fileHeader file offset).entryPoint⟩ ∧
      Placed (sectionRegions file offset (fileHeader file offset).slots)
        (clearBss (fileHeader file offset) (withHeader headerRead dolHdr offset memory))
        st.memory := by
  obtain ⟨middle, htext, hdata, rfl⟩ := loadDolInto_eq_some.1 h
  have hmiddle := loadSectionsFrom_succeeded hdata hok
  have hresult : (headerRead 0 (.memory dolHdr) dolHdrLength offset).result = 0 :=
    beq_iff_eq.1 (loadSectionsFrom_succeeded htext hmiddle)
  have hread : HoldsImage (withHeader headerRead dolHdr offset memory) dolHdr
      (fun i => file (offset + i)) dolHdrLength :=
    withHeader_holds hbuffer hheader haligned hroom hresult
  rw [beforeSections, heldHeader_file hread] at htext
  have hstart := hspares.clearBss_holds hread
  have hslots := slots_eq (fileHeader file offset)
  rw [hslots, sectionRegions_append, List.pairwise_append] at hapart
  obtain ⟨hapartText, hapartData, hapartBoth⟩ := hapart
  have hinText := fun s hs => (hslots ▸ List.mem_append_left _ hs :
    s ∈ (fileHeader file offset).slots)
  have hinData := fun s hs => (hslots ▸ List.mem_append_right _ hs :
    s ∈ (fileHeader file offset).slots)
  have hfirst := loadSectionsFrom_placed hreads (fun s hs => hfits s (hinText s hs))
    (fun s hs => hsize s (hinText s hs)) (fun s hs => hspares.sections s (hinText s hs))
    hapartText hstart htext hmiddle
  have hheld₁ := holdsImage_of_placed hfirst (fun r hr => by
    obtain ⟨s, hs, hpresent, rfl⟩ := mem_sectionRegions.1 hr
    exact hspares.sections s (hinText s hs) hpresent) hstart
  have hsecond := loadSectionsFrom_placed hreads (fun s hs => hfits s (hinData s hs))
    (fun s hs => hsize s (hinData s hs)) (fun s hs => hspares.sections s (hinData s hs))
    hapartData hheld₁ hdata hok
  have hheld₂ := holdsImage_of_placed hsecond (fun r hr => by
    obtain ⟨s, hs, hpresent, rfl⟩ := mem_sectionRegions.1 hr
    exact hspares.sections s (hinData s hs) hpresent) hheld₁
  constructor
  · rw [heldHeader_file hheld₂]
  · rw [hslots, sectionRegions_append]
    exact hfirst.append hsecond hapartBoth

theorem loadDolInto_total
    (headerRead : DvdRead) (reads : Nat → DvdRead) (dolHdr offset : Nat)
    (memory staging : Nat → UInt8) :
    ∃ fuel r, loadDolInto headerRead reads dolHdr offset fuel memory staging = some r := by
  obtain ⟨fuel, middle, htext⟩ := loadSectionsFrom_total reads dolHdr offset 0 DolHeader.text
    (List.finRange maxTextSection) (beforeSections headerRead dolHdr offset memory staging)
  obtain ⟨more, st, hdata⟩ := loadSectionsFrom_total reads dolHdr offset maxTextSection
    DolHeader.data (List.finRange maxDataSection) middle
  exact ⟨max fuel more, _, loadDolInto_eq_some.2 ⟨middle,
    loadSectionsFrom_mono (Nat.le_max_left fuel more) htext,
    loadSectionsFrom_mono (Nat.le_max_right fuel more) hdata, rfl⟩⟩

/-- From a drive that never fails everything is loaded. -/
theorem loadSectionsFrom_wholeFile
    (h : loadSectionsFrom (fun _ => wholeFile file) dolHdr offset fuel field slot places st =
      some st') : st'.succeeded = st.succeeded := by
  induction places generalizing slot st with
  | nil =>
      cases h
      rfl
  | cons i rest ih =>
      rw [loadSectionsFrom] at h
      split at h
      · cases h
      · rename_i st₁ hone
        rw [ih h]
        rw [loadSection] at hone
        split at hone
        · split at hone
          · cases hone
          · rename_i result store hr
            have hresult : result = 0 := dvdReadData_wholeFile hr
            cases hone
            simp only [hresult, beq_self_eq_true, Bool.and_true]
        · cases hone
          rfl

theorem loadDolInto_wholeFile
    (file : Nat → UInt8) (dolHdr offset : Nat) (memory staging : Nat → UInt8) :
    ∃ fuel info st,
      loadDolInto (wholeFile file) (fun _ => wholeFile file) dolHdr offset fuel memory staging =
          some (info, st) ∧ st.succeeded = true := by
  obtain ⟨fuel, ⟨info, st⟩, hrun⟩ := loadDolInto_total (wholeFile file)
    (fun _ => wholeFile file) dolHdr offset memory staging
  refine ⟨fuel, info, st, hrun, ?_⟩
  obtain ⟨middle, htext, hdata, _⟩ := loadDolInto_eq_some.1 hrun
  rw [loadSectionsFrom_wholeFile hdata, loadSectionsFrom_wholeFile htext]
  rfl

/-- Sections over a cleared BSS are a DOL in memory. -/
theorem dolPlaced_of_placed
    (h : LoadableDol file size offset)
    (hplaced : Placed (sectionRegions file offset (fileHeader file offset).slots)
      (clearBss (fileHeader file offset) (withHeader headerRead dolHdr offset memory)) after) :
    DolPlaced file offset dolHdr memory
      ⟨dolMax (fileHeader file offset), (fileHeader file offset).entryPoint⟩ after := by
  constructor
  · intro s hs hpresent i hi
    exact hplaced.inside (s.region file offset) (mem_sectionRegions.2 ⟨s, hs, hpresent, rfl⟩)
      i hi
  · intro a hbss hno
    rw [hplaced.outside a (not_covers_regions hno)]
    exact clearBss_inside hbss
  · intro a hbss hno haway
    rw [hplaced.outside a (not_covers_regions hno), clearBss_outside hbss]
    exact withHeader_outside haway
  · intro s hs hpresent
    exact (section_le_foldl_dolMax hs hpresent (h.below s hs hpresent) 0).trans
      (foldl_le_dolMax _)
  · intro hbss
    exact bss_le_dolMax hbss h.bssBelow

/--
`load_dol` returns, and when all its reads have succeeded a DOL that spares `dol_hdr` is
in memory: the BSS is cleared before the sections come, so that these stay whole wherever
it is.
-/
theorem load_dol_places
    (headerRead : DvdRead) (reads : Nat → DvdRead) (file memory staging : Nat → UInt8)
    (size offset dolHdr : Nat) (hbuffer : dolHdr % 32 = 0)
    (hheader : Delivers headerRead file size) (hreads : ∀ slot, Delivers (reads slot) file size)
    (h : LoadableDol file size offset)
    (hspares : (fileHeader file offset).Spares dolHdr dolHdrLength) :
    (∃ fuel r, loadDolInto headerRead reads dolHdr offset fuel memory staging = some r) ∧
      ∀ fuel info st,
        loadDolInto headerRead reads dolHdr offset fuel memory staging = some (info, st) →
          st.succeeded = true → DolPlaced file offset dolHdr memory info st.memory := by
  refine ⟨loadDolInto_total headerRead reads dolHdr offset memory staging,
    fun fuel info st hrun hok => ?_⟩
  have hfits : ∀ s ∈ (fileHeader file offset).slots, s.Present →
      FitsStaging s.length (offset + s.offset) := by
    intro s hs hpresent
    have hbase := h.aligned
    have hsection := h.offsets s hs hpresent
    exact Or.inl (by omega)
  obtain ⟨rfl, hplaced⟩ := loadDolInto_placed hbuffer hheader hreads h.aligned h.header hfits
    h.inFile h.apart hspares hrun hok
  exact dolPlaced_of_placed h hplaced

/-- A header with these words at these places, in a file of zeros and ones. -/
def dolFile (words : List (Nat × Nat)) : Nat → UInt8 :=
  fun a =>
    match words.find? fun w => w.1 ≤ a ∧ a < w.1 + 4 with
    | some w => UInt8.ofNat (w.2 / 0x100 ^ (3 - (a - w.1)))
    | none => if a < dolHdrLength then 0 else 1

/-- A text section of 4 bytes at address 0, and a BSS that ends with the address space. -/
def edgeDol : Nat → UInt8 :=
  dolFile [(0, 0x100), (0x90, 4), (0xD8, 0xFFFFFF00), (0xDC, 0x100)]

/-- A text section of 32 bytes, and a BSS over the `dol_hdr` at 0x81700000. -/
def headerlessDol : Nat → UInt8 :=
  dolFile [(0, 0x100), (0x48, 0x80003100), (0x90, 0x20), (0xD8, 0x81700000), (0xDC, 0x100)]

/--
A section at address 0 is not loaded, as that says that there is none, and the end of the
BSS wraps to 0.  A BSS over `dol_hdr` clears the header before a section has been loaded.
-/
theorem load_dol_misses_edges :
    ((fileHeader edgeDol 0).text 0 = ⟨0x100, 0, 4⟩ ∧ edgeDol 0x100 = 1 ∧
      (fileHeader edgeDol 0).bssAddress + (fileHeader edgeDol 0).bssLength = 0x100000000 ∧
        (loadDolInto (wholeFile edgeDol) (fun _ => wholeFile edgeDol) 0x81700000 0 1
            (fun _ => 0) fun _ => 0).map
          (fun r => (r.2.succeeded, r.2.memory 0, r.1.maxAddr)) = some (true, 0, 0)) ∧
      LoadableDol headerlessDol 0x120 0 ∧
        (fileHeader headerlessDol 0).text 0 = ⟨0x100, 0x80003100, 0x20⟩ ∧
          headerlessDol 0x100 = 1 ∧
            (loadDolInto (wholeFile headerlessDol) (fun _ => wholeFile headerlessDol)
                0x81700000 0 1 (fun _ => 0) fun _ => 0).map
              (fun r => (r.2.succeeded, r.2.memory 0x80003100, r.1.maxAddr)) =
                some (true, 0, 0) := by
  refine ⟨⟨?_, ?_, ?_, ?_⟩, ⟨?_, ?_, ?_, ?_, ?_, ?_, ?_⟩, ?_, ?_, ?_⟩
  all_goals decide +kernel

/-- A text section of 32 bytes in the middle of a BSS. -/
def overlappedDol : Nat → UInt8 :=
  dolFile [(0, 0x100), (0x48, 0x80003120), (0x90, 0x20), (0xD8, 0x80003100), (0xDC, 0x100)]

theorem overlappedDol_loadable : LoadableDol overlappedDol 0x120 0 where
  aligned := by decide
  header := by decide
  offsets := by decide +kernel
  inFile := by decide +kernel
  apart := by decide +kernel
  below := by decide +kernel
  bssBelow := by decide +kernel

theorem overlappedDol_spares :
    (fileHeader overlappedDol 0).Spares 0x81700000 dolHdrLength where
  sections := by decide +kernel
  bss := by decide +kernel

theorem load_dol_overlapped :
    ∃ info st,
      loadDolInto (wholeFile overlappedDol) (fun _ => wholeFile overlappedDol) 0x81700000 0 1
          (fun _ => 0) (fun _ => 0) = some (info, st) ∧
        DolPlaced overlappedDol 0 0x81700000 (fun _ => 0) info st.memory := by
  have hall := (load_dol_places (wholeFile overlappedDol) (fun _ => wholeFile overlappedDol)
    overlappedDol (fun _ => 0) (fun _ => 0) 0x120 0 0x81700000 (by decide)
    (wholeFile_delivers _ _) (fun _ => wholeFile_delivers _ _) overlappedDol_loadable
    overlappedDol_spares).2
  have hsucceeds : (loadDolInto (wholeFile overlappedDol) (fun _ => wholeFile overlappedDol)
      0x81700000 0 1 (fun _ => 0) (fun _ => 0)).map (fun r => r.2.succeeded) = some true := by
    decide +kernel
  obtain ⟨⟨info, st⟩, hrun, hok⟩ := Option.map_eq_some_iff.1 hsucceeds
  exact ⟨info, st, hrun, hall 1 info st hrun hok⟩

end Boot
end Cubiboot
