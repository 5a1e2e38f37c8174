import Cubiboot.Disc.FstSearch

/-!
# What the search of the FST reads

The entries and the bytes of names that `get_banner_offset_slow` reads, in the order
in which it reads them, for any bytes at all in place of an FST.  The string table
is kept within a range of addresses; the number of entries and the places of the
names are not held against the size of what has been read.

The FST comes through `dvd_threaded_read`, whose result is not looked at: a file that
ends early or a read that fails leaves fewer bytes than were asked for, or none, and what
is searched then is what was in memory before.  What counts as loaded are the bytes that
the read has transferred.

Results: `searchFst_congr`, that nothing but the reads noted here decides what is found;
`search_in_bounds_iff`, for which files and memories the search keeps to what has been
loaded and to the number of entries that the size allows.
-/

namespace Cubiboot
namespace Disc

open Games Words

/-- Something that is read. -/
inductive FstRead where
  | entry (address : Nat)
  | nameByte (address : Nat)
deriving DecidableEq

/-- The bytes of a string that `strcasecmp` reads. -/
def strcasecmpReads (ram : Nat → UInt8) (string : Nat) : List UInt8 → List Nat
  | [] => [string]
  | b :: rest =>
      string :: if toLower (ram string) == toLower b then strcasecmpReads ram (string + 1) rest
        else []

/-- What an iteration reads: the name only if the entry looks like a file. -/
def iterationReads (ram : Nat → UInt8) (stringTable i : Nat) : List FstRead :=
  .entry (fstEntry i) ::
    if fstFiletype ram i = 0 then
      (strcasecmpReads ram (stringTable + fstStringOffset ram i) openingBnr).map .nameByte
    else
      []

/-- What the loop of `get_banner_offset_slow` reads. -/
def findOpeningBnrReads (ram : Nat → UInt8) (stringTable : Nat) : Nat → Nat → List FstRead
  | 0, _ => []
  | left + 1, i =>
      iterationReads ram stringTable i ++
        if FstMatch ram stringTable i then [] else findOpeningBnrReads ram stringTable left (i + 1)

/-- The iterations of the loop. -/
def findOpeningBnrPasses (ram : Nat → UInt8) (stringTable : Nat) : Nat → Nat → Nat
  | 0, _ => 0
  | left + 1, i =>
      1 +
        if FstMatch ram stringTable i then 0
        else findOpeningBnrPasses ram stringTable left (i + 1)

/-- The entries that entry 0 counts. -/
def totalEntries (ram : Nat → UInt8) : Nat :=
  be32 ram (fstEntry 0 + 8)

/-- The one check: the string table is out of range. -/
def TableRefused (ram : Nat → UInt8) : Prop :=
  fstEntry (totalEntries ram) < 0x81700000 ∨ fstEntry (totalEntries ram) > 0x81800000

instance (ram : Nat → UInt8) : Decidable (TableRefused ram) :=
  inferInstanceAs (Decidable (_ ∨ _))

/-- What `get_banner_offset_slow` reads, once the FST has been read. -/
def searchFstReads (ram : Nat → UInt8) : List FstRead :=
  .entry (fstEntry 0) ::
    if TableRefused ram then
      []
    else
      findOpeningBnrReads ram (fstEntry (totalEntries ram)) (totalEntries ram - 1) 1

/-- Its iterations. -/
def searchFstPasses (ram : Nat → UInt8) : Nat :=
  if TableRefused ram then
    0
  else
    findOpeningBnrPasses ram (fstEntry (totalEntries ram)) (totalEntries ram - 1) 1

/-- The bytes of the FST that read number `n` has loaded. -/
def fstLoaded (f : DeviceFile) (n : Nat) (header : Nat → UInt8) : Nat :=
  f.transferred n (osRoundUp32B (headerFstSize header)) (headerFstOffset header)

/-- All of what is read is in the bytes that have been loaded. -/
def FstRead.Loaded (loaded : Nat) : FstRead → Prop
  | .entry address => fstScratch ≤ address ∧ address + 12 ≤ fstScratch + loaded
  | .nameByte address => fstScratch ≤ address ∧ address < fstScratch + loaded

/-- The search stays within what has been loaded, and within the size. -/
def SearchInBounds (ram : Nat → UInt8) (fstSize loaded : Nat) : Prop :=
  (∀ r ∈ searchFstReads ram, r.Loaded loaded) ∧ searchFstPasses ram ≤ fstSize / 12

variable {ram : Nat → UInt8} {stringTable left i fstSize loaded : Nat}

/-- Another memory has the same bytes there. -/
def FstRead.Agrees (ram other : Nat → UInt8) : FstRead → Prop
  | .entry address => ∀ k < 12, other (address + k) = ram (address + k)
  | .nameByte address => other address = ram address

section Congruence

variable {other : Nat → UInt8}

theorem strcasecmpAt_congr
    {string : Nat} {literal : List UInt8}
    (h : ∀ a ∈ strcasecmpReads ram string literal, other a = ram a) :
    strcasecmpAt other string literal = strcasecmpAt ram string literal := by
  induction literal generalizing string with
  | nil =>
      rw [strcasecmpAt, strcasecmpAt, h string List.mem_cons_self]
  | cons b rest ih =>
      rw [strcasecmpAt, strcasecmpAt, h string List.mem_cons_self]
      by_cases hsame : toLower (ram string) == toLower b
      · rw [ih fun a ha => h a ?_]
        rw [strcasecmpReads, if_pos hsame]
        exact List.mem_cons_of_mem _ ha
      · rw [Bool.eq_false_iff.2 hsame, Bool.false_and, Bool.false_and]

/-- The words of an entry, from four of its bytes on. -/
theorem entryWord_congr
    {address : Nat} (h : (FstRead.entry address).Agrees ram other) {k : Nat} (hk : k + 4 ≤ 12) :
    be32 other (address + k) = be32 ram (address + k) := by
  refine be32_congr fun j hj => ?_
  rw [Nat.add_assoc]
  exact h (k + j) (by omega)

theorem fstMatch_congr
    (h : ∀ r ∈ iterationReads ram stringTable i, r.Agrees ram other) :
    FstMatch other stringTable i ↔ FstMatch ram stringTable i := by
  have hentry : ∀ k < 12, other (fstEntry i + k) = ram (fstEntry i + k) :=
    h (.entry (fstEntry i)) List.mem_cons_self
  have hflags := hentry 0 (by decide)
  rw [Nat.add_zero] at hflags
  have hoffset : fstStringOffset other i = fstStringOffset ram i := by
    rw [fstStringOffset, fstStringOffset, hentry 1 (by decide), hentry 2 (by decide),
      hentry 3 (by decide)]
  rw [FstMatch, FstMatch, fstFiletype, hflags, hoffset, ← fstFiletype]
  refine and_congr_right fun hfile => ?_
  rw [strcasecmpAt_congr fun a ha => ?_]
  refine h (.nameByte a) ?_
  rw [iterationReads, if_pos hfile]
  exact List.mem_cons_of_mem _ (List.mem_map_of_mem ha)

theorem findOpeningBnr_congr
    (h : ∀ r ∈ findOpeningBnrReads ram stringTable left i, r.Agrees ram other) :
    findOpeningBnr other stringTable left i = findOpeningBnr ram stringTable left i := by
  induction left generalizing i with
  | zero =>
      rfl
  | succ left ih =>
      rw [findOpeningBnrReads] at h
      have hhere : ∀ r ∈ iterationReads ram stringTable i, r.Agrees ram other :=
        fun r hr => h r (List.mem_append_left _ hr)
      have hentry := hhere (.entry (fstEntry i)) List.mem_cons_self
      rw [findOpeningBnr_succ, findOpeningBnr_succ]
      by_cases hmatch : FstMatch ram stringTable i
      · rw [if_pos hmatch, if_pos ((fstMatch_congr hhere).2 hmatch),
          entryWord_congr hentry (by decide), entryWord_congr hentry (by decide)]
      · rw [if_neg hmatch] at h
        rw [if_neg hmatch, if_neg fun hc => hmatch ((fstMatch_congr hhere).1 hc)]
        exact ih fun r hr => h r (List.mem_append_right _ hr)

/-- Nothing but what is noted decides what is found. -/
theorem searchFst_congr (h : ∀ r ∈ searchFstReads ram, r.Agrees ram other) :
    searchFst other = searchFst ram := by
  have hroot := h (.entry (fstEntry 0)) List.mem_cons_self
  have hcount : be32 other (fstEntry 0 + 8) = be32 ram (fstEntry 0 + 8) :=
    entryWord_congr hroot (by decide)
  simp only [searchFst, hcount]
  by_cases htable : TableRefused ram
  · exact (if_pos htable).trans (if_pos htable).symm
  · refine (if_neg htable).trans (Eq.trans ?_ (if_neg htable).symm)
    refine findOpeningBnr_congr fun r hr => h r ?_
    rw [searchFstReads, if_neg htable]
    exact List.mem_cons_of_mem _ hr

end Congruence

/-- How many bytes of a string are those of another, ignoring case. -/
def sharedPrefix (ram : Nat → UInt8) (string : Nat) : List UInt8 → Nat
  | [] => 0
  | b :: rest =>
      if toLower (ram string) == toLower b then sharedPrefix ram (string + 1) rest + 1 else 0

/-- An entry that the search comes to: no entry before it is the banner. -/
structure Reached (ram : Nat → UInt8) (i : Nat) : Prop where
  pos : 0 < i
  lt : i < totalEntries ram
  first : ∀ j, 0 < j → j < i → ¬ FstMatch ram (fstEntry (totalEntries ram)) j

/--
An entry is counted by the size and is all there; the name of one that looks like a
file is there up to where it differs from `opening.bnr`, or ends.
-/
structure EntryFits (ram : Nat → UInt8) (fstSize loaded i : Nat) : Prop where
  counted : i ≤ fstSize / 12
  whole : 12 * (i + 1) ≤ loaded
  name : fstFiletype ram i = 0 →
    fstEntry (totalEntries ram) + fstStringOffset ram i +
        sharedPrefix ram (fstEntry (totalEntries ram) + fstStringOffset ram i) openingBnr <
      fstScratch + loaded

/-- Entry 0 has been loaded, and the table is refused or the search has it all. -/
def FstFits (ram : Nat → UInt8) (fstSize loaded : Nat) : Prop :=
  12 ≤ loaded ∧ (TableRefused ram ∨ ∀ i, Reached ram i → EntryFits ram fstSize loaded i)

theorem mem_strcasecmpReads {string a : Nat} {literal : List UInt8} :
    a ∈ strcasecmpReads ram string literal ↔
      string ≤ a ∧ a ≤ string + sharedPrefix ram string literal := by
  induction literal generalizing string with
  | nil =>
      simp only [strcasecmpReads, List.mem_singleton, sharedPrefix]
      omega
  | cons b rest ih =>
      simp only [strcasecmpReads, List.mem_cons, sharedPrefix]
      by_cases hsame : toLower (ram string) == toLower b
      · rw [if_pos hsame, if_pos hsame, ih]
        omega
      · rw [if_neg hsame, if_neg hsame]
        simp only [List.not_mem_nil, or_false]
        omega

/-- The loop reads what its iterations read, up to the first entry that matches. -/
theorem mem_findOpeningBnrReads {r : FstRead} :
    r ∈ findOpeningBnrReads ram stringTable left i ↔
      ∃ k, i ≤ k ∧ k < i + left ∧ (∀ j, i ≤ j → j < k → ¬ FstMatch ram stringTable j) ∧
        r ∈ iterationReads ram stringTable k := by
  induction left generalizing i with
  | zero =>
      simp only [findOpeningBnrReads, List.not_mem_nil, false_iff]
      rintro ⟨k, hle, hlt, _⟩
      omega
  | succ left ih =>
      rw [findOpeningBnrReads, List.mem_append]
      constructor
      · rintro (hhere | hlater)
        · exact ⟨i, Nat.le_refl i, by omega, fun j hle hlt => by omega, hhere⟩
        · split at hlater
          · cases hlater
          · rename_i hno
            obtain ⟨k, hle, hlt, hfirst, hr⟩ := ih.1 hlater
            refine ⟨k, by omega, by omega, fun j hj hjk => ?_, hr⟩
            by_cases heq : j = i
            · rw [heq]
              exact hno
            · exact hfirst j (by omega) hjk
      · rintro ⟨k, hle, hlt, hfirst, hr⟩
        by_cases heq : k = i
        · rw [heq] at hr
          exact Or.inl hr
        · rw [if_neg (hfirst i (Nat.le_refl i) (by omega))]
          exact Or.inr (ih.2 ⟨k, by omega, by omega,
            fun j hj hjk => hfirst j (by omega) hjk, hr⟩)

/-- The number of iterations is that of the entries that the loop comes to. -/
theorem findOpeningBnrPasses_le_iff {n : Nat} :
    findOpeningBnrPasses ram stringTable left i ≤ n ↔
      ∀ k, i ≤ k → k < i + left → (∀ j, i ≤ j → j < k → ¬ FstMatch ram stringTable j) →
        k - i + 1 ≤ n := by
  induction left generalizing i n with
  | zero =>
      simp only [findOpeningBnrPasses, Nat.zero_le, true_iff]
      intro k hle hlt _
      omega
  | succ left ih =>
      rw [findOpeningBnrPasses]
      constructor
      · intro h k hle hlt hfirst
        by_cases heq : k = i
        · omega
        · rw [if_neg (hfirst i (Nat.le_refl i) (by omega))] at h
          have hrest := (ih (i := i + 1) (n := n - 1)).1 (by omega) k (by omega) (by omega)
            (fun j hj hjk => hfirst j (by omega) hjk)
          omega
      · intro h
        have hhere := h i (Nat.le_refl i) (by omega) (fun j hle hlt => by omega)
        split
        · omega
        · rename_i hno
          have hrest := (ih (i := i + 1) (n := n - 1)).2 fun k hle hlt hfirst => by
            have hk := h k (by omega) (by omega) fun j hj hjk => by
              by_cases heq : j = i
              · rw [heq]
                exact hno
              · exact hfirst j (by omega) hjk
            omega
          omega

/-- The loop comes to an entry. -/
theorem reached_iff {k : Nat} :
    (1 ≤ k ∧ k < 1 + (totalEntries ram - 1) ∧
        ∀ j, 1 ≤ j → j < k → ¬ FstMatch ram (fstEntry (totalEntries ram)) j) ↔
      Reached ram k := by
  constructor
  · rintro ⟨hpos, hlt, hfirst⟩
    exact ⟨hpos, by omega, hfirst⟩
  · intro h
    have hlt := h.lt
    exact ⟨h.pos, by omega, h.first⟩

/-- An entry that the size counts does not wrap. -/
theorem fstEntry_counted (hsize : fstSize ≤ maxFstSize) (hi : i ≤ fstSize / 12) :
    fstEntry i = fstScratch + 12 * i := by
  refine word_of_lt ?_
  simp only [fstScratch, maxFstSize] at *
  omega

/-- What an iteration reads is loaded exactly when its entry fits. -/
theorem iterationReads_loaded_iff
    (hsize : fstSize ≤ maxFstSize) (htable : ¬ TableRefused ram) (hi : i ≤ fstSize / 12) :
    (∀ r ∈ iterationReads ram (fstEntry (totalEntries ram)) i, r.Loaded loaded) ↔
      EntryFits ram fstSize loaded i := by
  have hentry := fstEntry_counted hsize hi
  have hstart : fstScratch ≤ fstEntry (totalEntries ram) := by
    by_contra hc
    exact htable (Or.inl (Nat.lt_of_not_le hc))
  constructor
  · intro h
    have hwhole := h (.entry (fstEntry i)) List.mem_cons_self
    rw [FstRead.Loaded, hentry] at hwhole
    refine ⟨hi, by omega, fun hfile => ?_⟩
    have hlast := h (.nameByte (fstEntry (totalEntries ram) + fstStringOffset ram i +
      sharedPrefix ram (fstEntry (totalEntries ram) + fstStringOffset ram i) openingBnr)) (by
        rw [iterationReads, if_pos hfile]
        refine List.mem_cons_of_mem _ (List.mem_map_of_mem ?_)
        exact mem_strcasecmpReads.2 ⟨Nat.le_add_right _ _, Nat.le_refl _⟩)
    exact hlast.2
  · intro h r hr
    rw [iterationReads, List.mem_cons] at hr
    rcases hr with rfl | hname
    · have hwhole := h.whole
      rw [FstRead.Loaded, hentry]
      omega
    · split at hname
      · rename_i hfile
        obtain ⟨a, ha, rfl⟩ := List.mem_map.1 hname
        have hplace := mem_strcasecmpReads.1 ha
        have hend := h.name hfile
        exact ⟨by omega, by omega⟩
      · cases hname

theorem root_loaded_iff : (FstRead.entry (fstEntry 0)).Loaded loaded ↔ 12 ≤ loaded := by
  have hentry : fstEntry 0 = fstScratch := rfl
  rw [FstRead.Loaded, hentry]
  omega

/-- However much has been loaded. -/
theorem searchInBounds_iff (hsize : fstSize ≤ maxFstSize) :
    SearchInBounds ram fstSize loaded ↔ FstFits ram fstSize loaded := by
  rw [SearchInBounds, FstFits, searchFstReads, searchFstPasses]
  by_cases htable : TableRefused ram
  · rw [if_pos htable, if_pos htable]
    simp only [List.mem_singleton, forall_eq, Nat.zero_le, and_true, htable, true_or]
    exact root_loaded_iff
  · rw [if_neg htable, if_neg htable]
    constructor
    · rintro ⟨hreads, hpasses⟩
      refine ⟨root_loaded_iff.1 (hreads _ List.mem_cons_self), Or.inr fun i hi => ?_⟩
      obtain ⟨hpos, hlt, hfirst⟩ := reached_iff.2 hi
      have hcounted := findOpeningBnrPasses_le_iff.1 hpasses i hpos hlt hfirst
      refine (iterationReads_loaded_iff hsize htable (by omega)).1 fun r hr => hreads r ?_
      exact List.mem_cons_of_mem _ (mem_findOpeningBnrReads.2 ⟨i, hpos, hlt, hfirst, hr⟩)
    · rintro ⟨hsome, hrefused | hfits⟩
      · exact absurd hrefused htable
      · constructor
        · intro r hr
          rcases List.mem_cons.1 hr with rfl | hr
          · exact root_loaded_iff.2 hsome
          · obtain ⟨k, hpos, hlt, hfirst, hr⟩ := mem_findOpeningBnrReads.1 hr
            have hk := hfits k (reached_iff.1 ⟨hpos, hlt, hfirst⟩)
            exact (iterationReads_loaded_iff hsize htable hk.counted).2 hk r hr
        · refine findOpeningBnrPasses_le_iff.2 fun k hpos hlt hfirst => ?_
          have hk := hfits k (reached_iff.1 ⟨hpos, hlt, hfirst⟩)
          have hcounted := hk.counted
          omega

/--
The search stays in bounds exactly when the entries that it comes to are in what the read
of the FST has loaded, with their names.
-/
theorem search_in_bounds_iff
    (f : DeviceFile) (n : Nat) (b : InfoBuffers)
    (hsize : headerFstSize b.header ≤ maxFstSize) :
    SearchInBounds (readFst f n b).ram (headerFstSize b.header) (fstLoaded f n b.header) ↔
      FstFits (readFst f n b).ram (headerFstSize b.header) (fstLoaded f n b.header) :=
  searchInBounds_iff hsize

/-- A disc whose FST is at 0x440, with this size in the header, and `length` bytes. -/
def fstDisc (fst : List UInt8) (fstSize : UInt8) (length : Nat) : DeviceFile where
  opening := .opened 5
  length := length
  data := fun a =>
    if a = 0x426 then 0x04 else if a = 0x427 then 0x40 else if a = 0x42B then fstSize
    else if sizeofDiskHeader ≤ a then bytesOf fst (a - sizeofDiskHeader) else 0
  reads := fun _ => .ok

/-- The buffers with the header of a disc; memory still has an FST from before. -/
def fstDiscBuffers (f : DeviceFile) (before : List UInt8) : InfoBuffers where
  header := f.read 0 (fun _ => 0) 0 sizeofDiskHeader 0
  smallBuf := fun _ => 0
  ram := fstRam (bytesOf before)

/-- A disc with one banner. -/
def bannerDisc : DeviceFile :=
  fstDisc (namedEntry 0) 48 0x480

theorem bannerDisc_fits :
    FstFits (readFst bannerDisc 1 (fstDiscBuffers bannerDisc [])).ram 48 64 := by
  refine ⟨by decide, Or.inr fun i hi => ?_⟩
  have hcount : totalEntries (readFst bannerDisc 1 (fstDiscBuffers bannerDisc [])).ram = 3 := by
    decide +kernel
  have hlt := hi.lt
  have hpos := hi.pos
  rw [hcount] at hlt
  obtain rfl | rfl : i = 1 ∨ i = 2 := by omega
  · exact ⟨by decide, by decide, fun _ => by decide +kernel⟩
  · exact ⟨by decide, by decide, fun _ => by decide +kernel⟩

theorem search_in_bounds_file :
    SearchInBounds (readFst bannerDisc 1 (fstDiscBuffers bannerDisc [])).ram
      (headerFstSize (fstDiscBuffers bannerDisc []).header)
      (fstLoaded bannerDisc 1 (fstDiscBuffers bannerDisc []).header) := by
  have hsize : headerFstSize (fstDiscBuffers bannerDisc []).header = 48 := by decide +kernel
  have hloaded : fstLoaded bannerDisc 1 (fstDiscBuffers bannerDisc []).header = 64 := by
    decide +kernel
  refine (search_in_bounds_iff bannerDisc 1 (fstDiscBuffers bannerDisc [])
    (by rw [hsize]; decide)).2 ?_
  rw [hsize, hloaded]
  exact bannerDisc_fits

/-- A root that counts 65536 entries. -/
def overcountedFst : List UInt8 :=
  [1, 0, 0, 0, 0, 0, 0, 0, 0, 1, 0, 0]

/-- A disc with an FST of 32 bytes that counts more entries than it has. -/
def overcountedDisc : DeviceFile :=
  fstDisc overcountedFst 32 0x460

/-- A disc that ends with its header. -/
def truncatedDisc : DeviceFile :=
  fstDisc [] 48 0x440

/--
An FST that counts too many entries is searched beyond its end; where the disc ends before
its FST, it is the one of another disc that is searched.
-/
theorem overcounted_fst_overruns :
    (headerFstSize (fstDiscBuffers overcountedDisc []).header = 32 ∧
      ¬ SearchInBounds (readFst overcountedDisc 1 (fstDiscBuffers overcountedDisc [])).ram 32
        (fstLoaded overcountedDisc 1 (fstDiscBuffers overcountedDisc []).header)) ∧
      headerFstSize (fstDiscBuffers truncatedDisc (namedEntry 0)).header = 48 ∧
        ¬ SearchInBounds
          (readFst truncatedDisc 1 (fstDiscBuffers truncatedDisc (namedEntry 0))).ram 48
          (fstLoaded truncatedDisc 1 (fstDiscBuffers truncatedDisc (namedEntry 0)).header) := by
  refine ⟨⟨by decide +kernel, fun h => ?_⟩, by decide +kernel, fun h => ?_⟩
  · obtain ⟨_, hrefused | hall⟩ := (searchInBounds_iff (by decide)).1 h
    · exact absurd hrefused (by decide +kernel)
    · have hcount : totalEntries
          (readFst overcountedDisc 1 (fstDiscBuffers overcountedDisc [])).ram = 0x10000 := by
        decide +kernel
      have hother : ¬ FstMatch (readFst overcountedDisc 1 (fstDiscBuffers overcountedDisc [])).ram
          (fstEntry (totalEntries
            (readFst overcountedDisc 1 (fstDiscBuffers overcountedDisc [])).ram)) 1 := by
        decide +kernel
      have hloaded : fstLoaded overcountedDisc 1 (fstDiscBuffers overcountedDisc []).header =
          32 := by decide +kernel
      have hsecond := (hall 2 ⟨by decide, by rw [hcount]; decide, fun j hj hlt => by
        obtain rfl : j = 1 := by omega
        exact hother⟩).whole
      omega
  · obtain ⟨hroot, _⟩ := (searchInBounds_iff (by decide)).1 h
    have hloaded : fstLoaded truncatedDisc 1
        (fstDiscBuffers truncatedDisc (namedEntry 0)).header = 0 := by decide +kernel
    omega

end Disc
end Cubiboot
