import Cubiboot.Games.BannerCache

/-!
# Loading a DOL

`dol.c`, and `load_dol` and `load_dol_file` of `boot.c`.  A function of the
loader makes a list of events: the calls it makes, with their results, what it
writes, and the jump.  What a call comes to is given; the results of a read that
fails may be anything, as may what it leaves in its buffer.

Results: `loadDol_quiet`, that loading a DOL jumps nowhere; `dolLoaded_iff` and
`not_dolLoaded`, for which reads a list of events has loaded a DOL; and
`onlyLoaded_append`, which reduces a list that ends in a jump to what comes before it.
-/

namespace Cubiboot
namespace Boot

open Games

/-- A section of a DOL. -/
structure DolSection where
  offset : Nat
  address : Nat
  length : Nat
deriving DecidableEq

/-- `MAXTEXTSECTION`. -/
abbrev maxTextSection : Nat := 7

/-- `MAXDATASECTION`. -/
abbrev maxDataSection : Nat := 11

/-- `DOLHEADER`. -/
structure DolHeader where
  text : Fin maxTextSection → DolSection
  data : Fin maxDataSection → DolSection
  bssAddress : Nat
  bssLength : Nat
  entryPoint : Nat

/-- The text sections, then the data sections. -/
def DolHeader.slots (hdr : DolHeader) : List DolSection :=
  List.ofFn hdr.text ++ List.ofFn hdr.data

/-- A section that is there. -/
def DolSection.Present (s : DolSection) : Prop :=
  s.address ≠ 0 ∧ s.length ≠ 0

instance (s : DolSection) : Decidable s.Present :=
  inferInstanceAs (Decidable (_ ∧ _))

/-- One section in the loops of `DOLMax`. -/
def dolMaxSection (maxaddress : Nat) (s : DolSection) : Nat :=
  let top := (s.address + s.length) % 0x100000000
  if s.Present ∧ top > maxaddress then top else maxaddress

/-- `DOLMax`. -/
def dolMax (hdr : DolHeader) : Nat :=
  let maxaddress := hdr.slots.foldl dolMaxSection 0
  let top := (hdr.bssAddress + hdr.bssLength) % 0x100000000
  if hdr.bssAddress ≠ 0 ∧ top > maxaddress then top else maxaddress

/-- `file_status_t`: `result` and `fd`. -/
structure FileStatus where
  result : Nat
  fd : Nat
deriving DecidableEq

/-- `DiskHeader`, as far as it is used to boot. -/
structure DiskHeader where
  dolOffset : Nat
  fstOffset : Nat
  fstSize : Nat
  maxFstSize : Nat
deriving DecidableEq

/-- The files that are opened. -/
inductive BootFile where
  | program
  | swiss
  | apploader
  | first
  | second
deriving DecidableEq

/-- `struct __argv`. -/
structure Argv where
  argvMagic : Nat
  commandLine : Nat
  length : Nat

/-- What a loader does. -/
inductive BootEvent where
  /-- `dvd_custom_open`, or `dvd_custom_open_flash`. -/
  | opened (file : BootFile) (path : Path) (flash : Bool) (result : Int)
  /-- `dvd_custom_status`: `none` is `NULL`. -/
  | status (file : BootFile) (status : Option FileStatus)
  | closed (fd : Nat)
  | defaultFd (first second : Nat)
  | readHeader (fd offset : Nat) (result : Int) (hdr : DolHeader)
  | clearBss (address length : Nat)
  /-- The section in this place of the header. -/
  | readSection (slot fd address length offset : Nat) (result : Int) (data : Nat → UInt8)
  | readDiskHeader (result : Int) (header : DiskHeader)
  /-- The read of the first bytes of a disc to low memory. -/
  | readLowmem (result : Int)
  | readFst (address length offset : Nat) (result : Int)
  | readBi2 (address : Nat) (result : Int)
  | patched (address : Nat)
  /-- An argument structure, written through an entry point. -/
  | writeArgs (entry address : Nat) (argv : Argv)
  | run (entry : Nat)

/-- What the reads of `load_dol` come to, the sections by their place in the header. -/
structure DolReads where
  headerResult : Int
  /-- `dol_hdr` after the read. -/
  header : DolHeader
  sectionResult : Nat → Int
  sectionData : Nat → Nat → UInt8

/-- `dol_info_t`. -/
structure DolInfo where
  maxAddr : Nat
  entrypoint : Nat

/-- The loops of `load_dol` over the sections. -/
def loadSections (r : DolReads) (offset fd : Nat) : Nat → List DolSection → List BootEvent
  | _, [] => []
  | slot, s :: rest =>
      let events :=
        if s.Present then
          [.readSection slot fd s.address s.length (offset + s.offset)
            (r.sectionResult slot) (r.sectionData slot)]
        else
          []
      events ++ loadSections r offset fd (slot + 1) rest

/-- `load_dol`. -/
def loadDol (r : DolReads) (offset fd : Nat) : List BootEvent × DolInfo :=
  let hdr := r.header
  let clear :=
    if hdr.bssAddress ≠ 0 ∧ hdr.bssLength ≠ 0 then
      [BootEvent.clearBss hdr.bssAddress hdr.bssLength]
    else
      []
  (.readHeader fd offset r.headerResult hdr :: (clear ++ loadSections r offset fd 0 hdr.slots),
    ⟨dolMax hdr, hdr.entryPoint⟩)

/-- What opening a file comes to. -/
structure FileOpen where
  result : Int
  status : Option FileStatus

/-- The file is there, as far as its status says. -/
def FileOpen.fd? (o : FileOpen) : Option Nat :=
  match o.status with
  | some ⟨0, fd⟩ => some fd
  | _ => none

/-- The calls that open a file. -/
def FileOpen.events (o : FileOpen) (file : BootFile) (path : Path) (flash : Bool) :
    List BootEvent :=
  [.opened file path flash o.result, .status file o.status]

/-- `load_dol_file`. -/
def loadDolFile (o : FileOpen) (r : DolReads) (file : BootFile) (path : Path) (flash : Bool) :
    List BootEvent × DolInfo :=
  match o.fd? with
  | none => (o.events file path flash, ⟨0, 0⟩)
  | some fd =>
      let loaded := loadDol r 0 fd
      (o.events file path flash ++ loaded.1 ++ [.closed fd], loaded.2)

/-- All the sections of a DOL have been read, as its header has them. -/
def SectionsRead (events : List BootEvent) (fd offset : Nat) (hdr : DolHeader) : Prop :=
  ∀ (slot : Nat) (s : DolSection), hdr.slots[slot]? = some s → s.Present →
    ∃ data, .readSection slot fd s.address s.length (offset + s.offset) 0 data ∈ events

/-- A DOL with this entry point has been read in full from a place that is meant. -/
def DolLoaded
    (meant : List BootEvent → Nat → Nat → Prop) (events : List BootEvent) (entry : Nat) :
    Prop :=
  ∃ fd offset hdr, hdr.entryPoint = entry ∧ meant events fd offset ∧
    .readHeader fd offset 0 hdr ∈ events ∧ SectionsRead events fd offset hdr

/-- An event goes through an entry point. -/
def BootEvent.Through (ev : BootEvent) (entry : Nat) : Prop :=
  ev = .run entry ∨ ∃ address argv, ev = .writeArgs entry address argv

/-- Nothing goes through an entry point before its DOL has been loaded. -/
def OnlyLoaded (meant : List BootEvent → Nat → Nat → Prop) (events : List BootEvent) : Prop :=
  ∀ before ev after entry, events = before ++ ev :: after → ev.Through entry →
    DolLoaded meant before entry

/-- All the reads of `load_dol` succeed. -/
structure DolReads.Good (r : DolReads) : Prop where
  header : r.headerResult = 0
  sections : ∀ (slot : Nat) (s : DolSection), r.header.slots[slot]? = some s →
    s.Present → r.sectionResult slot = 0

/-- An event that only loads. -/
def BootEvent.Quiet (ev : BootEvent) : Prop :=
  ∀ entry, ¬ ev.Through entry

variable {r : DolReads} {offset fd slot : Nat} {sections : List DolSection}

/-- The events of the loops are those of the sections that are there. -/
theorem mem_loadSections {ev : BootEvent} :
    ev ∈ loadSections r offset fd slot sections ↔
      ∃ (i : Nat) (s : DolSection), sections[i]? = some s ∧ s.Present ∧
        ev = .readSection (slot + i) fd s.address s.length (offset + s.offset)
          (r.sectionResult (slot + i)) (r.sectionData (slot + i)) := by
  induction sections generalizing slot with
  | nil =>
      simp [loadSections]
  | cons t rest ih =>
      simp only [loadSections, List.mem_append, ih]
      constructor
      · rintro (hhere | ⟨i, s, hs, hpresent, rfl⟩)
        · split at hhere
          · rename_i hpresent
            rw [List.mem_singleton] at hhere
            exact ⟨0, t, rfl, hpresent, hhere⟩
          · exact absurd hhere List.not_mem_nil
        · refine ⟨i + 1, s, hs, hpresent, ?_⟩
          rw [Nat.add_right_comm, Nat.add_assoc]
      · rintro ⟨i, s, hs, hpresent, rfl⟩
        cases i with
        | zero =>
            left
            simp only [List.getElem?_cons_zero, Option.some.injEq] at hs
            subst hs
            rw [if_pos hpresent]
            exact List.mem_singleton_self _
        | succ i =>
            right
            refine ⟨i, s, hs, hpresent, ?_⟩
            rw [Nat.add_right_comm, Nat.add_assoc]

/-- The events of `load_dol`: the header, the BSS if there is one, the sections that are there. -/
theorem mem_loadDol {ev : BootEvent} :
    ev ∈ (loadDol r offset fd).1 ↔
      ev = .readHeader fd offset r.headerResult r.header ∨
      (r.header.bssAddress ≠ 0 ∧ r.header.bssLength ≠ 0) ∧
        ev = .clearBss r.header.bssAddress r.header.bssLength ∨
      ∃ (i : Nat) (s : DolSection), r.header.slots[i]? = some s ∧ s.Present ∧
        ev = .readSection i fd s.address s.length (offset + s.offset)
          (r.sectionResult i) (r.sectionData i) := by
  have hclear : ev ∈ (if r.header.bssAddress ≠ 0 ∧ r.header.bssLength ≠ 0 then
        [BootEvent.clearBss r.header.bssAddress r.header.bssLength] else []) ↔
      (r.header.bssAddress ≠ 0 ∧ r.header.bssLength ≠ 0) ∧
        ev = .clearBss r.header.bssAddress r.header.bssLength := by
    split
    · rename_i hbss
      rw [List.mem_singleton]
      exact (and_iff_right hbss).symm
    · rename_i hbss
      exact iff_of_false List.not_mem_nil fun h => hbss h.1
  simp only [loadDol, List.mem_cons, List.mem_append, mem_loadSections, hclear, Nat.zero_add]

/-- The event reads a part of a DOL. -/
def BootEvent.Loads : BootEvent → Prop
  | .readHeader .. => True
  | .readSection .. => True
  | _ => False

/-- More events do not take back what is meant. -/
def Kept (meant : List BootEvent → Nat → Nat → Prop) : Prop :=
  ∀ events more fd offset, meant events fd offset → meant (events ++ more) fd offset

section Traces

variable {meant : List BootEvent → Nat → Nat → Prop}
variable {events before quiet tail : List BootEvent} {entry : Nat}

theorem DolLoaded.append
    (hkept : Kept meant) (h : DolLoaded meant events entry) (more : List BootEvent) :
    DolLoaded meant (events ++ more) entry := by
  obtain ⟨fd, offset, hdr, hentry, hmeant, hheader, hsections⟩ := h
  refine ⟨fd, offset, hdr, hentry, hkept events more fd offset hmeant,
    List.mem_append_left more hheader, fun slot s hs hpresent => ?_⟩
  obtain ⟨data, hmem⟩ := hsections slot s hs hpresent
  exact ⟨data, List.mem_append_left more hmem⟩

/-- Where the only DOL that is read is this one, it is loaded when all its reads succeed. -/
theorem dolLoaded_iff
    (h : ∀ ev : BootEvent, ev.Loads → (ev ∈ events ↔ ev ∈ (loadDol r offset fd).1)) :
    DolLoaded meant events r.header.entryPoint ↔ meant events fd offset ∧ r.Good := by
  have hheader : ∀ fd' offset' result hdr,
      .readHeader fd' offset' result hdr ∈ events ↔
        fd' = fd ∧ offset' = offset ∧ result = r.headerResult ∧ hdr = r.header := by
    intro fd' offset' result hdr
    rw [h (.readHeader fd' offset' result hdr) trivial]
    rw [mem_loadDol]
    constructor
    · rintro (heq | ⟨_, heq⟩ | ⟨i, s, _, _, heq⟩)
      · cases heq
        exact ⟨rfl, rfl, rfl, rfl⟩
      · cases heq
      · cases heq
    · rintro ⟨rfl, rfl, rfl, rfl⟩
      exact Or.inl rfl
  have hsection : ∀ slot fd' address length place result data,
      .readSection slot fd' address length place result data ∈ events →
        result = r.sectionResult slot := by
    intro slot fd' address length place result data hmem
    rw [h (.readSection slot fd' address length place result data) trivial, mem_loadDol] at hmem
    rcases hmem with heq | ⟨_, heq⟩ | ⟨i, s, _, _, heq⟩
    · cases heq
    · cases heq
    · cases heq
      rfl
  constructor
  · rintro ⟨fd', offset', hdr, _, hmeant, hmem, hsections⟩
    obtain ⟨rfl, rfl, hresult, rfl⟩ := (hheader fd' offset' 0 hdr).1 hmem
    refine ⟨hmeant, hresult.symm, fun slot s hs hpresent => ?_⟩
    obtain ⟨data, hread⟩ := hsections slot s hs hpresent
    exact (hsection _ _ _ _ _ _ _ hread).symm
  · rintro ⟨hmeant, hgood⟩
    refine ⟨fd, offset, r.header, rfl, hmeant,
      (hheader fd offset 0 r.header).2 ⟨rfl, rfl, hgood.header.symm, rfl⟩,
      fun slot s hs hpresent => ⟨r.sectionData slot, ?_⟩⟩
    rw [h (.readSection slot fd s.address s.length (offset + s.offset) 0
      (r.sectionData slot)) trivial, mem_loadDol]
    refine Or.inr (Or.inr ⟨slot, s, hs, hpresent, ?_⟩)
    rw [hgood.sections slot s hs hpresent]

/-- Where no DOL is read, none is loaded. -/
theorem not_dolLoaded
    (h : ∀ ev ∈ events, ¬ ev.Loads) : ¬ DolLoaded meant events entry := by
  rintro ⟨fd, offset, hdr, _, _, hmem, _⟩
  exact h _ hmem trivial

theorem onlyLoaded_of_quiet
    (h : ∀ ev ∈ events, ev.Quiet) : OnlyLoaded meant events := by
  intro before ev after entry heq hthrough
  have hmem : ev ∈ events := by
    rw [heq]
    exact List.mem_append_right before List.mem_cons_self
  exact absurd hthrough (h ev hmem entry)

/-- All that goes through an entry point comes at the end, and goes through this one. -/
theorem onlyLoaded_append
    (hkept : Kept meant) (hquiet : ∀ ev ∈ quiet, ev.Quiet)
    (htail : ∀ ev ∈ tail, ∀ e, ev.Through e → e = entry)
    (first : BootEvent) {rest : List BootEvent} (hfirst : tail = first :: rest)
    (hthrough : first.Through entry) :
    OnlyLoaded meant (quiet ++ tail) ↔ DolLoaded meant quiet entry := by
  constructor
  · intro h
    exact h quiet first rest entry (by rw [hfirst]) hthrough
  · intro hloaded before ev after e heq hev
    rcases List.append_eq_append_iff.1 heq with ⟨more, rfl, htail'⟩ | ⟨more, hquiet', hcons⟩
    · have hmem : ev ∈ tail := by
        rw [htail']
        exact List.mem_append_right more List.mem_cons_self
      rw [htail ev hmem e hev]
      exact hloaded.append hkept more
    · cases more with
      | nil =>
          rw [List.append_nil] at hquiet'
          rw [List.nil_append] at hcons
          have hmem : ev ∈ tail := by
            rw [← hcons]
            exact List.mem_cons_self
          rw [htail ev hmem e hev, ← hquiet']
          exact hloaded
      | cons x more =>
          rw [List.cons_append, List.cons.injEq] at hcons
          have hmem : ev ∈ quiet := by
            rw [hquiet', hcons.1]
            exact List.mem_append_right before List.mem_cons_self
          exact absurd hev (hquiet ev hmem e)

end Traces

/-- Loading a DOL does not jump anywhere. -/
theorem loadDol_quiet {ev : BootEvent} (h : ev ∈ (loadDol r offset fd).1) : ev.Quiet := by
  rintro entry (rfl | ⟨address, argv, rfl⟩)
  · rcases mem_loadDol.1 h with heq | ⟨_, heq⟩ | ⟨i, s, _, _, heq⟩ <;> cases heq
  · rcases mem_loadDol.1 h with heq | ⟨_, heq⟩ | ⟨i, s, _, _, heq⟩ <;> cases heq

end Boot
end Cubiboot
