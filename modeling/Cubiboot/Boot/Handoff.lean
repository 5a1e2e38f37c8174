import Cubiboot.Boot.Chainload

/-!
# What is run has been loaded

Which results the two functions of `Boot.Chainload` have to get for what they run,
and write arguments through, to be a DOL that they have read in full.

They look at the status of a file, and at the reads of the FST and of the disc
information.  What opening a file returns, the header and the sections of a DOL,
the header of the disc in the drive and a search that finds no boot file are not
looked at.

The calls are given by their outcomes.  This stands for the loader as long as nothing it
loads (a section or the BSS of a DOL, the FST, the disc information) covers its own
memory: its code, its stack and its static variables, `dol_hdr` of `load_dol` among them.

Results: `only_loaded_is_run`, for which outcomes only a loaded DOL is run or written
through; `swiss_missing`, what happens where the program on the card is missing.
-/

namespace Cubiboot
namespace Boot

open Games Words

/-- The DOL that `chainload_swiss_game` is to run: this file, from its start. -/
def SwissMeant (gamePath : Option Path) (events : List BootEvent) (fd offset : Nat) : Prop :=
  offset = 0 ∧
    if isSwiss gamePath then
      .opened .program (gamePath.getD []) false 0 ∈ events ∧
        .status .program (some ⟨0, fd⟩) ∈ events
    else
      .opened .swiss swissPath true 0 ∈ events ∧ .status .swiss (some ⟨0, fd⟩) ∈ events

/-- The DOL of a game on storage: where its entry or the boot catalog has it. -/
def StorageMeant (c : BootCalls) (e : BootEntry) (events : List BootEvent) (fd offset : Nat) :
    Prop :=
  fd = 0 ∧ offset = dolOffset c e.extra ∧ offset ≠ 0 ∧
    ∃ firstFd secondFd, .opened .first e.path false 0 ∈ events ∧
      .status .first (some ⟨0, firstFd⟩) ∈ events ∧ .defaultFd firstFd secondFd ∈ events

/-- The DOL of the disc in the drive: where its header or the boot catalog has it. -/
def PassthroughMeant (c : BootCalls) (events : List BootEvent) (fd offset : Nat) : Prop :=
  fd = 0 ∧ offset ≠ 0 ∧
    ∃ header, .readDiskHeader 0 header ∈ events ∧ offset = dolOffset c header

/-- The DOL that `chainload_boot_game` is to run. -/
def BootMeant
    (forceSwissBoot emuIsNative : Bool) (c : BootCalls) (bootEntry : Option BootEntry)
    (passthrough : Bool) : List BootEvent → Nat → Nat → Prop :=
  if LeftToSwiss forceSwissBoot passthrough emuIsNative then
    SwissMeant (bootEntry.map BootEntry.path)
  else
    match passthrough, bootEntry with
    | true, _ => PassthroughMeant c
    | false, some e => StorageMeant c e
    | false, none => fun _ _ _ => False

/-- A file has been opened, and is there. -/
def FileOpen.Good (o : FileOpen) : Prop :=
  o.result = 0 ∧ ∃ fd, o.fd? = some fd

/-- The calls of `chainload_swiss_game` that have to succeed. -/
def SwissLoads (c : SwissCalls) (gamePath : Option Path) : Prop :=
  if isSwiss gamePath then
    c.program.Good ∧ c.programDol.Good
  else
    c.swiss.Good ∧ c.swissDol.Good

/-- `chainload_boot_game` stops after the files have been opened. -/
def DiscStops (c : BootCalls) : Prop :=
  c.fstResult ≠ 0 ∨ c.bi2Result ≠ 0 ∨
    isTonyhawkPro4 c.gameCode = true ∧ tonyhawkOffsets (c.gameCode 3) = none

/-- A game on storage: its boot stops at a check, or all that it needs succeeds. -/
def StorageLoads (c : BootCalls) (e : BootEntry) : Prop :=
  c.first.fd? = none ∨ (openSecond c e).2 = none ∨ DiscStops c ∨
    c.first.result = 0 ∧ dolOffset c e.extra ≠ 0 ∧ c.dol.Good

/-- The disc in the drive: its boot stops at a check, or all that it needs succeeds. -/
def PassthroughLoads (c : BootCalls) : Prop :=
  DiscStops c ∨
    c.diskHeaderResult = 0 ∧ dolOffset c c.diskHeader ≠ 0 ∧ c.dol.Good

/-- The calls of `chainload_boot_game` that have to succeed. -/
def BootLoads
    (forceSwissBoot emuIsNative : Bool) (c : BootCalls) (bootEntry : Option BootEntry)
    (passthrough : Bool) : Prop :=
  if LeftToSwiss forceSwissBoot passthrough emuIsNative then
    SwissLoads c.swiss (bootEntry.map BootEntry.path)
  else
    match passthrough, bootEntry with
    | true, _ => PassthroughLoads c
    | false, some e => StorageLoads c e
    | false, none => True

variable {o : FileOpen} {r : DolReads} {file : BootFile} {path : Path} {flash : Bool}
variable {meant : List BootEvent → Nat → Nat → Prop}

theorem FileOpen.fd?_eq_some {fd : Nat} : o.fd? = some fd ↔ o.status = some ⟨0, fd⟩ := by
  simp only [FileOpen.fd?]
  constructor
  · intro h
    split at h
    · rename_i hstatus
      cases h
      exact hstatus
    · cases h
  · intro h
    rw [h]
    rfl

@[simp] theorem opened_quiet (result : Int) : (BootEvent.opened file path flash result).Quiet := by
  rintro entry (heq | ⟨address, argv, heq⟩) <;> cases heq

@[simp] theorem status_quiet (status : Option FileStatus) :
    (BootEvent.status file status).Quiet := by
  rintro entry (heq | ⟨address, argv, heq⟩) <;> cases heq

theorem FileOpen.events_quiet {ev : BootEvent} (h : ev ∈ o.events file path flash) :
    ev.Quiet ∧ ¬ ev.Loads := by
  simp only [FileOpen.events, List.mem_cons, List.not_mem_nil, or_false] at h
  rcases h with rfl | rfl
  · exact ⟨opened_quiet _, id⟩
  · exact ⟨status_quiet _, id⟩

theorem loadDolFile_quiet {ev : BootEvent} (h : ev ∈ (loadDolFile o r file path flash).1) :
    ev.Quiet := by
  simp only [loadDolFile] at h
  split at h
  · exact (FileOpen.events_quiet h).1
  · simp only [List.mem_append, List.mem_singleton] at h
    rcases h with (hopen | hload) | rfl
    · exact (FileOpen.events_quiet hopen).1
    · exact loadDol_quiet hload
    · rintro entry (heq | ⟨address, argv, heq⟩) <;> cases heq

/-- What `load_dol_file` loads, with other events after it that do not load. -/
theorem loadDolFile_loaded_iff
    (o : FileOpen) (r : DolReads) (file : BootFile) (path : Path) (flash : Bool)
    {more : List BootEvent} (hmore : ∀ ev ∈ more, ¬ ev.Loads) :
    DolLoaded meant ((loadDolFile o r file path flash).1 ++ more)
        (loadDolFile o r file path flash).2.entrypoint ↔
      ∃ fd, o.fd? = some fd ∧
        meant ((loadDolFile o r file path flash).1 ++ more) fd 0 ∧ r.Good := by
  cases hfd : o.fd? with
  | none =>
      simp only [loadDolFile, hfd, reduceCtorEq, false_and, exists_false, iff_false]
      refine not_dolLoaded fun ev hmem => ?_
      rcases List.mem_append.1 hmem with hopen | hrest
      · exact (FileOpen.events_quiet hopen).2
      · exact hmore ev hrest
  | some fd =>
      simp only [loadDolFile, hfd, Option.some.injEq, exists_eq_left']
      refine dolLoaded_iff fun ev hloads => ?_
      simp only [List.mem_append, List.mem_singleton]
      constructor
      · rintro (((hopen | hload) | rfl) | hrest)
        · exact absurd hloads (FileOpen.events_quiet hopen).2
        · exact hload
        · exact absurd hloads id
        · exact absurd hloads (hmore ev hrest)
      · exact fun hload => Or.inl (Or.inl (Or.inr hload))

theorem mem_loadDolFile {ev : BootEvent} (hev : ev ∈ o.events file path flash) :
    ev ∈ (loadDolFile o r file path flash).1 := by
  simp only [loadDolFile]
  split
  · exact hev
  · exact List.mem_append_left _ (List.mem_append_left _ hev)

/-- The file is only opened once, by the events of `load_dol_file`. -/
theorem opened_mem_loadDolFile {file' : BootFile} {path' : Path} {flash' : Bool} {result : Int} :
    .opened file' path' flash' result ∈ (loadDolFile o r file path flash).1 ↔
      file' = file ∧ path' = path ∧ flash' = flash ∧ result = o.result := by
  have hevents : .opened file' path' flash' result ∈ o.events file path flash ↔
      file' = file ∧ path' = path ∧ flash' = flash ∧ result = o.result := by
    simp [FileOpen.events]
  simp only [loadDolFile]
  split
  · exact hevents
  · simp only [List.mem_append, List.mem_singleton, hevents, reduceCtorEq, or_false]
    constructor
    · rintro (hopen | hload)
      · exact hopen
      · rcases mem_loadDol.1 hload with heq | ⟨_, heq⟩ | ⟨i, s, _, _, heq⟩ <;> cases heq
    · exact Or.inl

theorem swissMeant_kept (gamePath : Option Path) : Kept (SwissMeant gamePath) := by
  rintro events more fd offset ⟨hzero, hmeant⟩
  refine ⟨hzero, ?_⟩
  split at hmeant <;> rename_i hswiss
  · rw [if_pos hswiss]
    exact ⟨List.mem_append_left _ hmeant.1, List.mem_append_left _ hmeant.2⟩
  · rw [if_neg hswiss]
    exact ⟨List.mem_append_left _ hmeant.1, List.mem_append_left _ hmeant.2⟩

/-- The file is meant, and its DOL complete, when all the calls succeed. -/
theorem fileLoaded_iff
    (file : BootFile) (path : Path) (flash : Bool) {events : List BootEvent}
    (hopened : .opened file path flash 0 ∈ events ↔ 0 = o.result)
    (hevents : ∀ ev ∈ o.events file path flash, ev ∈ events)
    (hmeant : ∀ fd, meant events fd 0 ↔
      .opened file path flash 0 ∈ events ∧ .status file (some ⟨0, fd⟩) ∈ events) :
    (∃ fd, o.fd? = some fd ∧ meant events fd 0 ∧ r.Good) ↔ o.Good ∧ r.Good := by
  constructor
  · rintro ⟨fd, hfd, hm, hgood⟩
    exact ⟨⟨(hopened.1 ((hmeant fd).1 hm).1).symm, fd, hfd⟩, hgood⟩
  · rintro ⟨⟨hresult, fd, hfd⟩, hgood⟩
    refine ⟨fd, hfd, (hmeant fd).2 ⟨hopened.2 hresult.symm, hevents _ ?_⟩, hgood⟩
    rw [← FileOpen.fd?_eq_some.1 hfd]
    exact List.mem_cons_of_mem _ List.mem_cons_self

theorem chainloadSwissGame_iff
    (c : SwissCalls) (gamePath : Option Path) (passthrough : Bool) :
    OnlyLoaded (SwissMeant gamePath) (chainloadSwissGame c gamePath passthrough) ↔
      SwissLoads c gamePath := by
  have hkept := swissMeant_kept gamePath
  simp only [chainloadSwissGame, SwissLoads]
  by_cases hswiss : isSwiss gamePath = true
  · simp only [if_pos hswiss]
    rw [onlyLoaded_append hkept (fun ev => loadDolFile_quiet)
      (fun ev hmem e hthrough => ?_) (.run _) rfl (Or.inl rfl)]
    · have hnone : ∀ ev ∈ ([] : List BootEvent), ¬ ev.Loads :=
        fun ev hmem => absurd hmem List.not_mem_nil
      rw [← List.append_nil (loadDolFile c.program c.programDol .program
        (gamePath.getD []) false).1, loadDolFile_loaded_iff _ _ _ _ _ hnone, List.append_nil]
      refine fileLoaded_iff .program (gamePath.getD []) false ?_
        (fun ev => mem_loadDolFile) fun fd => ?_
      · rw [opened_mem_loadDolFile]
        simp only [true_and]
      · simp only [SwissMeant, if_pos hswiss, true_and]
    · rw [List.mem_singleton.1 hmem] at hthrough
      rcases hthrough with heq | ⟨address, argv, heq⟩
      · cases heq
        rfl
      · cases heq
  · simp only [if_neg hswiss]
    obtain ⟨info, hinfo⟩ : ∃ info,
        info = (loadDolFile c.swiss c.swissDol .swiss swissPath true).2 := ⟨_, rfl⟩
    have hthrough : ∀ ev ∈ swissHandoff c gamePath passthrough info, ∀ e,
        ev.Through e → e = info.entrypoint := by
      intro ev hmem e hthrough
      simp only [swissHandoff, setupArgv, List.mem_cons, List.not_mem_nil, or_false] at hmem
      rcases hmem with rfl | rfl | rfl
      · rcases hthrough with heq | ⟨address, argv, heq⟩ <;> cases heq
        rfl
      · rcases hthrough with heq | ⟨address, argv, heq⟩ <;> cases heq
        rfl
      · rcases hthrough with heq | ⟨address, argv, heq⟩ <;> cases heq
        rfl
    rw [← hinfo, onlyLoaded_append hkept (fun ev hmem => ?_) hthrough
      (setupArgv (argList c gamePath passthrough) (word (info.maxAddr + 32))
        info.entrypoint (word (info.entrypoint + 8)) argvMagic) rfl (Or.inr ⟨_, _, rfl⟩)]
    · rw [hinfo, loadDolFile_loaded_iff _ _ _ _ _
        fun ev hmem => (FileOpen.events_quiet hmem).2]
      refine fileLoaded_iff .swiss swissPath true ?_
        (fun ev hmem => List.mem_append_left _ (mem_loadDolFile hmem)) fun fd => ?_
      · simp only [List.mem_append, opened_mem_loadDolFile, true_and, FileOpen.events,
          List.mem_cons, BootEvent.opened.injEq, reduceCtorEq, false_and,
          List.not_mem_nil, or_false]
      · simp only [SwissMeant, if_neg hswiss, true_and]
    · rcases List.mem_append.1 hmem with hload | hopen
      · exact loadDolFile_quiet hload
      · exact (FileOpen.events_quiet hopen).1

variable {c : BootCalls} {e : BootEntry} {header : DiskHeader}

theorem storageMeant_kept (c : BootCalls) (e : BootEntry) : Kept (StorageMeant c e) := by
  rintro events more fd offset ⟨hfd, hoffset, hne, firstFd, secondFd, hopened, hstatus, hset⟩
  exact ⟨hfd, hoffset, hne, firstFd, secondFd, List.mem_append_left _ hopened,
    List.mem_append_left _ hstatus, List.mem_append_left _ hset⟩

theorem passthroughMeant_kept (c : BootCalls) : Kept (PassthroughMeant c) := by
  rintro events more fd offset ⟨hfd, hne, header, hread, hoffset⟩
  exact ⟨hfd, hne, header, List.mem_append_left _ hread, hoffset⟩

/-- An event that neither loads nor goes through an entry point. -/
def BootEvent.Idle (ev : BootEvent) : Prop :=
  ev.Quiet ∧ ¬ ev.Loads

/-- An event that finds a file, or where the DOL of a disc is. -/
def BootEvent.Finds : BootEvent → Prop
  | .opened .. => True
  | .readDiskHeader .. => True
  | _ => False

theorem loadDol_finds {r : DolReads} {offset fd : Nat} {ev : BootEvent}
    (h : ev ∈ (loadDol r offset fd).1) : ¬ ev.Finds := by
  rcases mem_loadDol.1 h with rfl | ⟨_, rfl⟩ | ⟨i, s, _, _, rfl⟩
  · exact id
  · exact id
  · exact id

theorem readFst_idle (address length offset : Nat) (result : Int) :
    (BootEvent.readFst address length offset result).Idle := by
  refine ⟨?_, id⟩
  rintro entry (heq | ⟨address, argv, heq⟩) <;> cases heq

theorem readBi2_idle (address : Nat) (result : Int) :
    (BootEvent.readBi2 address result).Idle := by
  refine ⟨?_, id⟩
  rintro entry (heq | ⟨address, argv, heq⟩) <;> cases heq

theorem patched_idle (address : Nat) : (BootEvent.patched address).Idle := by
  refine ⟨?_, id⟩
  rintro entry (heq | ⟨address, argv, heq⟩) <;> cases heq

/-- The game is run, unless its region is unknown. -/
theorem patchAndRun_cases (gameCode : Nat → UInt8) (entrypoint : Nat) :
    (isTonyhawkPro4 gameCode = true ∧ tonyhawkOffsets (gameCode 3) = none ∧
        patchAndRun gameCode entrypoint = []) ∨
      ¬ (isTonyhawkPro4 gameCode = true ∧ tonyhawkOffsets (gameCode 3) = none) ∧
        ∃ patches : List BootEvent, (∀ ev ∈ patches, ev.Idle ∧ ¬ ev.Finds) ∧
          patchAndRun gameCode entrypoint = patches ++ [.run entrypoint] := by
  simp only [patchAndRun]
  by_cases hgame : isTonyhawkPro4 gameCode = true
  · simp only [hgame, true_and]
    cases hoffsets : tonyhawkOffsets (gameCode 3) with
    | none => exact Or.inl ⟨rfl, rfl⟩
    | some offsets =>
        refine Or.inr ⟨nofun, [.patched offsets.1, .patched offsets.2], ?_, rfl⟩
        intro ev hmem
        simp only [List.mem_cons, List.not_mem_nil, or_false] at hmem
        rcases hmem with rfl | rfl <;> exact ⟨patched_idle _, id⟩
  · refine Or.inr ⟨fun hc => hgame hc.1, [], ?_, by rw [if_neg hgame]; rfl⟩
    exact fun ev hmem => absurd hmem List.not_mem_nil

/-- Between events that are idle a DOL is loaded, and then run. -/
theorem loadThenRun_iff
    {meant : List BootEvent → Nat → Nat → Prop} (hkept : Kept meant) (r : DolReads)
    (offset fd : Nat) {before patches : List BootEvent}
    (hbefore : ∀ ev ∈ before, ev.Idle) (hpatches : ∀ ev ∈ patches, ev.Idle) :
    OnlyLoaded meant
        ((before ++ ((loadDol r offset fd).1 ++ patches)) ++ [.run r.header.entryPoint]) ↔
      meant (before ++ ((loadDol r offset fd).1 ++ patches)) fd offset ∧ r.Good := by
  rw [onlyLoaded_append hkept (fun ev hmem => ?_) (fun ev hmem entry hthrough => ?_)
    (.run _) rfl (Or.inl rfl), dolLoaded_iff]
  · intro ev hloads
    rw [List.mem_append, List.mem_append]
    constructor
    · rintro (hmem | hmem | hmem)
      · exact absurd hloads (hbefore ev hmem).2
      · exact hmem
      · exact absurd hloads (hpatches ev hmem).2
    · exact fun hmem => Or.inr (Or.inl hmem)
  · rw [List.mem_append, List.mem_append] at hmem
    rcases hmem with hmem | hmem | hmem
    · exact (hbefore ev hmem).1
    · exact loadDol_quiet hmem
    · exact (hpatches ev hmem).1
  · rw [List.mem_singleton.1 hmem] at hthrough
    rcases hthrough with heq | ⟨address, argv, heq⟩ <;> cases heq
    rfl

/--
What is read from a disc after events that are idle: it stops at a check, or its
DOL is read from a place that is meant, and complete.
-/
theorem bootFromDisc_iff
    {meant : List BootEvent → Nat → Nat → Prop} (hkept : Kept meant)
    {before : List BootEvent} (hbefore : ∀ ev ∈ before, ev.Idle)
    {ready : Prop}
    (hmeant : ∀ more : List BootEvent, (∀ ev ∈ more, ¬ ev.Finds) →
      (meant (before ++ more) 0 (dolOffset c header) ↔ ready)) :
    OnlyLoaded meant (before ++ bootFromDisc c header) ↔
      DiscStops c ∨ ready ∧ c.dol.Good := by
  obtain ⟨readFst, hfst⟩ : ∃ ev, ev = BootEvent.readFst (fstAddr header.maxFstSize)
      (andNot (word (header.fstSize + 31)) 31) header.fstOffset c.fstResult := ⟨_, rfl⟩
  obtain ⟨readBi2, hbi2⟩ : ∃ ev, ev = BootEvent.readBi2 (bi2Addr header.maxFstSize)
      c.bi2Result := ⟨_, rfl⟩
  have hfstIdle : readFst.Idle := hfst ▸ readFst_idle _ _ _ _
  have hbi2Idle : readBi2.Idle := hbi2 ▸ readBi2_idle _ _
  simp only [bootFromDisc, ← hfst, ← hbi2]
  by_cases hfstOk : c.fstResult = 0
  · simp only [if_neg (not_not_intro hfstOk)]
    by_cases hbi2Ok : c.bi2Result = 0
    · simp only [if_neg (not_not_intro hbi2Ok)]
      have hentry : (loadDol c.dol (dolOffset c header) 0).2.entrypoint =
          c.dol.header.entryPoint := rfl
      rw [hentry]
      -- all that comes before the DOL
      have hidle : ∀ ev ∈ before ++ [readFst, readBi2], ev.Idle := by
        intro ev hmem
        simp only [List.mem_append, List.mem_cons, List.not_mem_nil, or_false] at hmem
        rcases hmem with hmem | rfl | rfl
        · exact hbefore ev hmem
        · exact hfstIdle
        · exact hbi2Idle
      rcases patchAndRun_cases c.gameCode c.dol.header.entryPoint with
        ⟨hgame, hnone, hrun⟩ | ⟨hregion, patches, hpatches, hrun⟩
      · rw [hrun, List.append_nil]
        refine iff_of_true (onlyLoaded_of_quiet fun ev hmem => ?_)
          (Or.inl (Or.inr (Or.inr ⟨hgame, hnone⟩)))
        rw [← List.append_assoc, List.mem_append] at hmem
        rcases hmem with hmem | hmem
        · exact (hidle ev hmem).1
        · exact loadDol_quiet hmem
      · have hshape : before ++ ([readFst, readBi2] ++
            (loadDol c.dol (dolOffset c header) 0).1 ++
            (patches ++ [.run c.dol.header.entryPoint])) =
            ((before ++ [readFst, readBi2]) ++
              ((loadDol c.dol (dolOffset c header) 0).1 ++ patches)) ++
              [.run c.dol.header.entryPoint] := by
          simp only [List.append_assoc]
        have hmore : ∀ ev ∈ [readFst, readBi2] ++
            ((loadDol c.dol (dolOffset c header) 0).1 ++ patches), ¬ ev.Finds := by
          intro ev hmem
          simp only [List.mem_append, List.mem_cons, List.not_mem_nil, or_false] at hmem
          rcases hmem with (rfl | rfl) | hmem | hmem
          · rw [hfst]
            exact id
          · rw [hbi2]
            exact id
          · exact loadDol_finds hmem
          · exact (hpatches ev hmem).2
        have hgoes : ¬ DiscStops c := by
          rintro (hc | hc | hc)
          · exact hc hfstOk
          · exact hc hbi2Ok
          · exact hregion hc
        rw [hrun, hshape, loadThenRun_iff hkept _ _ _ hidle fun ev hmem => (hpatches ev hmem).1,
          List.append_assoc, hmeant _ hmore]
        exact (or_iff_right hgoes).symm
    · simp only [if_pos hbi2Ok]
      refine iff_of_true (onlyLoaded_of_quiet fun ev hmem => ?_)
        (Or.inl (Or.inr (Or.inl hbi2Ok)))
      simp only [List.mem_append, List.mem_cons, List.not_mem_nil, or_false] at hmem
      rcases hmem with hmem | rfl | rfl
      · exact (hbefore ev hmem).1
      · exact hfstIdle.1
      · exact hbi2Idle.1
  · simp only [if_pos hfstOk]
    refine iff_of_true (onlyLoaded_of_quiet fun ev hmem => ?_) (Or.inl (Or.inl hfstOk))
    simp only [List.mem_append, List.mem_singleton] at hmem
    rcases hmem with hmem | rfl
    · exact (hbefore ev hmem).1
    · exact hfstIdle.1

theorem bootPassthrough_iff (c : BootCalls) :
    OnlyLoaded (PassthroughMeant c) (bootPassthrough c) ↔ PassthroughLoads c := by
  have hidle : ∀ ev ∈ [BootEvent.readDiskHeader c.diskHeaderResult c.diskHeader],
      ev.Idle := by
    intro ev hmem
    rw [List.mem_singleton.1 hmem]
    refine ⟨?_, id⟩
    rintro entry (heq | ⟨address, argv, heq⟩) <;> cases heq
  have hmeant : ∀ more : List BootEvent, (∀ ev ∈ more, ¬ ev.Finds) →
      (PassthroughMeant c
          ([BootEvent.readDiskHeader c.diskHeaderResult c.diskHeader] ++ more) 0
          (dolOffset c c.diskHeader) ↔
        c.diskHeaderResult = 0 ∧ dolOffset c c.diskHeader ≠ 0) := by
    intro more hmore
    constructor
    · rintro ⟨_, hne, header, hread, _⟩
      rcases List.mem_append.1 hread with hfirst | hlater
      · have heq := List.mem_singleton.1 hfirst
        rw [BootEvent.readDiskHeader.injEq] at heq
        exact ⟨heq.1.symm, hne⟩
      · exact absurd trivial (hmore _ hlater)
    · rintro ⟨hresult, hne⟩
      refine ⟨rfl, hne, c.diskHeader, List.mem_append_left _ ?_, rfl⟩
      rw [hresult]
      exact List.mem_singleton_self _
  have hiff := bootFromDisc_iff (passthroughMeant_kept c) hidle hmeant
  simp only [List.singleton_append] at hiff
  rw [bootPassthrough, hiff, PassthroughLoads, and_assoc]

/-- The second disc is opened without anything being loaded or run. -/
theorem openSecond_idle {ev : BootEvent} (h : ev ∈ (openSecond c e).1) :
    ev.Idle ∧ ∀ path flash result, ev ≠ .opened .first path flash result := by
  simp only [openSecond] at h
  split at h
  · exact absurd h List.not_mem_nil
  · refine ⟨FileOpen.events_quiet h, ?_⟩
    rintro path flash result rfl
    simp [FileOpen.events] at h

theorem bootFromStorage_iff (c : BootCalls) (e : BootEntry) :
    OnlyLoaded (StorageMeant c e) (bootFromStorage c e) ↔ StorageLoads c e := by
  cases hfirst : c.first.fd? with
  | none =>
      simp only [bootFromStorage, hfirst]
      exact iff_of_true (onlyLoaded_of_quiet fun ev hmem => (FileOpen.events_quiet hmem).1)
        (Or.inl hfirst)
  | some firstFd =>
      obtain ⟨⟨opened, second⟩, hsecond⟩ : ∃ o, openSecond c e = o := ⟨_, rfl⟩
      have hopened : ∀ ev ∈ opened, ev.Idle ∧
          ∀ path flash result, ev ≠ .opened .first path flash result := by
        intro ev hmem
        refine openSecond_idle (c := c) (e := e) ?_
        rw [hsecond]
        exact hmem
      cases second with
      | none =>
          simp only [bootFromStorage, hfirst, hsecond]
          refine iff_of_true (onlyLoaded_of_quiet fun ev hmem => ?_)
            (Or.inr (Or.inl (by rw [hsecond])))
          rcases List.mem_append.1 hmem with hmem | hmem
          · exact (FileOpen.events_quiet hmem).1
          · exact (hopened ev hmem).1.1
      | some secondFd =>
          simp only [bootFromStorage, hfirst, hsecond]
          obtain ⟨before, hbefore⟩ : ∃ before, before =
              c.first.events .first e.path false ++ opened ++
                [BootEvent.defaultFd firstFd secondFd, .readLowmem c.lowmemResult] :=
            ⟨_, rfl⟩
          have hidle : ∀ ev ∈ before, ev.Idle := by
            intro ev hmem
            rw [hbefore] at hmem
            simp only [List.mem_append, List.mem_cons, List.not_mem_nil, or_false] at hmem
            rcases hmem with (hmem | hmem) | rfl | rfl
            · exact FileOpen.events_quiet hmem
            · exact (hopened ev hmem).1
            · refine ⟨?_, id⟩
              rintro entry (heq | ⟨address, argv, heq⟩) <;> cases heq
            · refine ⟨?_, id⟩
              rintro entry (heq | ⟨address, argv, heq⟩) <;> cases heq
          have hstatus : BootEvent.status .first (some ⟨0, firstFd⟩) ∈ before := by
            rw [hbefore]
            refine List.mem_append_left _ (List.mem_append_left _ ?_)
            rw [← FileOpen.fd?_eq_some.1 hfirst]
            exact List.mem_cons_of_mem _ List.mem_cons_self
          have hset : BootEvent.defaultFd firstFd secondFd ∈ before := by
            rw [hbefore]
            exact List.mem_append_right _ List.mem_cons_self
          have hmeant : ∀ more : List BootEvent, (∀ ev ∈ more, ¬ ev.Finds) →
              (StorageMeant c e (before ++ more) 0 (dolOffset c e.extra) ↔
                c.first.result = 0 ∧ dolOffset c e.extra ≠ 0) := by
            intro more hmore
            constructor
            · rintro ⟨_, _, hne, _, _, hopen, _, _⟩
              refine ⟨?_, hne⟩
              rw [hbefore] at hopen
              simp only [List.mem_append, List.mem_cons, List.not_mem_nil, or_false,
                reduceCtorEq] at hopen
              rcases hopen with (hopen | hopen) | hopen
              · simp only [FileOpen.events, List.mem_cons, BootEvent.opened.injEq, true_and,
                  reduceCtorEq, List.not_mem_nil, or_false] at hopen
                exact hopen.symm
              · exact absurd rfl ((hopened _ hopen).2 _ _ _)
              · exact absurd trivial (hmore _ hopen)
            · rintro ⟨hresult, hne⟩
              refine ⟨rfl, rfl, hne, firstFd, secondFd, List.mem_append_left _ ?_,
                List.mem_append_left _ hstatus, List.mem_append_left _ hset⟩
              rw [hbefore, ← hresult]
              exact List.mem_append_left _
                (List.mem_append_left _ List.mem_cons_self)
          rw [← hbefore, bootFromDisc_iff (storageMeant_kept c e) hidle hmeant, StorageLoads,
            and_assoc]
          simp [hfirst, hsecond]

theorem chainloadBootGame_iff
    (forceSwissBoot emuIsNative : Bool) (c : BootCalls) (bootEntry : Option BootEntry)
    (passthrough : Bool) :
    OnlyLoaded (BootMeant forceSwissBoot emuIsNative c bootEntry passthrough)
        (chainloadBootGame forceSwissBoot emuIsNative c bootEntry passthrough) ↔
      BootLoads forceSwissBoot emuIsNative c bootEntry passthrough := by
  simp only [BootMeant, chainloadBootGame, BootLoads]
  by_cases hleft : LeftToSwiss forceSwissBoot passthrough emuIsNative
  · simp only [if_pos hleft]
    exact chainloadSwissGame_iff c.swiss _ passthrough
  · simp only [if_neg hleft]
    cases passthrough with
    | true => exact bootPassthrough_iff c
    | false =>
        cases bootEntry with
        | none =>
            refine iff_of_true (onlyLoaded_of_quiet fun ev hmem => ?_) trivial
            exact absurd hmem List.not_mem_nil
        | some e => exact bootFromStorage_iff c e

/--
Nothing is run, and no arguments are written, but for a DOL that has been loaded:
exactly when the calls that are not checked succeed, or one that is checked stops
the boot before.  No read or BSS covers the loader's own memory, `dol_hdr` included.
-/
theorem only_loaded_is_run
    (swiss : SwissCalls) (gamePath : Option Path) (c : BootCalls) (bootEntry : Option BootEntry)
    (forceSwissBoot emuIsNative passthrough : Bool) :
    (OnlyLoaded (SwissMeant gamePath) (chainloadSwissGame swiss gamePath passthrough) ↔
        SwissLoads swiss gamePath) ∧
      (OnlyLoaded (BootMeant forceSwissBoot emuIsNative c bootEntry passthrough)
          (chainloadBootGame forceSwissBoot emuIsNative c bootEntry passthrough) ↔
        BootLoads forceSwissBoot emuIsNative c bootEntry passthrough) :=
  ⟨chainloadSwissGame_iff swiss gamePath passthrough,
    chainloadBootGame_iff forceSwissBoot emuIsNative c bootEntry passthrough⟩

/-- No file is there. -/
def missing : FileOpen :=
  ⟨1, some ⟨1, 0⟩⟩

/-- A header without sections, and reads that fail. -/
def noDol : DolReads where
  headerResult := 1
  header := ⟨fun _ => ⟨0, 0, 0⟩, fun _ => ⟨0, 0, 0⟩, 0, 0, 0⟩
  sectionResult := fun _ => 1
  sectionData := fun _ _ => 0

/-- A card without any of the files. -/
def emptyCard : SwissCalls :=
  ⟨missing, noDol, missing, noDol, missing, []⟩

/-- Without Swiss the arguments go to address 8, and address 0 is run. -/
theorem swiss_missing :
    .writeArgs 0 8 ⟨argvMagic, 32, 78⟩ ∈ chainloadSwissGame emptyCard none true ∧
      .run 0 ∈ chainloadSwissGame emptyCard none true ∧
      ¬ OnlyLoaded (SwissMeant none) (chainloadSwissGame emptyCard none true) := by
  refine ⟨?_, ?_, fun h => ?_⟩
  · exact List.mem_append_right _ List.mem_cons_self
  · exact List.mem_append_right _
      (List.mem_cons_of_mem _ (List.mem_cons_of_mem _ List.mem_cons_self))
  · obtain ⟨⟨hresult, _⟩, _⟩ := (chainloadSwissGame_iff emptyCard none true).1 h
    exact absurd hresult (by decide)

end Boot
end Cubiboot
